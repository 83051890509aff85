import ReplicatedStore.Proofs.Entry.Join
import ReplicatedStore.Proofs.Store.Feed
import ReplicatedStore.Proofs.Store.Takes
/-!
# Histories of a store in memory

A store in memory is followed through puts, uploads, takes, and the commits and drops of takes, with any
number of takes open at once. Beside the store stand the entries that were written and not removed since,
and what each open take saw. Committing a take removes what it saw, but for what was written since.
-/

namespace ReplicatedStore

variable {κ σ : Type} [Ord κ]

structure OpenTake (κ σ : Type) [Ord κ] where
  /-- The store that was taken. -/
  snapshot : MapStore κ σ
  receipt : List (κ × Nat)
  /-- What was written to the store since. -/
  since : List (Entry κ σ)

/-- Whether a take saw a key that was not written since. -/
def OpenTake.covers (take : OpenTake κ σ) (key : κ) : Bool :=
  take.snapshot.slots.contains key && !take.since.any (Entry.hasKey key)

theorem OpenTake.covers_iff [Std.LawfulEqOrd κ] {take : OpenTake κ σ} {key : κ} :
    take.covers key = true ↔ key ∈ take.snapshot.slots ∧ ∀ entry ∈ take.since, entry.key ≠ key := by
  simp [covers]

/-- A store in memory with what led to its state. -/
structure MapHistory (κ σ : Type) [Ord κ] where
  store : MapStore κ σ
  /-- The entries written, less those of a key that a commit removed. -/
  live : List (Entry κ σ)
  takes : List (OpenTake κ σ)

namespace MapHistory

def start : MapHistory κ σ := ⟨.empty, [], []⟩

def wrote (arriving : List (Entry κ σ)) (store : MapStore κ σ) (history : MapHistory κ σ) :
    MapHistory κ σ where
  store := store
  live := history.live ++ arriving
  takes := history.takes.map fun take => { take with since := take.since ++ arriving }

variable (f : MergeFunction σ)

def put (arriving : Entry κ σ) (history : MapHistory κ σ) : MapHistory κ σ :=
  history.wrote [arriving] (history.store.put f arriving)

def upload (feed : Feed κ σ) (history : MapHistory κ σ) : MapHistory κ σ :=
  match (MapStore.requests f).upload feed history.store with
  | (.ok (), store) => history.wrote feed.delivered store
  | (.error _, store) => { history with store }

def take (history : MapHistory κ σ) : MapHistory κ σ :=
  match (MapStore.requests f).take history.store with
  | (.ok (_, receipt), store) =>
    { history with store, takes := history.takes ++ [⟨history.store, receipt, []⟩] }
  | (.error _, store) => { history with store }

def commit (position : Nat) (drained : Bool) (history : MapHistory κ σ) : MapHistory κ σ :=
  match history.takes[position]? with
  | none => history
  | some take =>
    { store := ((MapStore.requests f).commit take.receipt drained history.store).2
      live := history.live.filter fun entry => !take.covers entry.key
      takes := history.takes.eraseIdx position }

def drop (position : Nat) (history : MapHistory κ σ) : MapHistory κ σ :=
  match history.takes[position]? with
  | none => history
  | some take =>
    { history with
      store := (MapStore.requests f).release take.receipt history.store
      takes := history.takes.eraseIdx position }

inductive Reached : MapHistory κ σ → Prop
  | start : Reached start
  | put {history : MapHistory κ σ} (h : Reached history) (arriving : Entry κ σ) :
    Reached (history.put f arriving)
  | upload {history : MapHistory κ σ} (h : Reached history) (feed : Feed κ σ) :
    Reached (history.upload f feed)
  | take {history : MapHistory κ σ} (h : Reached history) : Reached (history.take f)
  | commit {history : MapHistory κ σ} (h : Reached history) (position : Nat) (drained : Bool) :
    Reached (history.commit f position drained)
  | drop {history : MapHistory κ σ} (h : Reached history) (position : Nat) :
    Reached (history.drop f position)

/-- What holds of every history: the store has what is live, and each open take has seen the store as it was
before what was written since. -/
structure Sound (history : MapHistory κ σ) : Prop where
  keyed : history.store.Keyed
  fresh : history.store.Fresh
  content : ∀ key, history.store.get? key = Entry.joined f (history.live.filter (Entry.hasKey key))
  takes : ∀ take ∈ history.takes, take.snapshot.Keyed ∧ take.snapshot.Fresh ∧
    take.receipt = take.snapshot.versions ∧ MapStore.Changed f take.snapshot take.since history.store

variable {f} {history : MapHistory κ σ}

theorem upload_ofEntries (entries : List (Entry κ σ)) :
    history.upload f (.ofEntries entries) = history.wrote entries (history.store.putAll f entries) := by
  simp only [upload, MapStore.requests, MapStore.upload, Feed.collect_ofEntries, Feed.delivered_ofEntries]

theorem upload_nil : history.upload f [] = history := by
  have hempty : ([] : Feed κ σ) = Feed.ofEntries [] := rfl
  rw [hempty, upload_ofEntries]
  simp [wrote, MapStore.putAll]

theorem upload_of_error {feed : Feed κ σ} {cause : StoreError} (h : feed.collect = .error cause) :
    history.upload f feed = history := by
  simp only [upload, MapStore.requests, MapStore.upload, h]

namespace Sound

theorem take (h : history.Sound f) : (history.take f).Sound f := by
  refine ⟨h.keyed, h.fresh, h.content, fun take hmem => ?_⟩
  rcases List.mem_append.mp hmem with hold | hnew
  · exact h.takes take hold
  · rw [List.mem_singleton.mp hnew]
    exact ⟨h.keyed, h.fresh, rfl, .refl⟩

theorem drop (h : history.Sound f) (position : Nat) : (history.drop f position).Sound f := by
  unfold MapHistory.drop
  split
  next => exact h
  next => exact ⟨h.keyed, h.fresh, h.content, fun take hmem => h.takes take (List.mem_of_mem_eraseIdx hmem)⟩

variable [Std.TransOrd κ]

theorem start : (start : MapHistory κ σ).Sound f := by
  refine ⟨MapStore.keyed_empty, MapStore.fresh_empty, fun key => ?_, by simp [MapHistory.start]⟩
  simp [MapHistory.start, MapStore.get?, MapStore.empty, Entry.joined]

variable [Std.LawfulEqOrd κ]

theorem wrote (h : history.Sound f) (arriving : List (Entry κ σ)) :
    (history.wrote arriving (history.store.putAll f arriving)).Sound f := by
  have hwritten : MapStore.Changed f history.store arriving (history.store.putAll f arriving) :=
    MapStore.Changed.refl.putAll arriving
  refine ⟨h.keyed.putAll f arriving, hwritten.fresh h.keyed h.fresh, fun key => ?_, ?_⟩
  · rw [MapHistory.wrote, List.filter_append]
    exact MapStore.get?_putAll f h.keyed (h.content key)
  · intro take hmem
    obtain ⟨earlier, hearlier, rfl⟩ := List.mem_map.mp hmem
    obtain ⟨hkeyed, hfresh, hreceipt, hchanged⟩ := h.takes earlier hearlier
    exact ⟨hkeyed, hfresh, hreceipt, hchanged.putAll arriving⟩

theorem upload (h : history.Sound f) (feed : Feed κ σ) : (history.upload f feed).Sound f := by
  unfold MapHistory.upload
  simp only [MapStore.requests, MapStore.upload]
  cases hcollect : feed.collect with
  | error cause => exact h
  | ok entries =>
    rw [Feed.eq_ofEntries_of_collect hcollect, Feed.delivered_ofEntries]
    exact h.wrote entries

/-- What the commit of an open take leaves of the store. -/
theorem slots_commit (h : history.Sound f) {take : OpenTake κ σ} (hmem : take ∈ history.takes) (key : κ) :
    (history.store.removeTaken take.receipt).slots[key]? =
      if take.covers key then none else history.store.slots[key]? := by
  obtain ⟨hkeyed, hfresh, hreceipt, hchanged⟩ := h.takes take hmem
  refine Option.ext fun slot => ?_
  rw [hreceipt, hchanged.slots_commit hkeyed hfresh]
  split
  next hcovers =>
    obtain ⟨-, hnone⟩ := OpenTake.covers_iff.mp hcovers
    simpa using fun _ => hnone
  next hcovers =>
    -- A slot that the take does not cover was written since, as the take saw all that were not.
    refine and_iff_left_of_imp fun hslot => ?_
    rcases hchanged.slot_cases hkeyed hslot with ⟨hwritten, -⟩ | ⟨hnone, hsame⟩
    · exact hwritten
    · refine absurd (OpenTake.covers_iff.mpr ⟨?_, hnone⟩) hcovers
      rw [Std.TreeMap.mem_iff_isSome_getElem?, hsame]
      rfl

omit [Std.TransOrd κ] in
private theorem filter_live (take : OpenTake κ σ) (live : List (Entry κ σ)) (key : κ) :
    (live.filter fun entry => !take.covers entry.key).filter (Entry.hasKey key) =
      if take.covers key then [] else live.filter (Entry.hasKey key) := by
  rw [List.filter_filter]
  split
  next hcovers =>
    refine List.filter_eq_nil_iff.mpr fun entry _ hboth => ?_
    rw [Bool.and_eq_true, Entry.hasKey_iff] at hboth
    obtain ⟨rfl, hkept⟩ := hboth
    rw [hcovers] at hkept
    contradiction
  next hcovers =>
    refine List.filter_congr fun entry _ => ?_
    cases hkey : Entry.hasKey key entry with
    | false => rfl
    | true =>
      rw [Entry.hasKey_iff.mp hkey, Bool.eq_false_iff.mpr hcovers]
      rfl

theorem commit (h : history.Sound f) (position : Nat) (drained : Bool) :
    (history.commit f position drained).Sound f := by
  unfold MapHistory.commit
  split
  next => exact h
  next take htake =>
    have hmem : take ∈ history.takes := List.mem_of_getElem? htake
    refine ⟨h.keyed.removeTaken take.receipt, h.fresh.removeTaken take.receipt, fun key => ?_, ?_⟩
    · show ((history.store.removeTaken take.receipt).slots[key]?).map Slot.entry = _
      rw [h.slots_commit hmem, filter_live]
      split
      next => rfl
      next => exact h.content key
    · intro other hother
      obtain ⟨hkeyed, hfresh, hreceipt, hchanged⟩ := h.takes other (List.mem_of_mem_eraseIdx hother)
      exact ⟨hkeyed, hfresh, hreceipt, hchanged.commit take.receipt⟩

theorem joins (h : history.Sound f) : Entry.Joins f history.live history.store.entries :=
  h.keyed.joins h.content

/-- A take that has missed no write has seen all that is live. -/
theorem covers_live (h : history.Sound f) {take : OpenTake κ σ} (hmem : take ∈ history.takes)
    (hquiet : take.since = []) {entry : Entry κ σ} (hlive : entry ∈ history.live) :
    take.covers entry.key = true := by
  obtain ⟨hkeyed, -, -, hchanged⟩ := h.takes take hmem
  have hget : history.store.get? entry.key ≠ none := by
    rw [h.content, Ne, Entry.joined_eq_none]
    exact List.ne_nil_of_mem (List.mem_filter.mpr ⟨hlive, Entry.hasKey_iff.mpr rfl⟩)
  obtain ⟨held, hheld⟩ := Option.ne_none_iff_exists'.mp hget
  obtain ⟨slot, hslot, -⟩ := Option.map_eq_some_iff.mp hheld
  rw [hquiet] at hchanged
  rcases hchanged.slot_cases hkeyed hslot with ⟨⟨written, hwritten, -⟩, -⟩ | ⟨-, hsame⟩
  · contradiction
  · refine OpenTake.covers_iff.mpr ⟨?_, by simp [hquiet]⟩
    rw [Std.TreeMap.mem_iff_isSome_getElem?, hsame]
    rfl

end Sound

variable [Std.TransOrd κ] [Std.LawfulEqOrd κ]

theorem Reached.sound (h : Reached f history) : history.Sound f := by
  induction h with
  | start => exact .start
  | put _ arriving ih => exact ih.wrote [arriving]
  | upload _ feed ih => exact ih.upload feed
  | take _ ih => exact ih.take
  | commit _ position drained ih => exact ih.commit position drained
  | drop _ position ih => exact ih.drop position

/-- Slots have numbers of their own, which are at most the number of writes, and hold what was written and not
removed since. A take that is not committed changes nothing; its commit removes a key if and only if the key is
there, the take saw it and it was not written since, and leaves every other slot as it is. -/
theorem commit_keeps_writes (h : Reached f history) :
    history.store.Fresh ∧
    (∀ key, history.store.get? key = Entry.joined f (history.live.filter (Entry.hasKey key))) ∧
    (history.take f).store = history.store ∧
    (∀ position, (history.drop f position).store = history.store) ∧
    ∀ position take drained, history.takes[position]? = some take →
      let after := (history.commit f position drained).store
      ∀ key, let removed := key ∈ history.store.slots ∧ key ∈ take.snapshot.slots ∧
          ∀ entry ∈ take.since, entry.key ≠ key
        (key ∈ history.store.slots ∧ key ∉ after.slots ↔ removed) ∧
          (¬removed → after.slots[key]? = history.store.slots[key]?) := by
  have hsound := h.sound
  refine ⟨hsound.fresh, hsound.content, rfl, fun position => ?_, ?_⟩
  · unfold drop
    split <;> rfl
  · intro position take drained htake after key removed
    have hafter : after.slots[key]? = if take.covers key then none else history.store.slots[key]? := by
      have hcommit : after = history.store.removeTaken take.receipt := by
        show (history.commit f position drained).store = _
        rw [commit, htake]
        rfl
      rw [hcommit, hsound.slots_commit (List.mem_of_getElem? htake)]
    have hremoved : removed ↔ key ∈ history.store.slots ∧ take.covers key = true := by
      rw [OpenTake.covers_iff]
    rw [hremoved]
    simp only [Std.TreeMap.mem_iff_isSome_getElem?, hafter]
    cases take.covers key <;> cases history.store.slots[key]? <;> simp

/-- Two takes see the same entry. The first is committed and the key is written again, so the second removes
nothing. -/
theorem commit_keeps_rewritten_key :
    let f : MergeFunction Nat := .ignoringTime max
    let history : MapHistory Nat Nat :=
      ((((start.put f ⟨1, 0, 5⟩).take f).take f).commit f 0 true).put f ⟨1, 0, 3⟩
    Reached f history ∧ (history.takes[0]?).isSome = true ∧
      (history.commit f 0 true).store.slots[1]? = some ⟨2, ⟨1, 0, 3⟩⟩ := by
  intro f history
  have hreached : Reached f history := ((((Reached.start.put _).take).take).commit 0 true).put _
  have hsome : (history.takes[0]?).isSome = true := by decide +kernel
  refine ⟨hreached, hsome, ?_⟩
  obtain ⟨take, htake⟩ := Option.isSome_iff_exists.mp hsome
  obtain ⟨-, -, -, -, hcommit⟩ := commit_keeps_writes hreached
  have hwritten : ⟨1, 0, 3⟩ ∈ take.since := by
    have hsince : (history.takes[0]?).map OpenTake.since = some [⟨1, 0, 3⟩] := by decide +kernel
    rw [htake, Option.map_some, Option.some.injEq] at hsince
    rw [hsince]
    exact List.mem_singleton_self _
  rw [(hcommit 0 take true htake 1).2 fun hremoved => hremoved.2.2 _ hwritten rfl]
  decide +kernel

end MapHistory

end ReplicatedStore
