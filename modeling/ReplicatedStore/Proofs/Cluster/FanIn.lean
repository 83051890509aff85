import ReplicatedStore.Cluster.Merge
import ReplicatedStore.Proofs.Entry.Join
import ReplicatedStore.Proofs.Store.Feed
import ReplicatedStore.Proofs.Store.Map
/-!
# What a merge yields

A merge of ascending feeds yields for each key what the feeds deliver for it, joined in their order. Each
step leaves a merge of what the feeds still deliver, so the lists merged, and the partitions that the
merge will have to do without, are known from the start.
-/

namespace ReplicatedStore

variable {κ σ : Type}

namespace MergeSource

def entries (interruption : Nat → Interruption) (source : MergeSource κ σ) : List (Entry κ σ) :=
  source.head.toList ++ (source.feed.items (interruption source.index)).delivered

def failing (interruption : Nat → Interruption) (source : MergeSource κ σ) : Bool :=
  (source.feed.items (interruption source.index)).fails

def isOver (source : MergeSource κ σ) : Prop := source.head = none ∧ source.feed.rest = none

variable {interruption : Nat → Interruption} {source : MergeSource κ σ}

theorem entries_of_isOver (h : source.isOver) : source.entries interruption = [] := by
  obtain ⟨hhead, hrest⟩ := h
  simp only [entries, hhead, OpenFeed.items, hrest, Option.toList_none, Option.elim_none,
    Feed.delivered, List.append_nil]

theorem failing_of_isOver (h : source.isOver) : source.failing interruption = false := by
  simp [failing, OpenFeed.items, h.2, Feed.fails]

theorem advance_of_isOver (h : source.isOver) (interruption : Interruption) :
    source.advance interruption = (.same, source) := by
  obtain ⟨index, head, rest, polled⟩ := source
  obtain ⟨rfl, rfl⟩ := h
  rfl

structure Advanced (interruption : Nat → Interruption) (source : MergeSource κ σ)
    (news : SourceNews) (after : MergeSource κ σ) : Prop where
  index : after.index = source.index
  entries : after.entries interruption = source.entries interruption
  spent : after.head = none → after.isOver
  failing : source.failing interruption = true ↔ news = .failed ∨ after.failing interruption = true

theorem advance_advanced (interruption : Nat → Interruption) (source : MergeSource κ σ) :
    Advanced interruption source (source.advance (interruption source.index)).1
      (source.advance (interruption source.index)).2 := by
  obtain ⟨index, head, feed⟩ := source
  cases head with
  | some entry => exact ⟨rfl, rfl, fun h => by contradiction, by simp [advance]⟩
  | none =>
    have hpoll := OpenFeed.poll_polling (interruption index) feed
    unfold advance
    dsimp only
    generalize hresult : feed.poll (interruption index) = result at hpoll
    cases hpoll with
    | closed h => exact ⟨rfl, rfl, fun _ => ⟨rfl, h⟩, by simp⟩
    | failed h =>
      refine ⟨rfl, ?_, fun _ => ⟨rfl, rfl⟩, ?_⟩
      · simp [MergeSource.entries, h, Feed.delivered]
      · simp [MergeSource.failing, h, Feed.fails, Except.isOk, Except.toBool]
    | ended h =>
      refine ⟨rfl, ?_, fun _ => ⟨rfl, rfl⟩, ?_⟩
      · simp [MergeSource.entries, h]
      · simp [MergeSource.failing, h]
    | entry h =>
      refine ⟨rfl, ?_, fun h => by contradiction, ?_⟩
      · simp [MergeSource.entries, h, Feed.delivered]
      · simp [MergeSource.failing, h, Feed.fails, Except.isOk, Except.toBool]

end MergeSource

namespace Merge

/-- The partitions that a merge will have done without in the end. -/
def Lost (interruption : Nat → Interruption) (merge : Merge κ σ) (index : Nat) : Prop :=
  index ∈ merge.unhealthy ∨
    ∃ source ∈ merge.sources, source.index = index ∧ source.failing interruption = true

structure Filled (interruption : Nat → Interruption) (merge filled : Merge κ σ) : Prop where
  entries : filled.sources.map (MergeSource.entries interruption) =
    merge.sources.map (MergeSource.entries interruption)
  spent : ∀ source ∈ filled.sources, source.head = none → source.isOver
  lost : ∀ index, filled.Lost interruption index ↔ merge.Lost interruption index

variable {interruption : Nat → Interruption} {merge : Merge κ σ}

theorem mem_indicesOf {news : SourceNews} {index : Nat} :
    index ∈ indicesOf news
        (merge.sources.map fun source => source.advance (interruption source.index)) ↔
      ∃ source ∈ merge.sources, source.index = index ∧
        (source.advance (interruption source.index)).1 = news := by
  simp only [indicesOf, List.mem_map, List.mem_filter, beq_iff_eq]
  constructor
  · rintro ⟨_, ⟨⟨source, hsource, rfl⟩, hnews⟩, rfl⟩
    exact ⟨source, hsource, (MergeSource.advance_advanced interruption source).index.symm, hnews⟩
  · rintro ⟨source, hsource, rfl, hnews⟩
    exact ⟨_, ⟨⟨source, hsource, rfl⟩, hnews⟩, (MergeSource.advance_advanced interruption source).index⟩

theorem fill_filled (interruption : Nat → Interruption) (merge : Merge κ σ) :
    Filled interruption merge (merge.fill interruption).2 where
  entries := by
    simp only [fill, List.map_map]
    refine List.map_congr_left fun source _ => ?_
    exact (MergeSource.advance_advanced interruption source).entries
  spent source hmem hhead := by
    simp only [fill, List.map_map, List.mem_map] at hmem
    obtain ⟨before, -, rfl⟩ := hmem
    exact (MergeSource.advance_advanced interruption before).spent hhead
  lost index := by
    have hadvanced := fun source : MergeSource κ σ => MergeSource.advance_advanced interruption source
    simp only [Lost, fill, IndexSet.mem_insertAll, mem_indicesOf, List.map_map, List.mem_map]
    constructor
    · rintro ((⟨source, hsource, rfl, hnews⟩ | hold) | ⟨_, ⟨source, hsource, rfl⟩, rfl, hfailing⟩)
      · exact .inr ⟨source, hsource, rfl, (hadvanced source).failing.mpr (.inl hnews)⟩
      · exact .inl hold
      · exact .inr ⟨source, hsource, (hadvanced source).index.symm,
          (hadvanced source).failing.mpr (.inr hfailing)⟩
    · rintro (hold | ⟨source, hsource, rfl, hfailing⟩)
      · exact .inl (.inr hold)
      · rcases (hadvanced source).failing.mp hfailing with hnews | hlater
        · exact .inl (.inl ⟨source, hsource, rfl, hnews⟩)
        · exact .inr ⟨_, ⟨source, hsource, rfl⟩, (hadvanced source).index, hlater⟩

private theorem mem_unhealthy_fill {index : Nat} : index ∈ (merge.fill interruption).2.unhealthy ↔
    index ∈ (merge.fill interruption).1 ∨ index ∈ merge.unhealthy := by
  rw [fill, IndexSet.mem_insertAll, Std.TreeSet.mem_ofList, List.contains_iff_mem]

structure Recorded (valid : IndexSet → Bool) (merge : Merge κ σ) (step : MergeStep κ σ) (failures : IndexSet)
    (after : Merge κ σ) : Prop where
  sources : after.sources.map MergeSource.index = merge.sources.map MergeSource.index
  asked : ∀ index ∈ failures, index ∈ merge.sources.map MergeSource.index
  unhealthy : ∀ index, index ∈ after.unhealthy ↔ index ∈ failures ∨ index ∈ merge.unhealthy
  invalid : step = .invalid → valid after.unhealthy = false

private theorem fill_recorded (interruption : Nat → Interruption) (merge : Merge κ σ) :
    (merge.fill interruption).2.sources.map MergeSource.index = merge.sources.map MergeSource.index ∧
      (∀ index ∈ (merge.fill interruption).1, index ∈ merge.sources.map MergeSource.index) ∧
      ∀ index, index ∈ (merge.fill interruption).2.unhealthy ↔
        index ∈ (merge.fill interruption).1 ∨ index ∈ merge.unhealthy := by
  refine ⟨?_, ?_, fun _ => mem_unhealthy_fill⟩
  · simp only [fill, List.map_map]
    refine List.map_congr_left fun source _ => ?_
    exact (MergeSource.advance_advanced interruption source).index
  · intro index hmem
    rw [fill, Std.TreeSet.mem_ofList, List.contains_iff_mem, mem_indicesOf] at hmem
    obtain ⟨source, hsource, rfl, -⟩ := hmem
    exact List.mem_map_of_mem hsource

theorem next_recorded [Ord κ] (f : MergeFunction σ) (valid : IndexSet → Bool) (interruption : Nat → Interruption)
    (merge : Merge κ σ) :
    Recorded valid merge (merge.next f valid interruption).1 (merge.next f valid interruption).2.1
      (merge.next f valid interruption).2.2 := by
  obtain ⟨hsources, hfailures, hunhealthy⟩ := fill_recorded interruption merge
  unfold next
  dsimp only
  split
  next =>
    unfold mergeHeads
    split
    next => exact ⟨hsources, hfailures, hunhealthy, by simp⟩
    next key _ =>
      split
      next => exact ⟨hsources, hfailures, hunhealthy, by simp⟩
      next =>
        refine ⟨?_, hfailures, hunhealthy, by simp⟩
        rw [← hsources, List.map_map]
        refine List.map_congr_left fun source _ => ?_
        show (source.passed key).index = source.index
        unfold MergeSource.passed
        split <;> rfl
  next hinvalid =>
    refine ⟨?_, hfailures, hunhealthy, fun _ => ?_⟩
    · rw [← hsources, abandoned, List.map_map]
      rfl
    · rw [Bool.or_eq_true, not_or, Bool.not_eq_true, Bool.not_eq_true] at hinvalid
      exact hinvalid.2

/-- Lists of entries merged into one: it is ascending, and for each key it has what the lists have for the
key, joined in their order. -/
structure FanIn [Ord κ] (f : MergeFunction σ) (lists : List (List (Entry κ σ)))
    (merged : List (Entry κ σ)) : Prop where
  ascending : Entry.Ascending merged
  lookup : ∀ key, Entry.lookup? key merged = Entry.joined f (lists.filterMap (Entry.lookup? key))

section Least

variable [Ord κ]

private theorem foldl_lesser_mem (key : κ) (keys : List κ) : keys.foldl lesser key ∈ key :: keys := by
  induction keys generalizing key with
  | nil => exact List.mem_cons_self ..
  | cons first rest ih =>
    rcases List.mem_cons.mp (ih (lesser key first)) with heq | hmem
    · rw [List.foldl_cons, heq]
      unfold lesser
      split <;> simp
    · exact List.mem_cons_of_mem _ (List.mem_cons_of_mem _ hmem)

theorem leastKey?_eq_none (h : merge.leastKey? = none) :
    ∀ source ∈ merge.sources, source.head = none := by
  unfold leastKey? at h
  split at h
  next hnil =>
    intro source hmem
    have hkey := List.filterMap_eq_nil_iff.mp hnil source hmem
    exact Option.map_eq_none_iff.mp hkey
  next => contradiction

variable [Std.TransOrd κ]

private theorem isLE_foldl_lesser (key : κ) (keys : List κ) :
    (compare (keys.foldl lesser key) key).isLE = true ∧
      ∀ k ∈ keys, (compare (keys.foldl lesser key) k).isLE = true := by
  induction keys generalizing key with
  | nil => exact ⟨Std.ReflOrd.isLE_rfl, by simp⟩
  | cons first rest ih =>
    obtain ⟨hlesser, hrest⟩ := ih (lesser key first)
    have hbounds : (compare (lesser key first) key).isLE = true ∧
        (compare (lesser key first) first).isLE = true := by
      unfold lesser
      by_cases hlt : compare first key = .lt
      · simp [hlt]
      · have hle : (compare key first).isLE = true := by
          rw [Std.OrientedOrd.eq_swap]
          cases hcompare : compare first key <;> simp_all
        simp [hlt, hle]
    refine ⟨Std.TransOrd.isLE_trans hlesser hbounds.1, fun k hk => ?_⟩
    rcases List.mem_cons.mp hk with rfl | hmem
    · exact Std.TransOrd.isLE_trans hlesser hbounds.2
    · exact hrest k hmem

theorem leastKey?_eq_some {key : κ} (h : merge.leastKey? = some key) :
    (∃ source ∈ merge.sources, source.hasHead key = true) ∧
      ∀ source ∈ merge.sources, ∀ entry, source.head = some entry →
        (compare key entry.key).isLE = true := by
  unfold leastKey? at h
  split at h
  next => contradiction
  next first rest hkeys =>
    cases h
    have hmem := foldl_lesser_mem first rest
    obtain ⟨hfirst, hrest⟩ := isLE_foldl_lesser first rest
    rw [← hkeys] at hmem
    obtain ⟨source, hsource, hkey⟩ := List.mem_filterMap.mp hmem
    obtain ⟨entry, hhead, hkey⟩ := Option.map_eq_some_iff.mp hkey
    refine ⟨⟨source, hsource, ?_⟩, fun other hother head hhead => ?_⟩
    · rw [MergeSource.hasHead, hhead, Option.any_some, hkey, beq_iff_eq]
      exact Std.ReflOrd.compare_self
    · have hk : head.key ∈ first :: rest := by
        rw [← hkeys]
        exact List.mem_filterMap.mpr ⟨other, hother, by rw [hhead]; rfl⟩
      rcases List.mem_cons.mp hk with heq | htail
      · rw [heq]
        exact hfirst
      · exact hrest _ htail

end Least

variable [Ord κ] [Std.LawfulEqOrd κ]

private theorem filter_hasKey_flatten {lists : List (List (Entry κ σ))}
    (h : ∀ list ∈ lists, Entry.Ascending list) (key : κ) :
    lists.flatten.filter (Entry.hasKey key) = lists.filterMap (Entry.lookup? key) := by
  induction lists with
  | nil => rfl
  | cons first rest ih =>
    have hfirst := (h first (List.mem_cons_self ..)).filter_hasKey key
    have hrest := ih fun list hmem => h list (List.mem_cons_of_mem _ hmem)
    rw [List.flatten_cons, List.filter_append, hfirst, hrest, List.filterMap_cons]
    cases Entry.lookup? key first <;> rfl

theorem FanIn.joins {f : MergeFunction σ} {lists : List (List (Entry κ σ))} {merged : List (Entry κ σ)}
    (h : FanIn f lists merged) (hlists : ∀ list ∈ lists, Entry.Ascending list) :
    Entry.Joins f lists.flatten merged := by
  refine ⟨h.ascending, fun key => ?_⟩
  rw [h.lookup, filter_hasKey_flatten hlists]

theorem FanIn.eq_nil {f : MergeFunction σ} {lists : List (List (Entry κ σ))}
    {merged : List (Entry κ σ)} (h : FanIn f lists merged) (hempty : ∀ list ∈ lists, list = []) :
    merged = [] := by
  cases merged with
  | nil => rfl
  | cons first rest =>
    have hnone : lists.filterMap (Entry.lookup? first.key) = [] := by
      refine List.filterMap_eq_nil_iff.mpr fun list hmem => ?_
      rw [hempty list hmem, Entry.lookup?_nil]
    have hlookup := h.lookup first.key
    rw [Entry.lookup?_cons_self, hnone] at hlookup
    contradiction

/-- A copy of a key is absorbed by what is merged for the key, which is the least that absorbs all copies. -/
theorem FanIn.absorbs {f : MergeFunction σ} (hf : f.Lawful) {lists : List (List (Entry κ σ))}
    {merged : List (Entry κ σ)} (h : FanIn f lists merged) {key : κ} {list : List (Entry κ σ)}
    (hmem : list ∈ lists) {copy : Entry κ σ} (hcopy : Entry.lookup? key list = some copy) :
    ∃ found, Entry.lookup? key merged = some found ∧ found.Absorbs f copy ∧
      ∀ upper : Entry κ σ, (∀ other ∈ lists, ∀ entry, Entry.lookup? key other = some entry →
        upper.Absorbs f entry) → upper.Absorbs f found := by
  have hcopies : copy ∈ lists.filterMap (Entry.lookup? key) := List.mem_filterMap.mpr ⟨list, hmem, hcopy⟩
  have hkeys : ∀ entry ∈ lists.filterMap (Entry.lookup? key), entry.key = key := by
    intro entry hentry
    obtain ⟨other, -, hother⟩ := List.mem_filterMap.mp hentry
    exact (Entry.lookup?_eq_some hother).1
  cases hjoin : Entry.joined f (lists.filterMap (Entry.lookup? key)) with
  | none =>
    cases hlist : lists.filterMap (Entry.lookup? key) with
    | nil =>
      rw [hlist] at hcopies
      contradiction
    | cons first rest =>
      rw [hlist] at hjoin
      contradiction
  | some found =>
    obtain ⟨habsorbs, hleast⟩ := Entry.absorbs_joined hf.semilattice hkeys hjoin
    refine ⟨found, (h.lookup key).trans hjoin, habsorbs copy hcopies, fun upper hupper => ?_⟩
    refine hleast upper fun entry hentry => ?_
    obtain ⟨other, hother, hlookup⟩ := List.mem_filterMap.mp hentry
    exact hupper other hother entry hlookup

variable [Std.TransOrd κ]

/-- Ascending lists can be merged: one store that all of them are put into holds the result. -/
theorem FanIn.ofAscending (f : MergeFunction σ) {lists : List (List (Entry κ σ))}
    (h : ∀ list ∈ lists, Entry.Ascending list) :
    FanIn f lists (MapStore.putAll f .empty lists.flatten).entries := by
  have hjoins := MapStore.joins_putAll_empty f lists.flatten
  refine ⟨hjoins.ascending, fun key => ?_⟩
  rw [hjoins.lookup, filter_hasKey_flatten h]

end Merge

namespace MergeSource

variable [Ord κ] {interruption : Nat → Interruption} {source : MergeSource κ σ} {key : κ}

private theorem passed_of_hasHead_eq_false (h : source.hasHead key = false) :
    source.passed key = source := by
  rw [passed, h, if_neg Bool.false_ne_true]

variable [Std.LawfulEqOrd κ]

private theorem entries_eq_cons_passed (interruption : Nat → Interruption)
    (h : source.hasHead key = true) :
    ∃ entry, source.head = some entry ∧ entry.key = key ∧
      source.entries interruption = entry :: (source.passed key).entries interruption := by
  obtain ⟨index, head, feed⟩ := source
  cases head with
  | none => contradiction
  | some entry =>
    refine ⟨entry, rfl, Entry.hasKey_iff.mp h, ?_⟩
    rw [passed, h, if_pos rfl]
    rfl

private theorem ascending_passed (h : Entry.Ascending (source.entries interruption)) :
    Entry.Ascending ((source.passed key).entries interruption) := by
  cases hhead : source.hasHead key with
  | false => rwa [passed_of_hasHead_eq_false hhead]
  | true =>
    obtain ⟨entry, -, -, hentries⟩ := entries_eq_cons_passed interruption hhead
    rw [hentries] at h
    exact h.tail

private theorem lookup?_passed_of_ne {other : κ} (hne : key ≠ other) :
    Entry.lookup? other ((source.passed key).entries interruption) =
      Entry.lookup? other (source.entries interruption) := by
  cases hhead : source.hasHead key with
  | false => rw [passed_of_hasHead_eq_false hhead]
  | true =>
    obtain ⟨entry, -, rfl, hentries⟩ := entries_eq_cons_passed interruption hhead
    rw [hentries, Entry.lookup?_cons_of_ne hne]

variable [Std.TransOrd κ]

private theorem lookup?_least (hascending : Entry.Ascending (source.entries interruption))
    (hover : source.head = none → source.isOver)
    (hleast : ∀ entry, source.head = some entry → (compare key entry.key).isLE = true) :
    Entry.lookup? key (source.entries interruption) =
      if source.hasHead key then source.head else none := by
  cases hhead : source.hasHead key with
  | true =>
    obtain ⟨entry, hentry, rfl, hentries⟩ := entries_eq_cons_passed interruption hhead
    rw [hentries, Entry.lookup?_cons_self, hentry, if_pos rfl]
  | false =>
    rw [if_neg Bool.false_ne_true]
    refine Entry.lookup?_eq_none.mpr ?_
    rintro entry hmem rfl
    cases hsource : source.head with
    | none =>
      rw [entries_of_isOver (hover hsource)] at hmem
      contradiction
    | some head =>
      have hfirst := hleast head hsource
      have hne : ¬head.key = entry.key := by
        intro heq
        have hhas : source.hasHead entry.key = true := by
          rw [hasHead, hsource]
          exact Entry.hasKey_iff.mpr heq
        rw [hhead] at hhas
        contradiction
      rw [entries, hsource] at hmem hascending
      rcases List.mem_cons.mp hmem with rfl | hrest
      · exact hne rfl
      · have hlt := (List.pairwise_cons.mp hascending).1 entry hrest
        exact Std.OrientedCmp.not_isLE_of_lt hlt hfirst

private theorem lookup?_passed_self (hascending : Entry.Ascending (source.entries interruption))
    (hover : source.head = none → source.isOver)
    (hleast : ∀ entry, source.head = some entry → (compare key entry.key).isLE = true) :
    Entry.lookup? key ((source.passed key).entries interruption) = none := by
  cases hhead : source.hasHead key with
  | false =>
    rw [passed_of_hasHead_eq_false hhead, lookup?_least hascending hover hleast, hhead,
      if_neg Bool.false_ne_true]
  | true =>
    obtain ⟨entry, -, rfl, hentries⟩ := entries_eq_cons_passed interruption hhead
    rw [hentries] at hascending
    exact hascending.lookup?_tail

end MergeSource

namespace Merge

variable [Ord κ]

structure Delivers (f : MergeFunction σ) (interruption : Nat → Interruption) (merge : Merge κ σ)
    (merged : List (Entry κ σ)) : Prop where
  ascending : ∀ list ∈ merge.sources.map (MergeSource.entries interruption), Entry.Ascending list
  fanIn : FanIn f (merge.sources.map (MergeSource.entries interruption)) merged

variable {f : MergeFunction σ} {interruption : Nat → Interruption} {merge filled : Merge κ σ}
  {merged : List (Entry κ σ)}

private def passed (key : κ) (merge : Merge κ σ) : Merge κ σ :=
  { merge with sources := merge.sources.map (MergeSource.passed key) }

private theorem lost_passed (key : κ) (index : Nat) :
    (merge.passed key).Lost interruption index ↔ merge.Lost interruption index := by
  have hpassed : ∀ source : MergeSource κ σ, (source.passed key).index = source.index ∧
      (source.passed key).failing interruption = source.failing interruption := by
    intro source
    unfold MergeSource.passed
    split <;> exact ⟨rfl, rfl⟩
  simp only [Lost, passed, List.mem_map, exists_exists_and_eq_and, hpassed]

private theorem Delivers.of_filled (h : Delivers f interruption merge merged)
    (hfilled : Filled interruption merge filled) : Delivers f interruption filled merged := by
  obtain ⟨hascending, hfanIn⟩ := h
  rw [← hfilled.entries] at hascending hfanIn
  exact ⟨hascending, hfanIn⟩

inductive Stepped (f : MergeFunction σ) (valid : IndexSet → Bool) (interruption : Nat → Interruption)
    (merge : Merge κ σ) : List (Entry κ σ) → MergeStep κ σ × IndexSet × Merge κ σ → Prop
  | entry {first : Entry κ σ} {rest : List (Entry κ σ)} {failures : IndexSet} {after : Merge κ σ}
    (hafter : after.Delivers f interruption rest) (hvalid : valid after.unhealthy = true)
    (hlost : ∀ index, after.Lost interruption index ↔ merge.Lost interruption index) :
    Stepped f valid interruption merge (first :: rest) (.entry first, failures, after)
  | ended {failures : IndexSet} {after : Merge κ σ} (hover : ∀ source ∈ after.sources, source.isOver)
    (hvalid : valid after.unhealthy = true)
    (hlost : ∀ index, merge.Lost interruption index → index ∈ after.unhealthy) :
    Stepped f valid interruption merge [] (.ended, failures, after)
  | invalid {merged : List (Entry κ σ)} {failures : IndexSet} {after : Merge κ σ}
    (hover : ∀ source ∈ after.sources, source.isOver) (hinvalid : valid after.unhealthy = false)
    (hlost : ∀ index ∈ after.unhealthy, merge.Lost interruption index) :
    Stepped f valid interruption merge merged (.invalid, failures, after)

theorem next_of_isOver (f : MergeFunction σ) (valid : IndexSet → Bool)
    (interruption : Nat → Interruption) (hover : ∀ source ∈ merge.sources, source.isOver) :
    (merge.next f valid interruption).1 = .ended ∧
      ∀ source ∈ (merge.next f valid interruption).2.2.sources, source.isOver := by
  have hadvanced : merge.sources.map (fun source => source.advance (interruption source.index)) =
      merge.sources.map (fun source => (SourceNews.same, source)) :=
    List.map_congr_left fun source hmem => MergeSource.advance_of_isOver (hover source hmem) _
  have hfailures : indicesOf .failed (merge.sources.map fun source => (SourceNews.same, source)) = [] := by
    simp [indicesOf]
  have hnone : (merge.fill interruption).1.isEmpty = true := by
    simp only [fill, hadvanced, hfailures]
    rfl
  have hsame : (merge.fill interruption).2.sources = merge.sources := by
    simp only [fill, hadvanced, List.map_map, Function.comp_def, List.map_id']
  unfold next
  generalize merge.fill interruption = result at hnone hsame
  obtain ⟨failures, filled⟩ := result
  dsimp only at hnone hsame ⊢
  rw [← hsame] at hover
  have hkeys : (filled.sources.filterMap fun source => source.head.map Entry.key) = [] := by
    refine List.filterMap_eq_nil_iff.mpr fun source hmem => ?_
    rw [(hover source hmem).1, Option.map_none]
  have hheads : filled.mergeHeads f = (.ended, filled) := by
    simp only [mergeHeads, leastKey?, hkeys]
  rw [hnone, Bool.true_or, if_pos rfl, hheads]
  exact ⟨rfl, hover⟩

variable [Std.LawfulEqOrd κ]

private theorem fanIn_passed {key : κ} {first : Entry κ σ} {rest : List (Entry κ σ)}
    (h : Delivers f interruption merge (first :: rest)) (hfirst : first.key = key)
    (hnone : ∀ source ∈ merge.sources,
      Entry.lookup? key ((source.passed key).entries interruption) = none) :
    Delivers f interruption (merge.passed key) rest := by
  refine ⟨?_, h.fanIn.ascending.tail, fun other => ?_⟩
  · intro list hmem
    simp only [passed, List.map_map, List.mem_map] at hmem
    obtain ⟨source, hsource, rfl⟩ := hmem
    exact MergeSource.ascending_passed (h.ascending _ (List.mem_map_of_mem hsource))
  · simp only [passed, List.map_map, List.filterMap_map]
    by_cases hother : key = other
    · subst hother
      have hcopies : merge.sources.filterMap
          (Entry.lookup? key ∘ MergeSource.entries interruption ∘ MergeSource.passed key) = [] :=
        List.filterMap_eq_nil_iff.mpr hnone
      rw [hcopies, ← hfirst]
      exact h.fanIn.ascending.lookup?_tail
    · have hsame : merge.sources.filterMap
          (Entry.lookup? other ∘ MergeSource.entries interruption ∘ MergeSource.passed key) =
          merge.sources.filterMap (Entry.lookup? other ∘ MergeSource.entries interruption) :=
        List.filterMap_congr fun source _ => MergeSource.lookup?_passed_of_ne hother
      have hlookup := h.fanIn.lookup other
      rw [Entry.lookup?_cons_of_ne (hfirst ▸ hother), List.filterMap_map] at hlookup
      rw [hsame, hlookup]

variable [Std.TransOrd κ]

section Heads

variable {key : κ} (h : Delivers f interruption merge merged)
  (hover : ∀ source ∈ merge.sources, source.head = none → source.isOver)
  (hkey : merge.leastKey? = some key)
include h hover hkey

private theorem lookup?_of_isLE {k : κ} (hk : (compare k key).isLE = true) :
    ∀ source ∈ merge.sources, Entry.lookup? k (source.entries interruption) =
      if source.hasHead k then source.head else none := by
  intro source hmem
  obtain ⟨-, hleast⟩ := leastKey?_eq_some hkey
  refine MergeSource.lookup?_least (h.ascending _ (List.mem_map_of_mem hmem)) (hover source hmem) ?_
  exact fun entry hentry => Std.TransOrd.isLE_trans hk (hleast source hmem entry hentry)

private theorem lookup?_of_lt {k : κ} (hlt : compare k key = .lt) : Entry.lookup? k merged = none := by
  have hle : (compare k key).isLE = true := by
    rw [hlt]
    rfl
  have hnone : (merge.sources.map (MergeSource.entries interruption)).filterMap (Entry.lookup? k) = [] := by
    rw [List.filterMap_map]
    refine List.filterMap_eq_nil_iff.mpr fun source hsource => ?_
    rw [Function.comp_apply, lookup?_of_isLE h hover hkey hle source hsource, if_neg]
    intro hhas
    obtain ⟨entry, hhead, heq, -⟩ := MergeSource.entries_eq_cons_passed interruption hhas
    have hleast := (leastKey?_eq_some hkey).2 source hsource entry hhead
    rw [heq] at hleast
    exact Std.OrientedCmp.not_isLE_of_lt hlt hleast
  rw [h.fanIn.lookup, hnone]
  rfl

private theorem lookup?_leastKey : Entry.lookup? key merged =
    Entry.joined f ((merge.sources.filter (MergeSource.hasHead key)).filterMap MergeSource.head) := by
  rw [h.fanIn.lookup, List.filterMap_map, List.filterMap_filter]
  exact congrArg (Entry.joined f)
    (List.filterMap_congr (lookup?_of_isLE h hover hkey Std.ReflOrd.isLE_rfl))

private theorem exists_first : ∃ head tail rest,
    (merge.sources.filter (MergeSource.hasHead key)).filterMap MergeSource.head = head :: tail ∧
      merged = Entry.mergeAll f head tail :: rest ∧ (Entry.mergeAll f head tail).key = key := by
  obtain ⟨⟨source, hsource, hhas⟩, -⟩ := leastKey?_eq_some hkey
  have hfound := lookup?_leastKey h hover hkey
  cases hheads : (merge.sources.filter (MergeSource.hasHead key)).filterMap MergeSource.head with
  | nil =>
    have hhead := List.filterMap_eq_nil_iff.mp hheads source (List.mem_filter.mpr ⟨hsource, hhas⟩)
    rw [MergeSource.hasHead, hhead] at hhas
    contradiction
  | cons head tail =>
    rw [hheads] at hfound
    obtain ⟨hfirst, hmem⟩ := Entry.lookup?_eq_some hfound
    cases merged with
    | nil => contradiction
    | cons first rest =>
      rcases List.mem_cons.mp hmem with rfl | hrest
      · exact ⟨head, tail, rest, rfl, rfl, hfirst⟩
      · have hlt := (List.pairwise_cons.mp h.fanIn.ascending).1 _ hrest
        rw [hfirst] at hlt
        have hnone := lookup?_of_lt h hover hkey hlt
        rw [Entry.lookup?_cons_self] at hnone
        contradiction

end Heads

/-- Merging the filled heads yields the first entry, and leaves a merge of the rest. -/
private theorem mergeHeads_of_delivers (h : Delivers f interruption merge merged)
    (hover : ∀ source ∈ merge.sources, source.head = none → source.isOver) :
    (merged = [] ∧ merge.mergeHeads f = (.ended, merge) ∧ ∀ source ∈ merge.sources, source.isOver) ∨
      ∃ key first rest, merged = first :: rest ∧
        merge.mergeHeads f = (.entry first, merge.passed key) ∧
        Delivers f interruption (merge.passed key) rest := by
  cases hkey : merge.leastKey? with
  | none =>
    have hheads := leastKey?_eq_none hkey
    have hall : ∀ source ∈ merge.sources, source.isOver := fun source hmem =>
      hover source hmem (hheads source hmem)
    refine .inl ⟨h.fanIn.eq_nil ?_, by rw [mergeHeads, hkey], hall⟩
    intro list hmem
    obtain ⟨source, hsource, rfl⟩ := List.mem_map.mp hmem
    exact MergeSource.entries_of_isOver (hall source hsource)
  | some key =>
    obtain ⟨head, tail, rest, hheads, rfl, hfirst⟩ := exists_first h hover hkey
    refine .inr ⟨key, _, rest, rfl, ?_, ?_⟩
    · simp only [mergeHeads, hkey, hheads, passed]
    · refine fanIn_passed h hfirst fun source hmem => ?_
      exact MergeSource.lookup?_passed_self (h.ascending _ (List.mem_map_of_mem hmem))
        (hover source hmem) ((leastKey?_eq_some hkey).2 source hmem)

theorem next_stepped {valid : IndexSet → Bool}
    (hanti : ∀ fewer more : IndexSet, (∀ index ∈ fewer, index ∈ more) → valid more = true →
      valid fewer = true)
    (h : Delivers f interruption merge merged) (hvalid : valid merge.unhealthy = true) :
    Stepped f valid interruption merge merged (merge.next f valid interruption) := by
  have hfilled := fill_filled interruption merge
  have hunhealthy : ∀ index, index ∈ (merge.fill interruption).2.unhealthy →
      index ∈ (merge.fill interruption).1 ∨ index ∈ merge.unhealthy := fun index => mem_unhealthy_fill.mp
  unfold next
  generalize merge.fill interruption = result at hfilled hunhealthy
  obtain ⟨failures, filled⟩ := result
  dsimp only at hfilled hunhealthy ⊢
  split
  next hgo =>
    have hstill : valid filled.unhealthy = true := by
      rcases Bool.or_eq_true_iff.mp hgo with hnone | hstill
      · refine hanti _ _ (fun index hmem => ?_) hvalid
        exact (hunhealthy index hmem).resolve_left (Std.TreeSet.not_mem_of_isEmpty hnone)
      · exact hstill
    rcases mergeHeads_of_delivers (h.of_filled hfilled) hfilled.spent with
      ⟨rfl, hheads, hover⟩ | ⟨key, first, rest, rfl, hheads, hrest⟩
    · rw [hheads]
      refine .ended hover hstill fun index hlost => ?_
      rcases (hfilled.lost index).mpr hlost with hmem | ⟨source, hsource, -, hfailing⟩
      · exact hmem
      · rw [MergeSource.failing_of_isOver (hover source hsource)] at hfailing
        contradiction
    · rw [hheads]
      exact .entry hrest hstill fun index => (lost_passed key index).trans (hfilled.lost index)
  next hstop =>
    have hinvalid : valid filled.unhealthy = false := by
      rw [Bool.or_eq_true_iff, not_or] at hstop
      exact Bool.eq_false_iff.mpr hstop.2
    refine .invalid ?_ hinvalid fun index hmem => (hfilled.lost index).mp (.inl hmem)
    intro source hmem
    obtain ⟨before, -, rfl⟩ := List.mem_map.mp hmem
    exact ⟨rfl, rfl⟩

end Merge

end ReplicatedStore
