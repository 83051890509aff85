import ReplicatedStore.Proofs.Store.Map
/-!
# Takes from a store in memory

Each write has a number of its own, so a slot that has the number a take saw was not written since. The
commit of a take therefore removes what the take saw and nobody wrote since, whatever else is taken and
committed in between.
-/

namespace ReplicatedStore.MapStore

variable {κ σ : Type} [Ord κ]

structure Fresh (store : MapStore κ σ) : Prop where
  bounded : ∀ (key : κ) (slot : Slot κ σ), store.slots[key]? = some slot → slot.version ≤ store.writes
  distinct : ∀ (first second : κ) (slot other : Slot κ σ), store.slots[first]? = some slot →
    store.slots[second]? = some other → slot.version = other.version → first = second

inductive Changed (f : MergeFunction σ) (before : MapStore κ σ) :
    List (Entry κ σ) → MapStore κ σ → Prop
  | refl : Changed f before [] before
  | put {written : List (Entry κ σ)} {between : MapStore κ σ} (h : Changed f before written between)
    (arriving : Entry κ σ) : Changed f before (written ++ [arriving]) (between.put f arriving)
  | commit {written : List (Entry κ σ)} {between : MapStore κ σ} (h : Changed f before written between)
    (taken : List (κ × Nat)) : Changed f before written (between.removeTaken taken)

theorem writes_removeTaken (store : MapStore κ σ) (taken : List (κ × Nat)) :
    (store.removeTaken taken).writes = store.writes := by
  unfold removeTaken
  induction taken generalizing store with
  | nil => rfl
  | cons item rest ih =>
    rw [List.foldl_cons, ih]
    unfold removeUnchanged
    split <;> rfl

variable {f : MergeFunction σ} {store before after : MapStore κ σ} {written : List (Entry κ σ)} {key : κ}
  {slot : Slot κ σ}

theorem Changed.writes_le (h : Changed f before written after) : before.writes ≤ after.writes := by
  induction h with
  | refl => exact Nat.le_refl _
  | put _ arriving ih => exact Nat.le_succ_of_le ih
  | commit _ taken ih => rwa [writes_removeTaken]

theorem Changed.putAll {between : MapStore κ σ} (h : Changed f before written between)
    (arriving : List (Entry κ σ)) : Changed f before (written ++ arriving) (between.putAll f arriving) := by
  unfold MapStore.putAll
  induction arriving generalizing written between with
  | nil =>
    rw [List.append_nil]
    exact h
  | cons first rest ih =>
    have hrest := ih (h.put first)
    rwa [List.append_assoc] at hrest

variable [Std.TransOrd κ]

theorem fresh_empty : Fresh (empty : MapStore κ σ) := by
  constructor <;> simp [empty]

private theorem slots_put_self (hkeyed : store.Keyed) (arriving : Entry κ σ) :
    ∃ entry, (store.put f arriving).slots[arriving.key]? = some ⟨store.writes + 1, entry⟩ := by
  rw [slots_put f hkeyed, Std.TreeMap.getElem?_insert_self]
  exact ⟨_, rfl⟩

variable [Std.LawfulEqOrd κ]

private theorem slots_removeUnchanged {item : κ × Nat} :
    (store.removeUnchanged item).slots[key]? = some slot ↔
      store.slots[key]? = some slot ∧ (key, slot.version) ≠ item := by
  obtain ⟨taken, version⟩ := item
  unfold removeUnchanged
  dsimp only
  split
  next hsame =>
    rw [Std.TreeMap.getElem?_erase]
    by_cases hkey : taken = key
    · subst hkey
      rw [if_pos Std.ReflOrd.compare_self]
      constructor
      · intro h
        contradiction
      · rintro ⟨hslot, hne⟩
        rw [hslot, Option.map_some, Option.some.injEq] at hsame
        exact absurd (congrArg (Prod.mk taken) hsame) hne
    · rw [if_neg fun heq => hkey (Std.LawfulEqOrd.eq_of_compare heq)]
      exact (and_iff_left fun heq => hkey (congrArg Prod.fst heq).symm).symm
  next hother =>
    refine (and_iff_left_of_imp fun hslot heq => hother ?_).symm
    obtain ⟨rfl, rfl⟩ := Prod.mk.inj heq
    rw [hslot, Option.map_some]

theorem slots_removeTaken {taken : List (κ × Nat)} :
    (store.removeTaken taken).slots[key]? = some slot ↔
      store.slots[key]? = some slot ∧ (key, slot.version) ∉ taken := by
  unfold removeTaken
  induction taken generalizing store with
  | nil => simp
  | cons item rest ih =>
    rw [List.foldl_cons, ih, slots_removeUnchanged, List.mem_cons, not_or, and_assoc]

theorem mem_versions {version : Nat} :
    (key, version) ∈ store.versions ↔
      ∃ slot, store.slots[key]? = some slot ∧ slot.version = version := by
  unfold versions
  simp only [List.mem_map, Prod.exists, Prod.mk.injEq, Std.TreeMap.mem_toList_iff_getElem?_eq_some]
  constructor
  · rintro ⟨_, slot, hslot, rfl, rfl⟩
    exact ⟨slot, hslot, rfl⟩
  · rintro ⟨slot, hslot, rfl⟩
    exact ⟨key, slot, hslot, rfl, rfl⟩

private theorem slots_put_of_ne (hkeyed : store.Keyed) {arriving : Entry κ σ} (hne : arriving.key ≠ key) :
    (store.put f arriving).slots[key]? = store.slots[key]? := by
  rw [slots_put f hkeyed, Std.TreeMap.getElem?_insert,
    if_neg fun heq => hne (Std.LawfulEqOrd.eq_of_compare heq)]

private theorem slots_put_cases (hkeyed : store.Keyed) {arriving : Entry κ σ}
    (hslot : (store.put f arriving).slots[key]? = some slot) :
    (arriving.key = key ∧ slot.version = store.writes + 1) ∨
      (arriving.key ≠ key ∧ store.slots[key]? = some slot) := by
  by_cases hkey : arriving.key = key
  · subst hkey
    obtain ⟨entry, hnew⟩ := slots_put_self (f := f) hkeyed arriving
    rw [hnew] at hslot
    cases hslot
    exact .inl ⟨rfl, rfl⟩
  · rw [slots_put_of_ne hkeyed hkey] at hslot
    exact .inr ⟨hkey, hslot⟩

namespace Fresh

theorem put (h : store.Fresh) (hkeyed : store.Keyed) (arriving : Entry κ σ) :
    (store.put f arriving).Fresh := by
  have hwrites : (store.put f arriving).writes = store.writes + 1 := rfl
  constructor
  · intro key slot hslot
    rw [hwrites]
    rcases slots_put_cases hkeyed hslot with ⟨-, hversion⟩ | ⟨-, hold⟩
    · exact Nat.le_of_eq hversion
    · exact Nat.le_succ_of_le (h.bounded key slot hold)
  · intro first second slot other hslot hother hversion
    rcases slots_put_cases hkeyed hslot with ⟨hfirst, hnew⟩ | ⟨-, hold⟩ <;>
      rcases slots_put_cases hkeyed hother with ⟨hsecond, hnew'⟩ | ⟨-, hold'⟩
    · exact hfirst.symm.trans hsecond
    · have := h.bounded second other hold'
      omega
    · have := h.bounded first slot hold
      omega
    · exact h.distinct first second slot other hold hold' hversion

theorem removeTaken (h : store.Fresh) (taken : List (κ × Nat)) : (store.removeTaken taken).Fresh := by
  constructor
  · intro key slot hslot
    rw [writes_removeTaken]
    exact h.bounded key slot (slots_removeTaken.mp hslot).1
  · intro first second slot other hslot hother
    exact h.distinct first second slot other (slots_removeTaken.mp hslot).1 (slots_removeTaken.mp hother).1

end Fresh

namespace Changed

theorem keyed (h : Changed f before written after) (hkeyed : before.Keyed) : after.Keyed := by
  induction h with
  | refl => exact hkeyed
  | put _ arriving ih => exact ih.put f arriving
  | commit _ taken ih => exact ih.removeTaken taken

theorem fresh (h : Changed f before written after) (hkeyed : before.Keyed) (hfresh : before.Fresh) :
    after.Fresh := by
  induction h with
  | refl => exact hfresh
  | put hbefore arriving ih => exact ih.put (hbefore.keyed hkeyed) arriving
  | commit _ taken ih => exact ih.removeTaken taken

theorem slot_cases (h : Changed f before written after) (hkeyed : before.Keyed)
    (hslot : after.slots[key]? = some slot) :
    ((∃ entry ∈ written, entry.key = key) ∧ before.writes < slot.version) ∨
      ((∀ entry ∈ written, entry.key ≠ key) ∧ before.slots[key]? = some slot) := by
  induction h generalizing slot with
  | refl => exact .inr ⟨by simp, hslot⟩
  | put hbefore arriving ih =>
    rcases slots_put_cases (hbefore.keyed hkeyed) hslot with ⟨hkey, hnew⟩ | ⟨hne, hold⟩
    · refine .inl ⟨⟨arriving, by simp, hkey⟩, ?_⟩
      rw [hnew]
      exact Nat.lt_succ_of_le hbefore.writes_le
    · rcases ih hold with ⟨⟨entry, hmem, hkey⟩, hversion⟩ | ⟨hnone, hsame⟩
      · exact .inl ⟨⟨entry, List.mem_append_left _ hmem, hkey⟩, hversion⟩
      · refine .inr ⟨fun entry hmem => ?_, hsame⟩
        rcases List.mem_append.mp hmem with hearlier | hlast
        · exact hnone entry hearlier
        · rw [List.mem_singleton.mp hlast]
          exact hne
  | commit _ taken ih => exact ih (slots_removeTaken.mp hslot).1

/-- The commit of a take keeps the slots that were written since the take, and no others. -/
theorem slots_commit (h : Changed f before written after) (hkeyed : before.Keyed) (hfresh : before.Fresh) :
    (after.removeTaken before.versions).slots[key]? = some slot ↔
      after.slots[key]? = some slot ∧ ∃ entry ∈ written, entry.key = key := by
  rw [slots_removeTaken]
  refine and_congr_right fun hslot => ?_
  rcases h.slot_cases hkeyed hslot with ⟨hwritten, hversion⟩ | ⟨hnone, hsame⟩
  · -- The number of a slot written since is above all those that were taken.
    refine iff_of_true (fun hmem => ?_) hwritten
    obtain ⟨old, hold, hsame⟩ := mem_versions.mp hmem
    have := hfresh.bounded key old hold
    omega
  · refine iff_of_false (fun hnot => hnot (mem_versions.mpr ⟨slot, hsame, rfl⟩)) ?_
    rintro ⟨entry, hmem, hkey⟩
    exact hnone entry hmem hkey

theorem commit_cases (h : Changed f before written after) (hkeyed : before.Keyed) (hfresh : before.Fresh)
    (key : κ) :
    (after.removeTaken before.versions).slots[key]? = after.slots[key]? ∨
      ∃ slot, after.slots[key]? = some slot ∧ (after.removeTaken before.versions).slots[key]? = none ∧
        before.slots[key]? = some slot ∧ ∀ entry ∈ written, entry.key ≠ key := by
  have hkept : ∀ slot, (after.removeTaken before.versions).slots[key]? = some slot ↔
      after.slots[key]? = some slot ∧ ∃ entry ∈ written, entry.key = key :=
    fun slot => h.slots_commit hkeyed hfresh
  cases hslot : after.slots[key]? with
  | none =>
    refine .inl (Option.eq_none_iff_forall_ne_some.mpr fun slot hafter => ?_)
    rw [((hkept slot).mp hafter).1] at hslot
    contradiction
  | some slot =>
    rcases h.slot_cases hkeyed hslot with ⟨hwritten, -⟩ | ⟨hnone, hsame⟩
    · exact .inl ((hkept slot).mpr ⟨hslot, hwritten⟩)
    · refine .inr ⟨slot, rfl, Option.eq_none_iff_forall_ne_some.mpr fun other hafter => ?_, hsame, hnone⟩
      obtain ⟨-, entry, hmem, hkey⟩ := (hkept other).mp hafter
      exact hnone entry hmem hkey

end Changed

/-- Stores that requests make of the empty one give each write a number of its own. -/
theorem Reached.fresh (h : store.Reached f) : store.Fresh := by
  induction h with
  | empty => exact fresh_empty
  | @upload store hreached feed ih =>
    unfold MapStore.upload
    cases feed.collect with
    | ok arriving =>
      have hchanged : Changed f store ([] ++ arriving) (store.putAll f arriving) := Changed.refl.putAll arriving
      exact hchanged.fresh (hreached.keyed f) ih
    | error cause => exact ih
  | commit _ taken ih => exact ih.removeTaken taken

end ReplicatedStore.MapStore
