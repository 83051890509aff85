import ReplicatedStore.Proofs.Entry.Join
import ReplicatedStore.Proofs.Store.Map
/-!
# How a store in memory grows

A store goes on holding what was merged into it, whatever is merged later, and what it holds for a key was
made of entries of the key that were written.
-/

namespace ReplicatedStore.MapStore

variable {κ σ : Type} [Ord κ]

def Holds (f : MergeFunction σ) (store : MapStore κ σ) (entry : Entry κ σ) : Prop :=
  ∃ held, store.get? entry.key = some held ∧ held.Absorbs f entry

/-- All that the store holds was joined from some entries of the key that were written. -/
def MadeOf (f : MergeFunction σ) (written : List (Entry κ σ)) (store : MapStore κ σ) : Prop :=
  ∀ key held, store.get? key = some held →
    ∃ parts, (∀ part ∈ parts, part ∈ written ∧ part.key = key) ∧ Entry.joined f parts = some held

variable {f : MergeFunction σ} {store : MapStore κ σ}

theorem since_zero (hf : f.Lawful) (store : MapStore κ σ) : store.since f 0 = store.entries :=
  Entry.filterMap_extract_zero hf.extract_zero store.entries

theorem MadeOf.mono {written more : List (Entry κ σ)} (h : store.MadeOf f written)
    (hsub : ∀ entry ∈ written, entry ∈ more) : store.MadeOf f more := by
  intro key held hget
  obtain ⟨parts, hparts, hjoin⟩ := h key held hget
  exact ⟨parts, fun part hmem => ⟨hsub part (hparts part hmem).1, (hparts part hmem).2⟩, hjoin⟩

/-- What absorbs all that was written for a key absorbs what the store holds for it. -/
theorem MadeOf.absorbed (hf : f.Lawful) {written : List (Entry κ σ)} (h : store.MadeOf f written) {key : κ}
    {held upper : Entry κ σ} (hget : store.get? key = some held)
    (hupper : ∀ entry ∈ written, entry.key = key → upper.Absorbs f entry) : upper.Absorbs f held := by
  obtain ⟨parts, hparts, hjoin⟩ := h key held hget
  obtain ⟨-, hleast⟩ := Entry.absorbs_joined hf.semilattice (fun part hmem => (hparts part hmem).2) hjoin
  exact hleast upper fun part hmem => hupper part (hparts part hmem).1 (hparts part hmem).2

variable [Std.TransOrd κ]

theorem madeOf_empty (f : MergeFunction σ) (written : List (Entry κ σ)) : empty.MadeOf f written := by
  intro key held h
  simp [get?, empty] at h

private theorem holds_put_self (hf : f.Lawful) (hkeyed : store.Keyed) (arriving : Entry κ σ) :
    (store.put f arriving).Holds f arriving := by
  refine ⟨_, get?_put_self f hkeyed arriving, ?_⟩
  cases hget : store.get? arriving.key with
  | none => exact Entry.Absorbs.refl hf.semilattice arriving
  | some held => exact Entry.Absorbs.merge_right hf.semilattice (hkeyed.key_of_get? hget)

variable [Std.LawfulEqOrd κ]

private theorem MadeOf.put {written : List (Entry κ σ)} (h : store.MadeOf f written)
    (hkeyed : store.Keyed) {arriving : Entry κ σ} (harriving : arriving ∈ written) :
    (store.put f arriving).MadeOf f written := by
  intro key held hget
  by_cases hkey : arriving.key = key
  · subst hkey
    rw [get?_put_self f hkeyed] at hget
    cases hbefore : store.get? arriving.key with
    | none =>
      rw [hbefore] at hget
      cases hget
      exact ⟨[arriving], by simpa using harriving, rfl⟩
    | some first =>
      rw [hbefore] at hget
      cases hget
      obtain ⟨parts, hparts, hjoin⟩ := h _ _ hbefore
      have hmore : Entry.joined f (parts ++ [arriving]) = some (first.merge f arriving) := by
        rw [Entry.joined_concat, hjoin, Option.map_some, Option.getD_some]
      refine ⟨parts ++ [arriving], fun part hmem => ?_, hmore⟩
      rcases List.mem_append.mp hmem with hold | hnew
      · exact hparts part hold
      · rw [List.mem_singleton.mp hnew]
        exact ⟨harriving, rfl⟩
  · rw [get?_put_of_ne f hkeyed hkey] at hget
    exact h key held hget

theorem MadeOf.putAll {written arriving : List (Entry κ σ)} (h : store.MadeOf f written)
    (hkeyed : store.Keyed) (harriving : ∀ entry ∈ arriving, entry ∈ written) :
    (store.putAll f arriving).MadeOf f written := by
  unfold MapStore.putAll
  induction arriving generalizing store with
  | nil => exact h
  | cons first rest ih =>
    have hfirst := h.put hkeyed (harriving first (List.mem_cons_self ..))
    exact ih hfirst (hkeyed.put f first) fun entry hmem => harriving entry (List.mem_cons_of_mem _ hmem)

section Lawful

variable (hf : f.Lawful)
include hf

private theorem Holds.put {entry : Entry κ σ} (h : store.Holds f entry) (hkeyed : store.Keyed)
    (arriving : Entry κ σ) : (store.put f arriving).Holds f entry := by
  obtain ⟨held, hget, habsorbs⟩ := h
  by_cases hkey : arriving.key = entry.key
  · refine ⟨held.merge f arriving, ?_, ?_⟩
    · rw [← hkey, get?_put_self f hkeyed, hkey, hget]
      rfl
    · refine (Entry.Absorbs.merge_left hf.semilattice ?_).trans hf.semilattice habsorbs
      exact habsorbs.1.trans hkey.symm
  · exact ⟨held, (get?_put_of_ne f hkeyed hkey).trans hget, habsorbs⟩

theorem Holds.putAll {entry : Entry κ σ} (h : store.Holds f entry) (hkeyed : store.Keyed)
    (arriving : List (Entry κ σ)) : (store.putAll f arriving).Holds f entry := by
  unfold MapStore.putAll
  induction arriving generalizing store with
  | nil => exact h
  | cons first rest ih => exact ih (h.put hf hkeyed first) (hkeyed.put f first)

theorem holds_putAll {entry : Entry κ σ} {arriving : List (Entry κ σ)} (hmem : entry ∈ arriving)
    (hkeyed : store.Keyed) : (store.putAll f arriving).Holds f entry := by
  induction arriving generalizing store with
  | nil => contradiction
  | cons first rest ih =>
    rcases List.mem_cons.mp hmem with rfl | hrest
    · exact (holds_put_self hf hkeyed entry).putAll hf (hkeyed.put f entry) rest
    · exact ih hrest (hkeyed.put f first)

end Lawful

end ReplicatedStore.MapStore
