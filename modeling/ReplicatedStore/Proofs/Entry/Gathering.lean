import Mathlib.Data.List.Forall2
import ReplicatedStore.Proofs.Entry.Join
/-!
# Entries gathered into a list

Merging makes one entry of several that have the same key. A list in key order gathers some entries if each
of them went into exactly one of the list. With a merge function that joins states in any order, the list then
has for each key the join of its entries, so it does not matter how they were gathered.
-/

namespace ReplicatedStore.Entry

variable {κ σ : Type} {f : MergeFunction σ}

/-- The entry is what merging makes of the parts, each of them used once. -/
inductive MadeOf (f : MergeFunction σ) : List (Entry κ σ) → Entry κ σ → Prop
  | entry (entry : Entry κ σ) : MadeOf f [entry] entry
  | merge {first second : List (Entry κ σ)} {a b : Entry κ σ} (ha : MadeOf f first a)
    (hb : MadeOf f second b) (hkey : a.key = b.key) : MadeOf f (first ++ second) (a.merge f b)

namespace MadeOf

variable {parts : List (Entry κ σ)} {entry : Entry κ σ}

theorem key_eq (h : MadeOf f parts entry) : ∀ part ∈ parts, part.key = entry.key := by
  induction h with
  | entry entry => simp
  | @merge first second a b _ _ hkey ih ih' =>
    intro part hmem
    rw [key_merge]
    rcases List.mem_append.mp hmem with hfirst | hsecond
    · exact ih part hfirst
    · exact (ih' part hsecond).trans hkey.symm

theorem joined (hf : f.Commutative) (h : MadeOf f parts entry) : joined f parts = some entry := by
  induction h with
  | entry entry => rfl
  | merge _ _ _ ih ih' =>
    rw [joined_append hf, ih, ih']
    rfl

/-- What holds of all parts and of merges holds of what is made of the parts. -/
theorem preserves {P : Entry κ σ → Prop} (hmerge : ∀ a b, P a → P b → P (a.merge f b))
    (h : MadeOf f parts entry) (hparts : ∀ part ∈ parts, P part) : P entry := by
  induction h with
  | entry entry => exact hparts entry (List.mem_singleton_self entry)
  | merge _ _ _ ih ih' =>
    rw [List.forall_mem_append] at hparts
    exact hmerge _ _ (ih hparts.1) (ih' hparts.2)

end MadeOf

theorem madeOf_singletons (entries : List (Entry κ σ)) :
    List.Forall₂ (MadeOf f) (entries.map fun entry => [entry]) entries := by
  rw [List.forall₂_map_left_iff, List.forall₂_same]
  exact fun entry _ => .entry entry

theorem flatten_singletons (entries : List (Entry κ σ)) : (entries.map fun entry => [entry]).flatten = entries := by
  rw [← List.flatMap_def, List.flatMap_singleton']

theorem exists_of_mem_group {groups : List (List (Entry κ σ))} {entries : List (Entry κ σ)}
    (h : List.Forall₂ (MadeOf f) groups entries) {part : Entry κ σ} (hmem : part ∈ groups.flatten) :
    ∃ entry ∈ entries, part.key = entry.key := by
  induction h with
  | nil => contradiction
  | @cons group first groups rest hgroup _ ih =>
    rcases List.mem_append.mp hmem with hfirst | hrest
    · exact ⟨first, List.mem_cons_self .., hgroup.key_eq part hfirst⟩
    · obtain ⟨entry, hentry, hkey⟩ := ih hrest
      exact ⟨entry, List.mem_cons_of_mem _ hentry, hkey⟩

variable [Ord κ]

/-- Entries in key order among which the parts are shared out. -/
structure Gathers (f : MergeFunction σ) (parts entries : List (Entry κ σ)) : Prop where
  ascending : Ascending entries
  shares : ∃ groups, groups.flatten.Perm parts ∧ List.Forall₂ (MadeOf f) groups entries

namespace Gathers

variable {parts entries : List (Entry κ σ)}

theorem perm {others : List (Entry κ σ)} (h : Gathers f parts entries) (hperm : parts.Perm others) :
    Gathers f others entries := by
  obtain ⟨groups, hparts, hgroups⟩ := h.shares
  exact ⟨h.ascending, groups, hparts.trans hperm, hgroups⟩

theorem preserves {P : Entry κ σ → Prop} (hmerge : ∀ a b, P a → P b → P (a.merge f b))
    (h : Gathers f parts entries) (hparts : ∀ part ∈ parts, P part) : ∀ entry ∈ entries, P entry := by
  obtain ⟨groups, hperm, hgroups⟩ := h.shares
  have hin : ∀ part ∈ groups.flatten, P part := fun part hmem => hparts part (hperm.mem_iff.mp hmem)
  clear h hperm hparts
  induction hgroups with
  | nil => simp
  | cons hgroup _ ih =>
    rw [List.flatten_cons, List.forall_mem_append] at hin
    exact List.forall_mem_cons.mpr ⟨hgroup.preserves hmerge hin.1, ih hin.2⟩

variable [Std.LawfulEqOrd κ]

private theorem lookup_groups (hf : f.Commutative) {groups : List (List (Entry κ σ))}
    (hascending : Ascending entries) (h : List.Forall₂ (MadeOf f) groups entries) (key : κ) :
    lookup? key entries = Entry.joined f (groups.flatten.filter (hasKey key)) := by
  induction h with
  | nil => rfl
  | @cons group first groups rest hgroup hrest ih =>
    rw [List.flatten_cons, List.filter_append]
    by_cases hkey : first.key = key
    · subst hkey
      have hall : group.filter (hasKey first.key) = group :=
        List.filter_eq_self.mpr fun part hmem => hasKey_iff.mpr (hgroup.key_eq part hmem)
      have hnone : groups.flatten.filter (hasKey first.key) = [] := by
        refine List.filter_eq_nil_iff.mpr fun part hmem hhas => ?_
        obtain ⟨entry, hentry, hsame⟩ := exists_of_mem_group hrest hmem
        refine key_ne_of_lt ((List.pairwise_cons.mp hascending).1 entry hentry) ?_
        rw [← hsame, hasKey_iff.mp hhas]
      rw [lookup?_cons_self, hall, hnone, List.append_nil, hgroup.joined hf]
    · have hnone : group.filter (hasKey key) = [] := by
        refine List.filter_eq_nil_iff.mpr fun part hmem hhas => hkey ?_
        rw [← hgroup.key_eq part hmem, hasKey_iff.mp hhas]
      rw [lookup?_cons_of_ne hkey, hnone, List.nil_append, ih hascending.tail]

theorem joins (hf : f.Commutative) (h : Gathers f parts entries) : Joins f parts entries := by
  obtain ⟨groups, hperm, hgroups⟩ := h.shares
  refine ⟨h.ascending, fun key => ?_⟩
  rw [lookup_groups hf h.ascending hgroups key]
  exact joined_filter_perm hf hperm key

end Gathers

end ReplicatedStore.Entry
