import Mathlib.Data.List.Nodup
import ReplicatedStore.Entry.Basic
/-!
# Lists of entries by key

A list in ascending key order has each key once, so it is determined by what it has for each key.
-/

namespace ReplicatedStore.Entry

section Join

variable {κ σ : Type} (f : MergeFunction σ)

/-- The entries of one key as one, joined from left to right. -/
def joined : List (Entry κ σ) → Option (Entry κ σ)
  | [] => none
  | first :: rest => some (mergeAll f first rest)

theorem joined_eq_none {entries : List (Entry κ σ)} : joined f entries = none ↔ entries = [] := by
  cases entries <;> simp [joined]

@[simp] theorem key_mergeAll (first : Entry κ σ) (rest : List (Entry κ σ)) :
    (mergeAll f first rest).key = first.key := by
  unfold mergeAll
  induction rest generalizing first with
  | nil => rfl
  | cons entry rest ih => rw [List.foldl_cons, ih, key_merge]

theorem joined_concat (entries : List (Entry κ σ)) (last : Entry κ σ) :
    joined f (entries ++ [last]) =
      some (((joined f entries).map fun entry => entry.merge f last).getD last) := by
  cases entries with
  | nil => rfl
  | cons first rest => simp [joined, mergeAll]

theorem key_of_joined {key : κ} {entries : List (Entry κ σ)}
    (hkeys : ∀ entry ∈ entries, entry.key = key) {entry : Entry κ σ}
    (h : joined f entries = some entry) : entry.key = key := by
  cases entries with
  | nil => contradiction
  | cons first rest =>
    cases h
    rw [key_mergeAll]
    exact hkeys first (List.mem_cons_self ..)

theorem key_of_extract {f : MergeFunction σ} {horizon : UInt64} {entry rest : Entry κ σ}
    (h : entry.extract f horizon = some rest) : rest.key = entry.key := by
  unfold extract at h
  split at h
  next => contradiction
  next =>
    obtain ⟨state, -, rfl⟩ := Option.map_eq_some_iff.mp h
    rfl

end Join

section Lookup

variable {κ σ : Type} [Ord κ]

def hasKey (key : κ) (entry : Entry κ σ) : Bool := compare entry.key key == .eq

def lookup? (key : κ) (entries : List (Entry κ σ)) : Option (Entry κ σ) := entries.find? (hasKey key)

def Ascending (entries : List (Entry κ σ)) : Prop :=
  entries.Pairwise fun a b => compare a.key b.key = .lt

instance (entries : List (Entry κ σ)) : Decidable (Ascending entries) :=
  inferInstanceAs (Decidable (entries.Pairwise fun a b => compare a.key b.key = .lt))

@[simp] theorem lookup?_nil (key : κ) : lookup? key ([] : List (Entry κ σ)) = none := rfl

theorem Ascending.tail {first : Entry κ σ} {rest : List (Entry κ σ)} (h : Ascending (first :: rest)) :
    Ascending rest :=
  (List.pairwise_cons.mp h).2

variable [Std.LawfulEqOrd κ]

theorem key_ne_of_lt {a b : Entry κ σ} (h : compare a.key b.key = .lt) : b.key ≠ a.key := by
  intro heq
  have hself : compare a.key a.key = .eq := Std.ReflOrd.compare_self
  rw [heq, hself] at h
  contradiction

@[simp] theorem hasKey_iff {key : κ} {entry : Entry κ σ} : hasKey key entry = true ↔ entry.key = key := by
  rw [hasKey, beq_iff_eq, Std.LawfulEqOrd.compare_eq_iff_eq]

theorem lookup?_eq_some {key : κ} {entries : List (Entry κ σ)} {entry : Entry κ σ}
    (h : lookup? key entries = some entry) : entry.key = key ∧ entry ∈ entries :=
  ⟨hasKey_iff.mp (List.find?_some h), List.mem_of_find?_eq_some h⟩

theorem lookup?_eq_none {key : κ} {entries : List (Entry κ σ)} :
    lookup? key entries = none ↔ ∀ entry ∈ entries, entry.key ≠ key := by
  simp [lookup?, List.find?_eq_none]

theorem lookup?_cons_self (first : Entry κ σ) (rest : List (Entry κ σ)) :
    lookup? first.key (first :: rest) = some first :=
  List.find?_cons_of_pos (hasKey_iff.mpr rfl)

theorem lookup?_cons_of_ne {key : κ} {first : Entry κ σ} (h : first.key ≠ key)
    (rest : List (Entry κ σ)) : lookup? key (first :: rest) = lookup? key rest :=
  List.find?_cons_of_neg fun hkey => h (hasKey_iff.mp hkey)

theorem filter_hasKey_cons_of_eq {key : κ} {first : Entry κ σ} (h : first.key = key)
    (rest : List (Entry κ σ)) : (first :: rest).filter (hasKey key) = first :: rest.filter (hasKey key) :=
  List.filter_cons_of_pos (hasKey_iff.mpr h)

theorem filter_hasKey_cons_of_ne {key : κ} {first : Entry κ σ} (h : first.key ≠ key)
    (rest : List (Entry κ σ)) : (first :: rest).filter (hasKey key) = rest.filter (hasKey key) :=
  List.filter_cons_of_neg fun hkey => h (hasKey_iff.mp hkey)

namespace Ascending

variable {entries : List (Entry κ σ)}

theorem lookup?_tail {first : Entry κ σ} {rest : List (Entry κ σ)} (h : Ascending (first :: rest)) :
    lookup? first.key rest = none :=
  lookup?_eq_none.mpr fun entry hentry => key_ne_of_lt ((List.pairwise_cons.mp h).1 entry hentry)

theorem lookup?_of_mem (h : Ascending entries) {entry : Entry κ σ} (hmem : entry ∈ entries) :
    lookup? entry.key entries = some entry := by
  induction entries with
  | nil => contradiction
  | cons first rest ih =>
    rcases List.mem_cons.mp hmem with rfl | hrest
    · exact lookup?_cons_self ..
    · have hne : first.key ≠ entry.key :=
        (key_ne_of_lt ((List.pairwise_cons.mp h).1 entry hrest)).symm
      rw [lookup?_cons_of_ne hne, ih h.tail hrest]

theorem filter_hasKey (h : Ascending entries) (key : κ) :
    entries.filter (hasKey key) = (lookup? key entries).toList := by
  induction entries with
  | nil => rfl
  | cons first rest ih =>
    by_cases hkey : first.key = key
    · subst hkey
      have hrest := ih h.tail
      rw [h.lookup?_tail, Option.toList_none] at hrest
      rw [filter_hasKey_cons_of_eq rfl, hrest, lookup?_cons_self, Option.toList_some]
    · rw [filter_hasKey_cons_of_ne hkey, ih h.tail, lookup?_cons_of_ne hkey]

omit [Std.LawfulEqOrd κ] in
theorem filterMap_extract (f : MergeFunction σ) (h : Ascending entries) (horizon : UInt64) :
    Ascending (entries.filterMap (extract f horizon)) := by
  refine h.filterMap _ fun a b hlt c hc d hd => ?_
  rw [key_of_extract hc, key_of_extract hd]
  exact hlt

private theorem nodup (h : Ascending entries) : entries.Nodup := by
  refine h.imp ?_
  rintro a b hlt rfl
  exact key_ne_of_lt hlt rfl

/-- Ascending lists that have the same for each key are equal. -/
theorem eq_of_lookup? [Std.TransOrd κ] {first second : List (Entry κ σ)} (hfirst : Ascending first)
    (hsecond : Ascending second) (h : ∀ key, lookup? key first = lookup? key second) :
    first = second := by
  have hperm : first.Perm second := by
    refine (List.perm_ext_iff_of_nodup hfirst.nodup hsecond.nodup).mpr fun entry => ⟨?_, ?_⟩
    · intro hmem
      exact (lookup?_eq_some ((h entry.key).symm.trans (hfirst.lookup?_of_mem hmem))).2
    · intro hmem
      exact (lookup?_eq_some ((h entry.key).trans (hsecond.lookup?_of_mem hmem))).2
  refine hperm.eq_of_pairwise ?_ hfirst hsecond
  intro a b _ _ hab hba
  exact absurd hba (Std.OrientedCmp.not_lt_of_lt hab)

end Ascending

end Lookup

end ReplicatedStore.Entry
