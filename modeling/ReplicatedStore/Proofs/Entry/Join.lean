import Mathlib.Data.List.Induction
import ReplicatedStore.Proofs.Entry.Ascending
/-!
# Joins of entries

Under an associative, commutative and idempotent merge function the entries of a key form a semilattice:
an entry absorbs another if joining it changes nothing, and the join of some entries is the least that
absorbs all of them. So it depends neither on their order nor on how often each of them is joined.
-/

namespace ReplicatedStore

variable {κ σ : Type}

/-- The merge function joins states in any order and any number of times, and drops nothing at the
horizon zero. -/
structure MergeFunction.Lawful (f : MergeFunction σ) : Prop where
  assoc : ∀ a b c, f.merge (f.merge a b) c = f.merge a (f.merge b c)
  comm : ∀ a b, f.merge a b = f.merge b a
  idem : ∀ a, f.merge a a = a
  extract_zero : ∀ a, f.extract a 0 = some a

structure MergeFunction.Commutative (f : MergeFunction σ) : Prop where
  assoc : ∀ a b c, f.merge (f.merge a b) c = f.merge a (f.merge b c)
  comm : ∀ a b, f.merge a b = f.merge b a

/-- The merge function joins states in any order and any number of times. -/
structure MergeFunction.Semilattice (f : MergeFunction σ) : Prop extends f.Commutative where
  idem : ∀ a, f.merge a a = a

theorem MergeFunction.Lawful.semilattice {f : MergeFunction σ} (hf : f.Lawful) : f.Semilattice :=
  ⟨⟨hf.assoc, hf.comm⟩, hf.idem⟩

namespace Entry

section Timestamps

theorem toNat_max (a b : UInt64) : (max a b).toNat = max a.toNat b.toNat := by
  rw [Nat.max_def]
  by_cases hle : a ≤ b
  · have hmax : max a b = b := if_pos hle
    rw [hmax, if_pos (UInt64.le_iff_toNat_le.mp hle)]
  · have hmax : max a b = a := if_neg hle
    rw [hmax, if_neg fun h => hle (UInt64.le_iff_toNat_le.mpr h)]

theorem max_assoc_timestamp (a b c : UInt64) : max (max a b) c = max a (max b c) := by
  apply UInt64.toNat_inj.mp
  simp only [toNat_max]
  omega

theorem max_comm_timestamp (a b : UInt64) : max a b = max b a := by
  apply UInt64.toNat_inj.mp
  simp only [toNat_max]
  omega

theorem max_self_timestamp (a : UInt64) : max a a = a := by
  apply UInt64.toNat_inj.mp
  simp only [toNat_max]
  omega

end Timestamps

section Commutative

variable {f : MergeFunction σ} (hf : f.Commutative)
include hf

theorem merge_assoc (a b c : Entry κ σ) : (a.merge f b).merge f c = a.merge f (b.merge f c) := by
  unfold merge
  dsimp only
  rw [max_assoc_timestamp, hf.assoc]

theorem merge_comm {a b : Entry κ σ} (h : a.key = b.key) : a.merge f b = b.merge f a := by
  unfold merge
  rw [h, max_comm_timestamp, hf.comm]

private theorem mergeAll_merge (a b : Entry κ σ) (rest : List (Entry κ σ)) :
    mergeAll f (a.merge f b) rest = a.merge f (mergeAll f b rest) := by
  unfold mergeAll
  induction rest generalizing b with
  | nil => rfl
  | cons c rest ih => rw [List.foldl_cons, List.foldl_cons, merge_assoc hf, ih]

theorem joined_append (first second : List (Entry κ σ)) :
    joined f (first ++ second) = Option.merge (merge f) (joined f first) (joined f second) := by
  cases first with
  | nil => simp [joined]
  | cons a first =>
    cases second with
    | nil => simp [joined]
    | cons b second =>
      have hstep := mergeAll_merge hf (mergeAll f a first) b second
      simpa [joined, mergeAll] using hstep

private theorem joined_swap {a b : Entry κ σ} (h : a.key = b.key) (rest : List (Entry κ σ)) :
    joined f (a :: b :: rest) = joined f (b :: a :: rest) := by
  simp only [joined, mergeAll, List.foldl_cons]
  rw [merge_comm hf h]

theorem joined_perm {key : κ} {first second : List (Entry κ σ)} (h : first.Perm second)
    (hkeys : ∀ entry ∈ first, entry.key = key) : joined f first = joined f second := by
  induction h with
  | nil => rfl
  | cons entry _ ih =>
    have hrest := ih fun other hmem => hkeys other (List.mem_cons_of_mem _ hmem)
    have hfirst := joined_append hf [entry]
    rw [← List.singleton_append, hfirst, hrest, ← hfirst, List.singleton_append]
  | swap a b rest =>
    have hsame : b.key = a.key := (hkeys b (by simp)).trans (hkeys a (by simp)).symm
    exact joined_swap hf hsame rest
  | trans hfirst _ ih ih' =>
    rw [ih hkeys]
    exact ih' fun entry hmem => hkeys entry (hfirst.mem_iff.mpr hmem)

end Commutative

section Joins

variable [Ord κ]

/-- Entries in key order that have for each key the join of some given ones. -/
structure Joins (f : MergeFunction σ) (parts entries : List (Entry κ σ)) : Prop where
  ascending : Ascending entries
  lookup : ∀ key, lookup? key entries = joined f (parts.filter (hasKey key))

variable {f : MergeFunction σ} {parts entries : List (Entry κ σ)} [Std.LawfulEqOrd κ]

theorem Joins.unique [Std.TransOrd κ] {other : List (Entry κ σ)} (h : Joins f parts entries)
    (h' : Joins f parts other) : entries = other :=
  h.ascending.eq_of_lookup? h'.ascending fun key => (h.lookup key).trans (h'.lookup key).symm

theorem Joins.mem_keys_iff (h : Joins f parts entries) {key : κ} :
    key ∈ entries.map Entry.key ↔ key ∈ parts.map Entry.key := by
  rw [← not_iff_not]
  calc key ∉ entries.map Entry.key
      ↔ lookup? key entries = none := by simp [lookup?_eq_none]
    _ ↔ parts.filter (hasKey key) = [] := by rw [h.lookup, joined_eq_none]
    _ ↔ key ∉ parts.map Entry.key := by simp [List.filter_eq_nil_iff]

theorem joined_filter_perm (hf : f.Commutative) {first second : List (Entry κ σ)} (h : first.Perm second)
    (key : κ) : joined f (first.filter (hasKey key)) = joined f (second.filter (hasKey key)) :=
  joined_perm hf (h.filter _) fun _ hmem => hasKey_iff.mp (List.mem_filter.mp hmem).2

theorem Joins.perm (hf : f.Commutative) {others : List (Entry κ σ)} (h : Joins f parts entries)
    (hperm : parts.Perm others) : Joins f others entries :=
  ⟨h.ascending, fun key => (h.lookup key).trans (joined_filter_perm hf hperm key)⟩

end Joins

/-- Joining the second entry to the first changes nothing. -/
def Absorbs (f : MergeFunction σ) (entry other : Entry κ σ) : Prop :=
  entry.key = other.key ∧ entry.merge f other = entry

theorem extract_zero {f : MergeFunction σ} (hf : ∀ state, f.extract state 0 = some state)
    (entry : Entry κ σ) : entry.extract f 0 = some entry := by
  have hnever : ¬entry.timestamp < 0 := by
    rw [UInt64.lt_iff_toNat_lt]
    exact Nat.not_lt_zero _
  rw [extract, if_neg hnever, hf, Option.map_some]

theorem filterMap_extract_zero {f : MergeFunction σ} (hf : ∀ state, f.extract state 0 = some state)
    (entries : List (Entry κ σ)) : entries.filterMap (extract f 0) = entries := by
  have hall : extract f 0 = (some : Entry κ σ → Option (Entry κ σ)) := funext (extract_zero hf)
  rw [hall, List.filterMap_some]

variable {f : MergeFunction σ} (hf : f.Semilattice)
include hf

theorem merge_self (a : Entry κ σ) : a.merge f a = a := by
  unfold merge
  rw [max_self_timestamp, hf.idem]

namespace Absorbs

variable {a b c : Entry κ σ}

theorem refl (a : Entry κ σ) : a.Absorbs f a := ⟨rfl, merge_self hf a⟩

theorem trans (hab : a.Absorbs f b) (hbc : b.Absorbs f c) : a.Absorbs f c := by
  refine ⟨hab.1.trans hbc.1, ?_⟩
  calc a.merge f c = (a.merge f b).merge f c := by rw [hab.2]
    _ = a.merge f (b.merge f c) := merge_assoc hf.toCommutative a b c
    _ = a := by rw [hbc.2, hab.2]

theorem antisymm (hab : a.Absorbs f b) (hba : b.Absorbs f a) : a = b := by
  rw [← hab.2, merge_comm hf.toCommutative hab.1, hba.2]

theorem merge_left (h : a.key = b.key) : (a.merge f b).Absorbs f a := by
  refine ⟨rfl, ?_⟩
  calc (a.merge f b).merge f a = (b.merge f a).merge f a := by rw [merge_comm hf.toCommutative h]
    _ = b.merge f a := by rw [merge_assoc hf.toCommutative, merge_self hf]
    _ = a.merge f b := (merge_comm hf.toCommutative h).symm

theorem merge_right (h : a.key = b.key) : (a.merge f b).Absorbs f b :=
  ⟨h, by rw [merge_assoc hf.toCommutative, merge_self hf]⟩

theorem merge (ha : c.Absorbs f a) (hb : c.Absorbs f b) : c.Absorbs f (a.merge f b) :=
  ⟨ha.1, by rw [← merge_assoc hf.toCommutative, ha.2, hb.2]⟩

end Absorbs

/-- The join of some entries of a key absorbs each of them, and whatever absorbs each absorbs it. -/
theorem absorbs_joined {key : κ} {entries : List (Entry κ σ)}
    (hkeys : ∀ entry ∈ entries, entry.key = key) {join : Entry κ σ} (h : joined f entries = some join) :
    (∀ entry ∈ entries, join.Absorbs f entry) ∧
      ∀ upper : Entry κ σ, (∀ entry ∈ entries, upper.Absorbs f entry) → upper.Absorbs f join := by
  induction entries using List.reverseRecOn generalizing join with
  | nil => contradiction
  | append_singleton before last ih =>
    have hbefore : ∀ entry ∈ before, entry.key = key := fun entry hmem =>
      hkeys entry (List.mem_append_left _ hmem)
    have hlast : last.key = key := hkeys last (by simp)
    rw [joined_concat] at h
    cases hjoin : joined f before with
    | none =>
      obtain rfl := (joined_eq_none f).mp hjoin
      rw [hjoin] at h
      cases h
      exact ⟨by simpa using Absorbs.refl hf last, fun upper hupper => hupper last (by simp)⟩
    | some first =>
      rw [hjoin] at h
      cases h
      obtain ⟨habsorbs, hleast⟩ := ih hbefore hjoin
      have hsame : first.key = last.key := (key_of_joined f hbefore hjoin).trans hlast.symm
      refine ⟨?_, ?_⟩
      · intro entry hmem
        rcases List.mem_append.mp hmem with hold | hnew
        · exact (Absorbs.merge_left hf hsame).trans hf (habsorbs entry hold)
        · rw [List.mem_singleton.mp hnew]
          exact Absorbs.merge_right hf hsame
      · intro upper hupper
        refine Absorbs.merge hf (hleast upper ?_) (hupper last (by simp))
        exact fun entry hmem => hupper entry (List.mem_append_left _ hmem)

end Entry

namespace MergeFunction

variable {combine : σ → σ → σ}

theorem lawful_stamped (hassoc : ∀ a b c, combine (combine a b) c = combine a (combine b c))
    (hcomm : ∀ a b, combine a b = combine b a) (hidem : ∀ a, combine a a = a) :
    (stamped combine).Lawful := by
  constructor
  case assoc =>
    intro a b c
    simp only [stamped, hassoc, Entry.max_assoc_timestamp]
  case comm =>
    intro a b
    simp only [stamped, hcomm a.state, Entry.max_comm_timestamp a.timestamp]
  case idem =>
    intro a
    simp only [stamped, hidem, Entry.max_self_timestamp]
  case extract_zero =>
    intro a
    have hnever : ¬a.timestamp < 0 := by
      rw [UInt64.lt_iff_toNat_lt]
      exact Nat.not_lt_zero _
    simp only [stamped, if_neg hnever]

theorem lawful_ignoringTime (hassoc : ∀ a b c, combine (combine a b) c = combine a (combine b c))
    (hcomm : ∀ a b, combine a b = combine b a) (hidem : ∀ a, combine a a = a) :
    (ignoringTime combine).Lawful :=
  ⟨hassoc, hcomm, hidem, fun _ => rfl⟩

end MergeFunction

end ReplicatedStore
