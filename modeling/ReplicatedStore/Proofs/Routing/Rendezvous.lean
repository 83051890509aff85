import Mathlib.Data.List.Nodup
import ReplicatedStore.Routing.Rendezvous
/-!
# Owners of buckets

Sorting members without repetition keeps each of them once. The owners of a bucket are distinct numbers
of members, as many as the sharder has room for, and dropping members is the same as sharing the
buckets among those that are left.
-/

namespace ReplicatedStore

section Sorted

variable {α : Type} [Ord α]

private theorem keepLast_sublist (items : List α) : (keepLast items).Sublist items := by
  fun_induction keepLast items with
  | case1 => exact .slnil
  | case2 a => exact .refl _
  | case3 a b rest heq ih => exact ih.cons a
  | case4 a b rest heq ih => exact ih.cons_cons a

private theorem keepLast_ascending (items : List α)
    (hsorted : items.Pairwise fun a b => (compare a b).isLE) [Std.TransOrd α] :
    (keepLast items).Pairwise fun a b => compare a b = .lt := by
  fun_induction keepLast items with
  | case1 => exact .nil
  | case2 a => exact List.pairwise_singleton _ _
  | case3 a b rest heq ih => exact ih (List.pairwise_cons.mp hsorted).2
  | case4 a b rest hne ih =>
    have htail := (List.pairwise_cons.mp hsorted).2
    refine List.pairwise_cons.mpr ⟨?_, ih htail⟩
    intro c hc
    have hab : compare a b = .lt := by
      have := (List.pairwise_cons.mp hsorted).1 b (by simp)
      cases h : compare a b <;> simp_all
    rcases List.mem_cons.mp ((keepLast_sublist _).subset hc) with rfl | hmem
    · exact hab
    · exact Std.TransCmp.lt_of_lt_of_isLE hab ((List.pairwise_cons.mp htail).1 c hmem)

private theorem exists_mem_keepLast [Std.TransOrd α] (items : List α) :
    ∀ a ∈ items, ∃ b ∈ keepLast items, compare a b = .eq := by
  fun_induction keepLast items with
  | case1 => simp
  | case2 a => simp
  | case3 a b rest heq ih =>
    intro c hc
    rcases List.mem_cons.mp hc with rfl | hmem
    · obtain ⟨d, hd, hbd⟩ := ih b (by simp)
      exact ⟨d, hd, Std.TransCmp.eq_trans heq hbd⟩
    · exact ih c hmem
  | case4 a b rest hne ih =>
    intro c hc
    rcases List.mem_cons.mp hc with rfl | hmem
    · exact ⟨c, by simp, Std.ReflCmp.compare_self⟩
    · obtain ⟨d, hd, hcd⟩ := ih c hmem
      exact ⟨d, List.mem_cons_of_mem a hd, hcd⟩

theorem sortedDistinct_ascending [Std.TransOrd α] (items : List α) :
    (sortedDistinct items).Pairwise fun a b => compare a b = .lt := by
  apply keepLast_ascending
  apply List.pairwise_mergeSort
  · intro a b c hab hbc
    exact Std.TransCmp.isLE_trans hab hbc
  · intro a b
    have hswap : compare b a = (compare a b).swap := Std.OrientedCmp.eq_swap
    rw [hswap]
    cases compare a b <;> rfl

theorem sortedDistinct_eq_self {items : List α} (h : items.Pairwise fun a b => compare a b = .lt) :
    sortedDistinct items = items := by
  have hsorted : items.mergeSort (fun a b => (compare a b).isLE) = items := by
    refine List.mergeSort_of_pairwise (h.imp fun {a b} hlt => ?_)
    rw [hlt]
    rfl
  rw [sortedDistinct, hsorted]
  clear hsorted
  fun_induction keepLast items with
  | case1 => rfl
  | case2 a => rfl
  | case3 a b rest heq ih =>
    rw [(List.pairwise_cons.mp h).1 b (List.mem_cons_self ..)] at heq
    contradiction
  | case4 a b rest hne ih => rw [ih (List.pairwise_cons.mp h).2]

theorem mem_of_mem_sortedDistinct {a : α} {items : List α} (h : a ∈ sortedDistinct items) : a ∈ items :=
  (List.mergeSort_perm items _).subset ((keepLast_sublist _).subset h)

theorem exists_mem_sortedDistinct [Std.TransOrd α] {a : α} {items : List α} (h : a ∈ items) :
    ∃ b ∈ sortedDistinct items, compare a b = .eq :=
  exists_mem_keepLast _ a ((List.mergeSort_perm items _).symm.subset h)

theorem mem_sortedDistinct_iff [Std.TransOrd α] [Std.LawfulEqOrd α] (items : List α) (a : α) :
    a ∈ sortedDistinct items ↔ a ∈ items := by
  refine ⟨mem_of_mem_sortedDistinct, fun h => ?_⟩
  obtain ⟨other, hother, heq⟩ := exists_mem_sortedDistinct h
  exact Std.LawfulEqOrd.eq_of_compare heq ▸ hother

theorem nodup_of_ascending [Std.TransOrd α] {items : List α}
    (h : items.Pairwise fun a b => compare a b = .lt) : items.Nodup := by
  refine h.imp ?_
  intro a b hlt heq
  subst heq
  exact absurd (hlt.symm.trans Std.ReflCmp.compare_self) (by decide)

theorem sortedDistinct_nodup [Std.TransOrd α] (items : List α) : (sortedDistinct items).Nodup :=
  nodup_of_ascending (sortedDistinct_ascending items)

theorem eq_of_ascending [Std.TransOrd α] {listed others : List α}
    (hlisted : listed.Pairwise fun a b => compare a b = .lt)
    (hothers : others.Pairwise fun a b => compare a b = .lt) (h : ∀ a, a ∈ listed ↔ a ∈ others) :
    listed = others := by
  refine List.Perm.eq_of_pairwise (fun a b _ _ hab hba => ?_) hlisted hothers
    ((List.perm_ext_iff_of_nodup (nodup_of_ascending hlisted) (nodup_of_ascending hothers)).mpr h)
  have hswap : compare a b = (compare b a).swap := Std.OrientedCmp.eq_swap
  rw [hswap, hba] at hab
  contradiction

private theorem eq_of_compare_of_ascending [Std.TransOrd α] {items : List α}
    (h : items.Pairwise fun a b => compare a b = .lt) {a b : α} (ha : a ∈ items) (hb : b ∈ items)
    (heq : compare a b = .eq) : a = b := by
  have hforward : items.Pairwise fun a b => compare a b = .eq → a = b := h.imp fun hlt heq => by simp [hlt] at heq
  have hbackward : items.Pairwise fun a b => compare b a = .eq → b = a :=
    h.imp fun hlt heq => by simp [Std.OrientedCmp.eq_symm heq] at hlt
  exact List.Pairwise.forall_of_forall_of_flip (fun _ _ _ => rfl) hforward hbackward ha hb heq

theorem sortedDistinct_of_perm [Std.TransOrd α] {items sorted : List α} (h : items.Perm sorted)
    (hsorted : sorted.Pairwise fun a b => compare a b = .lt) : sortedDistinct items = sorted := by
  apply eq_of_ascending (sortedDistinct_ascending items) hsorted
  intro a
  constructor
  · intro ha
    exact h.subset (mem_of_mem_sortedDistinct ha)
  · intro ha
    obtain ⟨b, hb, hab⟩ := exists_mem_sortedDistinct (h.symm.subset ha)
    have hba := eq_of_compare_of_ascending hsorted ha (h.subset (mem_of_mem_sortedDistinct hb)) hab
    rwa [hba]

end Sorted

namespace Rendezvous

variable {π : Type}

/-- The members in order, each once, with their numbers and hashes. -/
def numbered [Ord π] (members : List π) (hash : π → UInt32) : List (RankedMember π) :=
  (sortedDistinct members).zipIdx.map fun (m, index) => ⟨m, index, hash m⟩

section Numbered

variable [Ord π] (members : List π) (hash : π → UInt32)

theorem map_member_numbered : (numbered members hash).map RankedMember.member = sortedDistinct members := by
  simp only [numbered, List.map_map, Function.comp_def, List.zipIdx_map_fst]

theorem map_index_numbered :
    (numbered members hash).map RankedMember.index = List.range (sortedDistinct members).length := by
  simp only [numbered, List.map_map, Function.comp_def, List.zipIdx_map_snd, List.range_eq_range']

theorem mem_numbered {m : RankedMember π} : m ∈ numbered members hash ↔
    (sortedDistinct members)[m.index]? = some m.member ∧ m.hash = hash m.member := by
  constructor
  · intro h
    obtain ⟨⟨member, index⟩, hpair, rfl⟩ := List.mem_map.mp h
    exact ⟨List.mem_zipIdx_iff_getElem?.mp hpair, rfl⟩
  · rintro ⟨hplace, hhash⟩
    refine List.mem_map.mpr ⟨(m.member, m.index), List.mem_zipIdx_iff_getElem?.mpr hplace, ?_⟩
    exact congrArg (RankedMember.mk m.member m.index) hhash.symm

theorem numbered_ascending : (numbered members hash).Pairwise fun a b => a.index < b.index := by
  refine List.pairwise_map.mp ?_
  rw [map_index_numbered]
  exact List.pairwise_lt_range

end Numbered

theorem ranking_perm (members : List (RankedMember π)) (bucket : Nat) :
    (ranking members bucket).Perm (members.map RankedMember.index) := by
  have hperm := (List.mergeSort_perm
    (members.map fun m => (combinedHash m.hash (UInt32.ofNat bucket), m.index)) ranksBefore).map Prod.snd
  simpa only [ranking, List.map_map, Function.comp_def] using hperm

theorem owners_ofMembers (members : List (RankedMember π)) (width : Nat) (bucket : Bucket) :
    (ofMembers members width).owners bucket =
      if members.length ≤ width then members.map RankedMember.index
      else (ranking members bucket).take width := by
  by_cases h : members.length ≤ width
  · simp only [owners, ofMembers, ownerTable, h, if_true]
  · simp only [owners, ofMembers, ownerTable, h, if_false, Array.getElem?_ofFn, bucket.isLt, dite_true,
      Option.getD_some]

theorem length_owners_ofMembers (members : List (RankedMember π)) (width : Nat) (bucket : Bucket) :
    ((ofMembers members width).owners bucket).length = min width members.length := by
  rw [owners_ofMembers]
  split
  next h => rw [List.length_map, Nat.min_eq_right h]
  next h => rw [List.length_take, (ranking_perm members bucket).length_eq, List.length_map]

theorem mem_of_mem_owners_ofMembers {members : List (RankedMember π)} {width : Nat} {bucket : Bucket}
    {index : Nat} (h : index ∈ (ofMembers members width).owners bucket) :
    index ∈ members.map RankedMember.index := by
  rw [owners_ofMembers] at h
  split at h
  next => exact h
  next => exact (ranking_perm members bucket).subset (List.mem_of_mem_take h)

theorem nodup_owners_ofMembers {members : List (RankedMember π)} (width : Nat) (bucket : Bucket)
    (h : (members.map RankedMember.index).Nodup) : ((ofMembers members width).owners bucket).Nodup := by
  rw [owners_ofMembers]
  split
  next => exact h
  next => exact ((ranking_perm members bucket).symm.nodup h).sublist (List.take_sublist width _)

/-- Dropping members shares the buckets among those that are left, whether there were any to drop or
not. -/
theorem recompute_ofMembers (members : List (RankedMember π)) (width : Nat) (alive : π → Bool) :
    ((ofMembers members width).recompute alive).2 =
      ofMembers (members.filter fun m => alive m.member) width := by
  change (if (members.filter fun m => alive m.member).length = members.length then
    (false, ofMembers members width)
    else (true, ofMembers (members.filter fun m => alive m.member) width)).2 = _
  split
  next h =>
    have hall : members.filter (fun m => alive m.member) = members :=
      List.filter_sublist.eq_of_length h
    rw [hall]
  next => rfl

end Rendezvous

end ReplicatedStore
