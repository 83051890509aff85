import Mathlib.Data.List.Nodup
import ReplicatedStore.Proofs.Routing.Ranking
/-!
# Changes of membership

However often members are dropped, the sharder is the one that shares the buckets among the members that
survived every change, under the numbers they were given first. What it answers therefore depends on who
survived alone, and a change moves no bucket away from an owner that survives.
-/

namespace ReplicatedStore

section Lists

variable {α : Type}

private theorem find?_key {κ : Type} [BEq κ] [LawfulBEq κ] (key : α → κ) {items : List α}
    (h : (items.map key).Nodup) {item : α} (hitem : item ∈ items) :
    items.find? (fun other => key other == key item) = some item := by
  cases hfind : items.find? (fun other => key other == key item) with
  | none => exact absurd (beq_self_eq_true (key item)) (List.find?_eq_none.mp hfind item hitem)
  | some found =>
    have hsame := List.find?_some hfind
    have hkey : key found = key item := eq_of_beq hsame
    rw [List.inj_on_of_nodup_map h (List.mem_of_find?_eq_some hfind) hitem hkey]

private theorem take_drop_flatten (width : Nat) {rows : List (List α)}
    (h : ∀ row ∈ rows, row.length = width) {i : Nat} (hi : i < rows.length) :
    (rows.flatten.drop (i * width)).take width = rows[i] := by
  induction rows generalizing i with
  | nil => exact absurd hi (Nat.not_lt_zero i)
  | cons row rest ih =>
    have hrow : row.length = width := h row List.mem_cons_self
    rw [List.flatten_cons]
    cases i with
    | zero => rw [Nat.zero_mul, List.drop_zero, List.take_append_of_le_length (Nat.le_of_eq hrow.symm), ← hrow,
        List.take_length, List.getElem_cons_zero]
    | succ i =>
      have hskip : (i + 1) * width = row.length + i * width := by rw [hrow, Nat.succ_mul, Nat.add_comm]
      rw [hskip, List.drop_length_add_append, List.getElem_cons_succ]
      exact ih (fun other hother => h other (List.mem_cons_of_mem row hother)) (Nat.lt_of_succ_lt_succ hi)

end Lists

namespace Rendezvous

variable {π : Type}

/-- The sharder after its membership was recomputed several times. -/
def recomputeAll (sharder : Rendezvous π) (alives : List (π → Bool)) : Rendezvous π :=
  alives.foldl (fun sharder alive => (sharder.recompute alive).2) sharder

/-- Whether a number denotes a member that is alive. -/
def survives (sharder : Rendezvous π) (alive : π → Bool) (index : Nat) : Bool :=
  (sharder.member? index).any alive

section Recompute

variable (members : List (RankedMember π)) (width : Nat)

theorem isPredefined_ofMembers : (ofMembers members width).isPredefined = decide (members.length ≤ width) := by
  by_cases h : members.length ≤ width
  · simp only [isPredefined, ofMembers, ownerTable, h, if_true, decide_true]
  · simp only [isPredefined, ofMembers, ownerTable, h, if_false, decide_false]

theorem owners?_ofMembers (bucket : Bucket) :
    (ofMembers members width).owners? bucket = some ((ofMembers members width).owners bucket) := by
  by_cases h : members.length ≤ width
  · simp only [owners?, owners, ofMembers, ownerTable, h, if_true]
  · by_cases hwidth : width = 0
    · subst hwidth
      simp only [owners?, owners, ofMembers, ownerTable, h, if_true, if_false, Array.getElem?_ofFn,
        bucket.isLt, dite_true, Option.getD_some, List.take_zero]
    · simp only [owners?, owners, ofMembers, ownerTable, h, hwidth, if_false, Array.getElem?_ofFn,
        bucket.isLt, dite_true, Option.getD_some]

theorem take_drop_rows (hranked : width < members.length) (bucket : Bucket) :
    ((ofMembers members width).rows.flatten.drop (bucket * width)).take width =
      (ofMembers members width).owners bucket := by
  have hrows : ∀ row ∈ (ofMembers members width).rows, row.length = width := by
    intro row hrow
    obtain ⟨other, -, rfl⟩ := List.mem_map.mp hrow
    rw [length_owners_ofMembers, Nat.min_eq_left (Nat.le_of_lt hranked)]
  have hcount : (ofMembers members width).rows.length = bucketCount := by
    rw [rows, List.length_map, Bucket.all, List.length_finRange]
  have hbucket : bucket.val < (ofMembers members width).rows.length := Nat.lt_of_lt_of_eq bucket.isLt hcount.symm
  rw [take_drop_flatten width hrows hbucket]
  simp only [rows, Bucket.all, List.getElem_map, List.getElem_finRange, Fin.cast_mk, Fin.eta]

theorem recomputeAll_ofMembers (alives : List (π → Bool)) :
    (ofMembers members width).recomputeAll alives =
      ofMembers (members.filter fun m => alives.all fun alive => alive m.member) width := by
  induction alives generalizing members with
  | nil =>
    rw [show members.filter (fun m => ([] : List (π → Bool)).all fun alive => alive m.member) = members from
      List.filter_eq_self.mpr fun _ _ => rfl]
    rfl
  | cons alive rest ih =>
    change ((ofMembers members width).recompute alive).2.recomputeAll rest = _
    rw [recompute_ofMembers, ih, List.filter_filter]
    simp only [List.all_cons, Bool.and_comm]

theorem recomputeAll_create [Ord π] (items : List π) (hash : π → UInt32) (alives : List (π → Bool)) :
    (create items width hash).recomputeAll alives =
      ofMembers ((numbered items hash).filter fun m => alives.all fun alive => alive m.member) width :=
  recomputeAll_ofMembers (numbered items hash) width alives

/-- Members are dropped exactly if one of them is not alive. -/
theorem recompute_fst_iff (sharder : Rendezvous π) (alive : π → Bool) :
    (sharder.recompute alive).1 = true ↔ ∃ m ∈ sharder.memberList, alive m = false := by
  have hlength : (sharder.members.filter fun m => alive m.member).length = sharder.members.length ↔
      ∀ m ∈ sharder.members, alive m.member = true := List.length_filter_eq_length_iff
  have hfirst : (sharder.recompute alive).1 = true ↔
      ¬ (sharder.members.filter fun m => alive m.member).length = sharder.members.length := by
    unfold recompute
    dsimp only
    split
    next h => exact ⟨fun hfalse => absurd hfalse Bool.false_ne_true, fun hne => absurd h hne⟩
    next h => exact ⟨fun _ => h, fun _ => rfl⟩
  rw [hfirst, hlength]
  constructor
  · intro h
    obtain ⟨m, hm, hdead⟩ : ∃ m ∈ sharder.members, ¬ alive m.member = true := by
      by_contra hnone
      exact h fun m hm => by_contra fun hdead => hnone ⟨m, hm, hdead⟩
    exact ⟨m.member, List.mem_map_of_mem hm, Bool.not_eq_true _ ▸ hdead⟩
  · rintro ⟨member, hmember, hdead⟩ hall
    obtain ⟨m, hm, rfl⟩ := List.mem_map.mp hmember
    exact Bool.false_ne_true (hdead.symm.trans (hall m hm))

theorem recompute_snd_of_fst {sharder : Rendezvous π} {alive : π → Bool}
    (h : (sharder.recompute alive).1 = false) : (sharder.recompute alive).2 = sharder := by
  unfold recompute at h ⊢
  dsimp only at h ⊢
  split at h
  next heq => rw [if_pos heq]
  next => contradiction

end Recompute

theorem indexOf?_ofMembers [DecidableEq π] {members : List (RankedMember π)}
    (h : (members.map RankedMember.member).Nodup) (width : Nat) {m : RankedMember π} (hm : m ∈ members) :
    (ofMembers members width).indexOf? m.member = some m.index := by
  change (members.find? fun other => other.member == m.member).map RankedMember.index = _
  rw [find?_key RankedMember.member h hm]
  rfl

section Ascending

variable {members : List (RankedMember π)} (h : members.Pairwise fun a b => a.index < b.index) (width : Nat)

include h

private theorem nodup_index : (members.map RankedMember.index).Nodup :=
  List.pairwise_map.mpr (h.imp Nat.ne_of_lt)

theorem member?_ofMembers {m : RankedMember π} (hm : m ∈ members) :
    (ofMembers members width).member? m.index = some m.member := by
  change (members.find? fun other => other.index == m.index).map RankedMember.member = _
  rw [find?_key RankedMember.index (nodup_index h) hm]
  rfl

theorem survives_ofMembers (alive : π → Bool) {m : RankedMember π} (hm : m ∈ members) :
    (ofMembers members width).survives alive m.index = alive m.member := by
  rw [survives, member?_ofMembers h width hm]
  rfl

private theorem filter_survives (alive : π → Bool) {listed : List (RankedMember π)}
    (hsub : listed ⊆ members) :
    (listed.map RankedMember.index).filter ((ofMembers members width).survives alive) =
      (listed.filter fun m => alive m.member).map RankedMember.index := by
  rw [List.filter_map]
  congr 1
  exact List.filter_congr fun m hm => survives_ofMembers h width alive (hsub hm)

private theorem survives_of_mem_owners (alive : π → Bool) {bucket : Bucket} {index : Nat}
    (howner : index ∈ (ofMembers (members.filter fun m => alive m.member) width).owners bucket) :
    (ofMembers members width).survives alive index = true ∧
      (ofMembers (members.filter fun m => alive m.member) width).member? index =
        (ofMembers members width).member? index := by
  obtain ⟨m, hm, rfl⟩ := List.mem_map.mp (mem_of_mem_owners_ofMembers howner)
  obtain ⟨hmember, halive⟩ := List.mem_filter.mp hm
  rw [survives_ofMembers h width alive hmember, member?_ofMembers h width hmember,
    member?_ofMembers (h.filter _) width hm]
  exact ⟨halive, rfl⟩

private theorem owners_of_everyone (alive : π → Bool) (bucket : Bucket) (hall : members.length ≤ width) :
    (ofMembers (members.filter fun m => alive m.member) width).owners bucket =
      ((ofMembers members width).owners bucket).filter ((ofMembers members width).survives alive) := by
  have hkept : (members.filter fun m => alive m.member).length ≤ width :=
    Nat.le_trans (List.length_filter_le _ members) hall
  rw [owners_ofMembers, owners_ofMembers, if_pos hall, if_pos hkept,
    filter_survives h width alive (List.Subset.refl members)]

/-- The owners that survive come first in the ranking of the survivors. -/
private theorem filter_owners_prefix_ranking (alive : π → Bool) (bucket : Bucket)
    (hranked : width < members.length) :
    ((ofMembers members width).owners bucket).filter ((ofMembers members width).survives alive) <+:
      (ranking (members.filter fun m => alive m.member) bucket).take width := by
  have hsub : (RankedMember.ranked bucket members).take width ⊆ members := fun m hm =>
    RankedMember.mem_ranked.mp (List.mem_of_mem_take hm)
  rw [owners_ofMembers, if_neg (Nat.not_le.mpr hranked), ranking_eq, ranking_eq, ← List.map_take,
    filter_survives h width alive hsub, ← List.map_take,
    ← RankedMember.ranked_filter bucket (nodup_index h)]
  refine List.IsPrefix.map _ (List.prefix_take_iff.mpr ⟨(List.take_prefix _ _).filter _, ?_⟩)
  exact Nat.le_trans (List.length_filter_le _ _) (List.length_take_le _ _)

end Ascending

/-- Dropping members keeps every bucket with the owners that survive. They stay in front where buckets are
ranked, and nothing else changes where all members own every bucket. -/
theorem recompute_disrupts_least [Ord π] (items : List π) (width : Nat) (hash : π → UInt32)
    (alives : List (π → Bool)) (alive : π → Bool) (bucket : Bucket) :
    let before := (create items width hash).recomputeAll alives
    let after := (before.recompute alive).2
    (∀ index ∈ before.owners bucket, before.survives alive index = true → index ∈ after.owners bucket) ∧
    (∀ index ∈ after.owners bucket,
      before.survives alive index = true ∧ after.member? index = before.member? index) ∧
    (before.isPredefined = false → after.isPredefined = false →
      (before.owners bucket).filter (before.survives alive) <+: after.owners bucket ∧
      ((∀ index ∈ before.owners bucket, before.survives alive index = true) →
        after.owners bucket = before.owners bucket)) ∧
    (before.isPredefined = true → after.isPredefined = true ∧
      after.owners bucket = (before.owners bucket).filter (before.survives alive)) ∧
    (before.isPredefined = false → after.isPredefined = true →
      (∀ index ∈ before.owners bucket, before.survives alive index = true) →
      (after.owners bucket).Perm (before.owners bucket) ∧ (after.owners bucket).Pairwise (· < ·)) := by
  rw [recomputeAll_create]
  generalize hmembers : (numbered items hash).filter
    (fun m => alives.all fun alive => alive m.member) = members
  have hasc : members.Pairwise fun a b => a.index < b.index := hmembers ▸ (numbered_ascending items hash).filter _
  clear hmembers
  dsimp only
  rw [recompute_ofMembers, isPredefined_ofMembers, isPredefined_ofMembers]
  simp only [decide_eq_true_eq, decide_eq_false_iff_not, Nat.not_le]
  have hbegins := filter_owners_prefix_ranking hasc width alive bucket
  have hafter := owners_ofMembers (members.filter fun m => alive m.member) width bucket
  refine ⟨?_, fun index => survives_of_mem_owners hasc width alive, ?_, ?_, ?_⟩
  · intro index howner hsurvives
    have hkept := List.mem_filter.mpr ⟨howner, hsurvives⟩
    rcases Nat.lt_or_ge width members.length with hranked | hall
    · have hranking := List.mem_of_mem_take ((hbegins hranked).subset hkept)
      rw [hafter]
      split
      next => exact (ranking_perm _ bucket).subset hranking
      next => exact (hbegins hranked).subset hkept
    · rwa [owners_of_everyone hasc width alive bucket hall]
  · intro hranked hstill
    rw [if_neg (Nat.not_le.mpr hstill)] at hafter
    rw [hafter]
    refine ⟨hbegins hranked, fun hall => ?_⟩
    have hsame := hbegins hranked
    rw [List.filter_eq_self.mpr hall] at hsame
    refine (hsame.eq_of_length ?_).symm
    rw [← hafter, length_owners_ofMembers, length_owners_ofMembers]
    omega
  · intro hall
    exact ⟨Nat.le_trans (List.length_filter_le _ members) hall, owners_of_everyone hasc width alive bucket hall⟩
  · intro hranked hshrunk hall
    rw [if_pos hshrunk] at hafter
    have hsame := hbegins hranked
    rw [List.filter_eq_self.mpr hall] at hsame
    have hranking := ranking_perm (members.filter fun m => alive m.member) bucket
    have hfits : (ranking (members.filter fun m => alive m.member) bucket).length ≤ width := by
      rwa [hranking.length_eq, List.length_map]
    rw [List.take_of_length_le hfits] at hsame
    have heq := hsame.eq_of_length_le (by
      rw [length_owners_ofMembers]
      omega)
    rw [hafter, heq]
    exact ⟨hranking.symm, List.pairwise_map.mpr (hasc.filter _)⟩

/-- One of four members is dropped, and the buckets stay ranked. -/
theorem recompute_disrupts_least_of_four :
    let before := create [1, 3, 4, 5] 2 UInt32.ofNat
    let after := (before.recompute fun n => n != 4).2
    before.isPredefined = false ∧ after.isPredefined = false ∧
      ∀ bucket, (before.owners bucket).filter (before.survives fun n => n != 4) <+: after.owners bucket := by
  have hcreate : create [1, 3, 4, 5] 2 UInt32.ofNat =
      ofMembers [⟨1, 0, 1⟩, ⟨3, 1, 3⟩, ⟨4, 2, 4⟩, ⟨5, 3, 5⟩] 2 := by
    rw [create, sortedDistinct_eq_self (by decide)]
    rfl
  have hbefore : (create [1, 3, 4, 5] 2 UInt32.ofNat).isPredefined = false := by
    rw [hcreate, isPredefined_ofMembers]
    rfl
  have hafter : ((create [1, 3, 4, 5] 2 UInt32.ofNat).recompute fun n => n != 4).2.isPredefined = false := by
    rw [hcreate, recompute_ofMembers, isPredefined_ofMembers]
    rfl
  refine ⟨hbefore, hafter, fun bucket => ?_⟩
  obtain ⟨-, -, htable, -⟩ :=
    recompute_disrupts_least [1, 3, 4, 5] 2 UInt32.ofNat [] (fun n => n != 4) bucket
  exact (htable hbefore hafter).1

section Renumbering

/-- The place of a number among the numbers of some members. -/
private def placeOf (members : List (RankedMember π)) (index : Nat) : Nat :=
  (members.map RankedMember.index).idxOf index

private theorem placeOf_getElem {members : List (RankedMember π)}
    (hasc : members.Pairwise fun a b => a.index < b.index) {i : Nat} (hi : i < members.length) :
    placeOf members members[i].index = i := by
  have hplace := (nodup_index hasc).idxOf_getElem i (by rwa [List.length_map])
  rwa [List.getElem_map] at hplace

private theorem placeOf_le_iff {members : List (RankedMember π)}
    (hasc : members.Pairwise fun a b => a.index < b.index) {a b : RankedMember π} (ha : a ∈ members)
    (hb : b ∈ members) : placeOf members a.index ≤ placeOf members b.index ↔ a.index ≤ b.index := by
  obtain ⟨i, hi, rfl⟩ := List.getElem_of_mem ha
  obtain ⟨j, hj, rfl⟩ := List.getElem_of_mem hb
  rw [placeOf_getElem hasc hi, placeOf_getElem hasc hj]
  have hlt := List.pairwise_iff_getElem.mp hasc
  rcases Nat.lt_trichotomy i j with hij | rfl | hji
  · exact iff_of_true (Nat.le_of_lt hij) (Nat.le_of_lt (hlt i j hi hj hij))
  · exact iff_of_true (Nat.le_refl i) (Nat.le_refl _)
  · exact iff_of_false (Nat.not_le.mpr hji) (Nat.not_le.mpr (hlt j i hj hi hji))

/-- Numbering members anew in their order changes their owners to the new numbers. -/
private theorem owners_renamed {members : List (RankedMember π)} (width : Nat) (rename : Nat → Nat)
    (h : ∀ a ∈ members, ∀ b ∈ members, rename a.index ≤ rename b.index ↔ a.index ≤ b.index)
    (bucket : Bucket) :
    (ofMembers (members.map fun m => { m with index := rename m.index }) width).owners bucket =
      ((ofMembers members width).owners bucket).map rename := by
  rw [owners_ofMembers, owners_ofMembers, List.length_map]
  split
  next => simp only [List.map_map, Function.comp_def]
  next =>
    rw [ranking_eq, ranking_eq, ← RankedMember.ranked_map bucket members rename h]
    simp only [List.map_map, List.map_take, Function.comp_def]

end Renumbering

section Shares

/-- What a sharder answers whose members are those of a list that were kept, under their places in the
whole list. -/
structure Shares (original : List π) (hash : π → UInt32) (kept : π → Prop) (sharder : Rendezvous π)
    [DecidableEq π] : Prop where
  mem_memberList : ∀ member, member ∈ sharder.memberList ↔ member ∈ original ∧ kept member
  place : ∀ m ∈ sharder.members, original[m.index]? = some m.member ∧ m.hash = hash m.member
  lookup : ∀ m ∈ sharder.members,
    sharder.member? m.index = some m.member ∧ sharder.indexOf? m.member = some m.index
  ascending : (sharder.members.map RankedMember.index).Pairwise (· < ·)
  everyone : sharder.size ≤ sharder.width → sharder.isPredefined = true ∧
    ∀ bucket, sharder.owners bucket = sharder.members.map RankedMember.index
  ranked : sharder.width < sharder.size → sharder.isPredefined = false ∧ ∀ bucket : Bucket,
    ∃ ranked : List (RankedMember π), ranked.Perm sharder.members ∧
      ranked.Pairwise (RankedMember.Outranks bucket) ∧
      sharder.owners bucket = (ranked.take sharder.width).map RankedMember.index
  found : ∀ bucket : Bucket, sharder.owners? bucket = some (sharder.owners bucket)
  owners : ∀ bucket, (sharder.owners bucket).Nodup ∧
    (sharder.owners bucket).length = min sharder.width sharder.size ∧
    ∀ index ∈ sharder.owners bucket, index < original.length
  flat : sharder.width < sharder.size → ∀ bucket : Bucket,
    (sharder.rows.flatten.drop (bucket * sharder.width)).take sharder.width = sharder.owners bucket

variable [Ord π] (items : List π) (hash : π → UInt32)

private theorem nodup_member [Std.TransOrd π] :
    ((numbered items hash).map RankedMember.member).Nodup := by
  rw [map_member_numbered]
  exact sortedDistinct_nodup items

private theorem shares_filter [Std.TransOrd π] [DecidableEq π] (width : Nat) (kept : π → Bool) :
    (ofMembers ((numbered items hash).filter fun m => kept m.member) width).Shares
      (sortedDistinct items) hash (fun member => kept member = true) := by
  generalize hmembers : (numbered items hash).filter (fun m => kept m.member) = members
  have hsub : members.Sublist (numbered items hash) := hmembers ▸ List.filter_sublist
  have hasc : members.Pairwise fun a b => a.index < b.index := (numbered_ascending items hash).sublist hsub
  have hplace : ∀ m ∈ members, (sortedDistinct items)[m.index]? = some m.member ∧ m.hash = hash m.member :=
    fun m hm => (mem_numbered items hash).mp (hsub.subset hm)
  have howners := owners_ofMembers members width
  exact {
    mem_memberList := by
      intro member
      rw [← map_member_numbered items hash]
      change member ∈ members.map RankedMember.member ↔ _
      constructor
      · intro h
        obtain ⟨m, hm, rfl⟩ := List.mem_map.mp h
        obtain ⟨hmember, hkept⟩ := List.mem_filter.mp (hmembers ▸ hm)
        exact ⟨List.mem_map_of_mem hmember, hkept⟩
      · rintro ⟨h, hkept⟩
        obtain ⟨m, hm, rfl⟩ := List.mem_map.mp h
        exact List.mem_map_of_mem (hmembers ▸ List.mem_filter.mpr ⟨hm, hkept⟩)
    place := hplace
    lookup := by
      intro m hm
      refine ⟨member?_ofMembers hasc width hm, indexOf?_ofMembers ?_ width hm⟩
      exact (nodup_member items hash).sublist (hsub.map RankedMember.member)
    ascending := List.pairwise_map.mpr hasc
    everyone := by
      intro hall
      rw [isPredefined_ofMembers]
      exact ⟨decide_eq_true hall, fun bucket => (howners bucket).trans (if_pos hall)⟩
    ranked := by
      intro hranked
      rw [isPredefined_ofMembers]
      refine ⟨decide_eq_false (Nat.not_le.mpr hranked), fun bucket => ?_⟩
      refine ⟨RankedMember.ranked bucket members, RankedMember.ranked_perm bucket members,
        RankedMember.ranked_outranks bucket (nodup_index hasc), ?_⟩
      have hlong : ¬ members.length ≤ width := Nat.not_le.mpr hranked
      rw [howners, if_neg hlong, ranking_eq, ← List.map_take]
      rfl
    found := owners?_ofMembers members width
    owners := by
      intro bucket
      refine ⟨nodup_owners_ofMembers width bucket (nodup_index hasc),
        length_owners_ofMembers members width bucket, fun index howner => ?_⟩
      obtain ⟨m, hm, rfl⟩ := List.mem_map.mp (mem_of_mem_owners_ofMembers howner)
      exact (List.getElem?_eq_some_iff.mp (hplace m hm).1).1
    flat := fun hranked => take_drop_rows members width hranked }

private theorem numbered_survivors [Std.TransOrd π] [Std.LawfulEqOrd π] {members : List (RankedMember π)}
    (hsub : members.Sublist (numbered items hash)) {survivors : List π}
    (h : ∀ member, member ∈ survivors ↔ member ∈ members.map RankedMember.member) :
    numbered survivors hash = members.map fun m => { m with index := placeOf members m.index } := by
  have hasc := (numbered_ascending items hash).sublist hsub
  have hsorted : sortedDistinct survivors = members.map RankedMember.member := by
    refine eq_of_ascending (sortedDistinct_ascending survivors) ?_ fun member => ?_
    · have hwhole := sortedDistinct_ascending items
      rw [← map_member_numbered items hash] at hwhole
      exact hwhole.sublist (hsub.map RankedMember.member)
    · rw [mem_sortedDistinct_iff, h]
  unfold numbered
  rw [hsorted]
  refine List.ext_getElem (by simp only [List.length_map, List.length_zipIdx]) fun i hi hi' => ?_
  have hlength : i < members.length := by rwa [List.length_map] at hi'
  have hhash := ((mem_numbered items hash).mp (hsub.subset (List.getElem_mem hlength))).2
  simp only [List.getElem_map, List.getElem_zipIdx, Nat.zero_add, placeOf_getElem hasc hlength, hhash]

end Shares

/-- However its membership was recomputed, a sharder shares the buckets among the members that were alive
every time. Nothing else of the past matters, and a sharder made of these members alone differs by their
numbers only. -/
theorem recomputeAll_exact [Ord π] [Std.TransOrd π] [Std.LawfulEqOrd π] [DecidableEq π] (items : List π)
    (width : Nat) (hash : π → UInt32) (alives : List (π → Bool)) :
    let sharder := (create items width hash).recomputeAll alives
    let original := sortedDistinct items
    original.Pairwise (fun a b => compare a b = .lt) ∧ (∀ member, member ∈ original ↔ member ∈ items) ∧
    sharder.width = width ∧
    sharder.Shares original hash (fun member => ∀ alive ∈ alives, alive member = true) ∧
    (∀ others : List (π → Bool),
      (∀ member ∈ items,
        (∀ alive ∈ others, alive member = true) ↔ ∀ alive ∈ alives, alive member = true) →
      (create items width hash).recomputeAll others = sharder) ∧
    (∀ survivors : List π, (∀ member, member ∈ survivors ↔ member ∈ sharder.memberList) →
      ∃ rename : Nat → Nat,
        (∀ a ∈ sharder.members, ∀ b ∈ sharder.members,
          rename a.index ≤ rename b.index ↔ a.index ≤ b.index) ∧
        (create survivors width hash).members =
          sharder.members.map (fun m => { m with index := rename m.index }) ∧
        (create survivors width hash).isPredefined = sharder.isPredefined ∧
        ∀ bucket, (create survivors width hash).owners bucket = (sharder.owners bucket).map rename) ∧
    ∀ alive : π → Bool,
      ((sharder.recompute alive).1 = true ↔ ∃ member ∈ sharder.memberList, alive member = false) ∧
      ((sharder.recompute alive).1 = false → (sharder.recompute alive).2 = sharder) := by
  have hclosed := recomputeAll_create width items hash
  have hshares := shares_filter items hash width fun member => alives.all fun alive => alive member
  dsimp only
  refine ⟨sortedDistinct_ascending items, mem_sortedDistinct_iff items, ?_, ?_, ?_, ?_,
    fun alive => ⟨recompute_fst_iff _ alive, recompute_snd_of_fst⟩⟩
  · rw [hclosed]
    rfl
  · rw [hclosed]
    simpa only [List.all_eq_true] using hshares
  · intro others hsame
    rw [hclosed, hclosed]
    congr 1
    refine List.filter_congr fun m hm => ?_
    have hmember : m.member ∈ items := by
      refine (mem_sortedDistinct_iff items m.member).mp ?_
      exact List.mem_of_getElem? ((mem_numbered items hash).mp hm).1
    rw [Bool.eq_iff_iff, List.all_eq_true, List.all_eq_true]
    exact hsame m.member hmember
  · intro survivors hsurvivors
    rw [hclosed] at hsurvivors ⊢
    generalize hmembers : (numbered items hash).filter
      (fun m => alives.all fun alive => alive m.member) = members at hsurvivors ⊢
    have hsub : members.Sublist (numbered items hash) := hmembers ▸ List.filter_sublist
    have horder : ∀ a ∈ members, ∀ b ∈ members,
        placeOf members a.index ≤ placeOf members b.index ↔ a.index ≤ b.index :=
      fun a ha b hb => placeOf_le_iff ((numbered_ascending items hash).sublist hsub) ha hb
    have hfresh : create survivors width hash =
        ofMembers (members.map fun m => { m with index := placeOf members m.index }) width :=
      congrArg (ofMembers · width) (numbered_survivors items hash hsub hsurvivors)
    rw [hfresh]
    refine ⟨placeOf members, horder, rfl, ?_, owners_renamed width _ horder⟩
    rw [isPredefined_ofMembers, isPredefined_ofMembers, List.length_map]

/-- Two members out of four are dropped one after the other, as if they had been at once. -/
theorem recomputeAll_exact_of_four :
    let sharder := (create [3, 1, 4, 1, 5] 2 UInt32.ofNat).recomputeAll [fun n => n != 4, fun n => n != 1]
    4 ∉ sharder.memberList ∧ 5 ∈ sharder.memberList ∧
      (create [3, 1, 4, 1, 5] 2 UInt32.ofNat).recomputeAll [fun n => n != 4 && n != 1] = sharder ∧
      (sharder.recompute fun n => n != 5).1 = true := by
  obtain ⟨-, hitems, -, hshares, hpath, -, hdrops⟩ :=
    recomputeAll_exact [3, 1, 4, 1, 5] 2 UInt32.ofNat [fun n => n != 4, fun n => n != 1]
  have hfive := (hshares.mem_memberList 5).mpr ⟨(hitems 5).mpr (by decide), by decide⟩
  refine ⟨fun hfour => ?_, hfive, hpath _ (by decide), (hdrops _).1.mpr ⟨5, hfive, rfl⟩⟩
  exact absurd (((hshares.mem_memberList 4).mp hfour).2 (fun n => n != 4) List.mem_cons_self) (by decide)

end Rendezvous

end ReplicatedStore
