import Mathlib.Data.List.Perm.Subperm
import ReplicatedStore.Proofs.Routing.Quorums
/-!
# Quorums that meet

A write counts its quorum among the owners that a bucket has while some members are dead, a read counts its
own among the owners that it has while all are alive. Where keys move these are different partitions, so
two majorities may have none in common. Whether they do depends on how many owners a bucket has lost.
-/

namespace ReplicatedStore

section Lists

variable {α : Type}

private theorem length_le_countP {p : α → Bool} {items among : List α} (hitems : items.Nodup)
    (hsub : items ⊆ among) (h : ∀ a ∈ items, p a = true) : items.length ≤ among.countP p := by
  rw [List.countP_eq_length_filter]
  exact (hitems.subperm fun a ha => List.mem_filter.mpr ⟨hsub ha, h a ha⟩).length_le

private theorem length_eq_countP (p : α → Bool) (items : List α) :
    items.length = items.countP p + items.countP fun a => !p a := by
  simpa only [Bool.not_eq_true, Bool.decide_eq_false] using List.length_eq_countP_add_countP p

private theorem mem_take_filter {p : α → Bool} {items : List α} {n : Nat} {a : α} (ha : a ∈ items.take n)
    (hp : p a = true) : a ∈ (items.filter p).take n := by
  have hprefix : (items.take n).filter p <+: (items.filter p).take n := by
    refine List.prefix_take_iff.mpr ⟨(List.take_prefix n items).filter p, ?_⟩
    exact Nat.le_trans (List.length_filter_le p _) (List.length_take_le n items)
  exact hprefix.subset (List.mem_filter.mpr ⟨ha, hp⟩)

variable [DecidableEq α] {written relied : List α}

private theorem exists_common {p q : α → Bool} (hwritten : written.Nodup) (hrelied : relied.Nodup)
    (h : written.length + relied.countP (fun a => !written.contains a) <
      written.countP p + relied.countP q) :
    ∃ a ∈ written, p a = true ∧ q a = true := by
  by_contra hnone
  have hapart : (written.filter p).Disjoint (relied.filter q) := by
    intro a hp hq
    obtain ⟨hmem, hp⟩ := List.mem_filter.mp hp
    exact hnone ⟨a, hmem, hp, (List.mem_filter.mp hq).2⟩
  have hsub : written.filter p ++ relied.filter q ⊆
      written ++ relied.filter fun a => !written.contains a := by
    intro a ha
    rcases List.mem_append.mp ha with hp | hq
    · exact List.mem_append_left _ (List.mem_of_mem_filter hp)
    · by_cases hmem : a ∈ written
      · exact List.mem_append_left _ hmem
      · exact List.mem_append_right _ (List.mem_filter.mpr ⟨List.mem_of_mem_filter hq, by simpa using hmem⟩)
  have hle := (((hwritten.filter p).append (hrelied.filter q) hapart).subperm hsub).length_le
  simp only [List.length_append, ← List.countP_eq_length_filter] at hle
  omega

/-- If both numbers fit into the two lists together, that many of the first list may be chosen and leave that
many of the second: those that the second list does not have are chosen first. -/
private theorem exists_apart {m n : Nat} (hwritten : written.Nodup) (hrelied : relied.Nodup)
    (hm : m ≤ written.length) (hn : n ≤ relied.length)
    (h : m + n ≤ written.length + relied.countP fun a => !written.contains a) :
    ∃ chosen : List α, m ≤ written.countP chosen.contains ∧
      n ≤ relied.countP fun a => !chosen.contains a := by
  let fresh := written.filter fun a => !relied.contains a
  let shared := written.filter relied.contains
  have hsplit : (fresh ++ shared).Perm written := by
    simpa only [Bool.not_not] using List.filter_append_perm (fun a => !relied.contains a) written
  have hlength := hsplit.length_eq
  rw [List.length_append] at hlength
  have hsub : (fresh ++ shared).take m ⊆ written := fun a ha => hsplit.subset (List.mem_of_mem_take ha)
  have hnodup := (hsplit.nodup_iff.mpr hwritten).sublist (List.take_sublist m (fresh ++ shared))
  refine ⟨(fresh ++ shared).take m, ?_, ?_⟩
  · calc m = ((fresh ++ shared).take m).length := by
          rw [List.length_take, List.length_append, hlength, Nat.min_eq_left hm]
      _ ≤ written.countP ((fresh ++ shared).take m).contains :=
          length_le_countP hnodup hsub fun a ha => List.contains_iff_mem.mpr ha
  · -- what the second list loses is chosen after all that it does not have
    have htaken : relied.countP ((fresh ++ shared).take m).contains ≤ m - fresh.length := by
      have hshared : relied.filter ((fresh ++ shared).take m).contains ⊆ shared.take (m - fresh.length) := by
        intro a ha
        obtain ⟨hrelied, hchosen⟩ := List.mem_filter.mp ha
        rw [List.contains_iff_mem, List.take_append] at hchosen
        refine (List.mem_append.mp hchosen).resolve_left fun hfresh => ?_
        have hnot := (List.mem_filter.mp (List.mem_of_mem_take hfresh)).2
        rw [List.contains_iff_mem.mpr hrelied] at hnot
        contradiction
      have hle := ((hrelied.filter _).subperm hshared).length_le
      rw [← List.countP_eq_length_filter, List.length_take] at hle
      omega
    have hcommon : shared.length ≤ relied.countP written.contains := by
      refine length_le_countP (hwritten.filter _) (fun a ha => ?_) fun a ha => ?_
      · exact List.contains_iff_mem.mp (List.mem_filter.mp ha).2
      · exact List.contains_iff_mem.mpr (List.mem_of_mem_filter ha)
    have hwhole := length_eq_countP written.contains relied
    have hleft := length_eq_countP ((fresh ++ shared).take m).contains relied
    omega

end Lists

namespace PartitionGroup

variable (group : PartitionGroup) (hash : PartitionId → UInt32) (alive : PartitionId → Bool)
  (bucket : Bucket)

theorem length_route : (group.route hash alive bucket).length =
    min group.replicas (group.candidates alive).length := by
  obtain ⟨ranked, hperm, -, htop, -⟩ := group.isRoute_route hash alive bucket
  rw [htop.length_eq, List.length_take, hperm.length_eq]

theorem nodup_route : (group.route hash alive bucket).Nodup := by
  obtain ⟨ranked, hperm, -, htop, -⟩ := group.isRoute_route hash alive bucket
  have hcandidates : (group.candidates alive).Nodup := (sortedDistinct_nodup group.members).filter _
  exact htop.nodup_iff.mpr ((hperm.nodup_iff.mpr hcandidates).sublist (List.take_sublist ..))

theorem length_route_all : (group.route hash (fun _ => true) bucket).length = group.replicaCount := by
  have hcandidates : group.candidates (fun _ => true) = sortedDistinct group.members :=
    List.filter_eq_self.mpr fun _ _ => Bool.or_true _
  rw [length_route, hcandidates, replicaCount]

theorem route_of_not_repartition (h : group.repartition = false) :
    group.route hash alive bucket = group.route hash (fun _ => true) bucket := by
  simp only [route, chosen, sharing, h, Bool.false_eq_true, if_false]

variable {group hash alive bucket}

theorem mem_route_of_alive {member : PartitionId}
    (hmember : member ∈ group.route hash (fun _ => true) bucket) (halive : alive member = true) :
    member ∈ group.route hash alive bucket := by
  obtain ⟨m, hm, rfl⟩ := List.mem_map.mp hmember
  have hkept : (!group.repartition || alive m.member) = true := by rw [halive, Bool.or_true]
  refine List.mem_map_of_mem ?_
  unfold chosen
  split
  next =>
    have hnumbered := group.chosen_subset hash (fun _ => true) bucket hm
    rw [sharing_all_alive] at hnumbered
    rw [sharing_eq_filter]
    exact List.mem_filter.mpr ⟨hnumbered, hkept⟩
  next hmany =>
    have hmore : ¬ (group.numbered hash).length ≤ group.replicas := fun hfew =>
      hmany (Nat.le_trans (group.sharing_sublist hash alive).length_le hfew)
    rw [chosen, sharing_all_alive, if_neg hmore] at hm
    rw [sharing_eq_filter, ← RankedMember.ranked_filter bucket (group.nodup_index_numbered hash)]
    exact mem_take_filter hm hkept

/-- How many of the partitions that own a bucket while all members are alive do not own it while some are
dead. -/
def moved (group : PartitionGroup) (hash : PartitionId → UInt32) (alive : PartitionId → Bool)
    (bucket : Bucket) : Nat :=
  (group.route hash (fun _ => true) bucket).countP fun member => !(group.route hash alive bucket).contains member

/-- The owners of a bucket while some members are dead, and those that it has while all are alive, are
together fewer than the quorum of a write and the quorum of a read. -/
def QuorumsMeet (group : PartitionGroup) (hash : PartitionId → UInt32) (alive : PartitionId → Bool)
    (write read : Quorum) (bucket : Bucket) : Prop :=
  (group.route hash alive bucket).length + group.moved hash alive bucket <
    write.required (group.route hash alive bucket).length + read.required group.replicaCount

theorem moved_of_not_repartition (h : group.repartition = false) : group.moved hash alive bucket = 0 := by
  rw [moved, group.route_of_not_repartition hash alive bucket h, List.countP_eq_zero]
  intro member hmember
  simpa using hmember

/-- Where keys move, a bucket leaves the owners that are dead and no others. -/
theorem moved_of_repartition (h : group.repartition = true) :
    group.moved hash alive bucket =
      (group.route hash (fun _ => true) bucket).countP fun member => !alive member := by
  refine List.countP_congr fun member hmember => ?_
  have hiff : member ∈ group.route hash alive bucket ↔ alive member = true := by
    refine ⟨fun hroute => ?_, mem_route_of_alive hmember⟩
    have hcandidate :=
      group.subset_candidates hash alive (group.isRoute_route hash alive bucket) hroute
    simpa only [h, Bool.not_true, Bool.false_or] using (List.mem_filter.mp hcandidate).2
  rw [Bool.not_eq_true', Bool.not_eq_true', ← Bool.not_eq_true, ← Bool.not_eq_true, List.contains_iff_mem, hiff]

theorem quorumsMeet_of_moved_eq_zero {write read : Quorum} (h : group.moved hash alive bucket = 0)
    (hquorum : group.replicaCount < write.required group.replicaCount + read.required group.replicaCount) :
    group.QuorumsMeet hash alive write read bucket := by
  have hkept : group.route hash (fun _ => true) bucket ⊆ group.route hash alive bucket := by
    intro member hmember
    simpa using List.countP_eq_zero.mp h member hmember
  have hmore := ((group.nodup_route hash _ bucket).subperm hkept).length_le
  have hcandidates : (group.candidates alive).length ≤ (sortedDistinct group.members).length :=
    List.length_filter_le _ _
  have hlength : (group.route hash alive bucket).length = group.replicaCount := by
    rw [length_route_all, length_route] at hmore
    rw [length_route]
    unfold replicaCount at hmore ⊢
    omega
  rw [QuorumsMeet, h, hlength]
  exact hquorum

end PartitionGroup

namespace PartitionScheme

variable {γ : Type} {hash : PartitionId → UInt32} {scheme : PartitionScheme γ}

private theorem exists_isAt (hwell : scheme.WellFormed hash) (p : PartitionId → Bool) :
    ∃ positions : IndexSet, ∀ partition ∈ scheme.identities, scheme.isAt positions partition = p partition := by
  refine ⟨.ofList ((List.range scheme.identities.length).filter fun index =>
    (scheme.identities[index]?).any p), fun partition hmem => ?_⟩
  obtain ⟨index, hget⟩ := List.mem_iff_getElem?.mp hmem
  have hlt := (List.getElem?_eq_some_iff.mp hget).1
  rw [isAt_of_getElem? hwell hget, Std.TreeSet.contains_ofList, Bool.eq_iff_iff, List.contains_iff_mem,
    List.mem_filter, hget, Option.any_some, List.mem_range]
  exact and_iff_right hlt

private theorem mem_identities_of_mem_route (hwell : scheme.WellFormed hash) {group : PartitionGroup}
    (hgroup : group ∈ scheme.groups) {alive : PartitionId → Bool} {bucket : Bucket} {partition : PartitionId}
    (h : partition ∈ group.route hash alive bucket) : partition ∈ scheme.identities := by
  have hcandidate := group.subset_candidates hash alive (group.isRoute_route hash alive bucket) h
  exact hwell.mem_identities group hgroup partition
    (mem_of_mem_sortedDistinct (List.mem_of_mem_filter hcandidate))

theorem exists_mem_replicaSet (hwell : scheme.WellFormed hash) {group : PartitionGroup}
    (hgroup : group ∈ scheme.groups) {alive : PartitionId → Bool} {bucket : Bucket} {partition : PartitionId}
    (h : partition ∈ group.route hash alive bucket) :
    ∃ index ∈ scheme.replicaSet hash alive group bucket, scheme.identities[index]? = some partition := by
  have hroute := GroupSharder.map_getElem?_replicas scheme.identities hash group alive bucket
    (hwell.mem_identities group hgroup)
  have hmem := List.mem_map_of_mem (f := some) h
  rw [← hroute] at hmem
  exact List.mem_map.mp hmem

/-- In a bucket the quorums of a write and of a read have a partition in common, whatever has failed, exactly
if they do not fit into the owners of the bucket together. -/
theorem quorumsMeet_iff (hwell : scheme.WellFormed hash) {group : PartitionGroup}
    (hgroup : group ∈ scheme.groups) {alive : PartitionId → Bool} {write read : Quorum} {bucket : Bucket} :
    group.QuorumsMeet hash alive write read bucket ↔
      ∀ failed lost, scheme.KeepsQuorum hash alive failed write group bucket →
        scheme.KeepsQuorum hash (fun _ => true) lost read group bucket →
        ∃ partition ∈ group.route hash alive bucket,
          scheme.isAt failed partition = false ∧ scheme.isAt lost partition = false := by
  constructor
  · intro hmeet failed lost hwrite hread
    rw [keepsQuorum_iff] at hwrite hread
    rw [PartitionGroup.QuorumsMeet, ← group.length_route_all hash bucket] at hmeet
    obtain ⟨partition, hpartition, hfailed, hlost⟩ := exists_common (group.nodup_route hash alive bucket)
      (group.nodup_route hash _ bucket) (Nat.lt_of_lt_of_le hmeet (Nat.add_le_add hwrite hread))
    refine ⟨partition, hpartition, ?_, ?_⟩
    · simpa using hfailed
    · simpa using hlost
  · intro hcommon
    by_contra hfew
    rw [PartitionGroup.QuorumsMeet, ← group.length_route_all hash bucket, Nat.not_lt] at hfew
    obtain ⟨chosen, hwrite, hread⟩ := exists_apart (group.nodup_route hash alive bucket)
      (group.nodup_route hash _ bucket) (Nat.min_le_right ..) (Nat.min_le_right ..) hfew
    -- the write fails at all partitions but those chosen, and the read loses exactly these
    obtain ⟨failed, hfailed⟩ := exists_isAt hwell fun partition => !chosen.contains partition
    obtain ⟨lost, hlost⟩ := exists_isAt hwell chosen.contains
    have hkeepsWrite : scheme.KeepsQuorum hash alive failed write group bucket := by
      refine keepsQuorum_iff.mpr (Nat.le_trans hwrite (List.countP_mono_left fun partition hmem hchosen => ?_))
      rw [hfailed _ (mem_identities_of_mem_route hwell hgroup hmem), Bool.not_not, hchosen]
    have hkeepsRead : scheme.KeepsQuorum hash (fun _ => true) lost read group bucket := by
      refine keepsQuorum_iff.mpr (Nat.le_trans hread (List.countP_mono_left fun partition hmem hleft => ?_))
      rw [hlost _ (mem_identities_of_mem_route hwell hgroup hmem), hleft]
    obtain ⟨partition, hpartition, htaken, hfound⟩ := hcommon failed lost hkeepsWrite hkeepsRead
    have hmem := mem_identities_of_mem_route hwell hgroup hpartition
    rw [hfailed _ hmem] at htaken
    rw [hlost _ hmem] at hfound
    rw [hfound] at htaken
    contradiction

end PartitionScheme

end ReplicatedStore
