import Mathlib.Data.List.Perm.Subperm
import ReplicatedStore.Proofs.Cluster.Probing
import ReplicatedStore.Proofs.Cluster.Verdict
/-!
# What aggregate failures name

The error of an operation in which too many partitions failed names them, and says how many took part. The
names come from positions in a scheme, so they are sorted, each there once, and all of them partitions of the
scheme. There is at least one, as no quorum is lost while no partition has failed.
-/

namespace ReplicatedStore

variable {γ : Type}

section Counts

theorem nodup_toList (indices : IndexSet) : indices.toList.Nodup := by
  refine Std.TreeSet.distinct_toList.imp fun hdistinct heq => hdistinct ?_
  exact Nat.compare_eq_eq.mpr heq

theorem size_eq_countP {indices : IndexSet} {bound : Nat} (h : ∀ index ∈ indices, index < bound) :
    indices.size = (List.range bound).countP indices.contains := by
  rw [← Std.TreeSet.length_toList, List.countP_eq_length_filter]
  refine List.Perm.length_eq ?_
  rw [List.perm_ext_iff_of_nodup (nodup_toList indices) (List.nodup_range.filter _)]
  intro index
  rw [Std.TreeSet.mem_toList, List.mem_filter, List.mem_range, ← Std.TreeSet.mem_iff_contains]
  exact ⟨fun hmem => ⟨h index hmem, hmem⟩, And.right⟩

theorem length_sortedDistinct_le {names others : List PartitionId} (h : names ⊆ others) :
    (sortedDistinct names).length ≤ others.length :=
  ((sortedDistinct_nodup names).subperm fun _ hmem => h (mem_of_mem_sortedDistinct hmem)).length_le

end Counts

/-- An aggregate failure names partitions of a scheme, in order and each once, and at least one of them. They are
among those that took part. -/
structure FailedPartitions.Truthful (failure : FailedPartitions) (scheme : PartitionScheme γ) (total : Nat) :
    Prop where
  nonempty : failure.failed ≠ []
  sorted : failure.failed.Pairwise fun a b => compare a b = .lt
  members : ∀ partition ∈ failure.failed, partition ∈ scheme.identities
  total_eq : failure.total = total
  le_total : failure.size ≤ failure.total

namespace FailedPartitions

variable {scheme : PartitionScheme γ}

theorem truthful_ofList {names : List PartitionId} {total : Nat} (hnonempty : names ≠ [])
    (hmembers : ∀ partition ∈ names, partition ∈ scheme.identities)
    (hle : (sortedDistinct names).length ≤ total) : (ofList names total).Truthful scheme total := by
  refine ⟨?_, sortedDistinct_ascending names, ?_, rfl, hle⟩
  · obtain ⟨name, hname⟩ := List.exists_mem_of_ne_nil names hnonempty
    obtain ⟨kept, hkept, -⟩ := exists_mem_sortedDistinct hname
    exact List.ne_nil_of_mem hkept
  · intro partition hmem
    exact hmembers partition (mem_of_mem_sortedDistinct hmem)

theorem truthful_ofList_size {names : List PartitionId} (hnonempty : names ≠ [])
    (hmembers : ∀ partition ∈ names, partition ∈ scheme.identities) :
    (ofList names scheme.size).Truthful scheme scheme.size := by
  refine truthful_ofList hnonempty hmembers ?_
  have hle := length_sortedDistinct_le hmembers
  rwa [PartitionScheme.identities, List.length_map] at hle

end FailedPartitions

namespace Topology

variable {topology : Topology γ} {indices : IndexSet}

theorem mem_identities_of_mem_identitiesAt {partition : PartitionId}
    (h : partition ∈ topology.identitiesAt indices) : partition ∈ topology.scheme.identities := by
  obtain ⟨index, -, hindex⟩ := Membership.mem_identitiesAt.mp h
  exact List.mem_of_getElem? hindex

theorem identitiesAt_ne_nil {index : Nat} (hmem : index ∈ indices) (hlt : index < topology.scheme.size) :
    topology.identitiesAt indices ≠ [] := by
  rw [← length_identities] at hlt
  have hname : topology.scheme.identities[index] ∈ topology.identitiesAt indices :=
    Membership.mem_identitiesAt.mpr ⟨index, hmem, List.getElem?_eq_getElem hlt⟩
  exact List.ne_nil_of_mem hname

theorem length_sortedDistinct_identitiesAt_le :
    (sortedDistinct (topology.identitiesAt indices)).length ≤ indices.size := by
  refine Nat.le_trans (length_sortedDistinct_le (List.Subset.refl _)) ?_
  rw [← Std.TreeSet.length_toList]
  exact List.length_filterMap_le _ _

end Topology

namespace Membership

variable {current : Membership γ} {started : Topology γ} {failed : IndexSet} {partition : PartitionId}

theorem alive_markDead (current : Membership γ) (partitions : List PartitionId) :
    (current.markDead partitions).2.topology.alive =
      current.topology.alive.filter fun partition => !partitions.contains partition := by
  rw [markDead, topology_update]
  split
  next hsame => exact hsame.symm
  next => rfl

theorem mem_alive_recordFailures :
    partition ∈ (current.recordFailures started failed).2.topology.alive ↔
      partition ∈ current.topology.alive ∧ partition ∉ started.identitiesAt failed := by
  have halive : (current.recordFailures started failed).2.topology.alive = _ :=
    alive_markDead (current.countFailures (started.identitiesAt failed).length) (started.identitiesAt failed)
  rw [halive, List.mem_filter, Bool.not_eq_true', ← Bool.not_eq_true, List.contains_iff_mem]
  rfl

end Membership

namespace SchemeSharder

theorem isWriteSatisfied_of_healthy (sharder : SchemeSharder) (buckets : BucketSet) (quorum : Quorum)
    {failed : IndexSet} (h : ∀ index, index ∉ failed) : sharder.isWriteSatisfied failed buckets quorum = true := by
  refine List.all_eq_true.mpr fun group _ => GroupSharder.satisfiesIn_iff.mpr fun bucket _ => ?_
  exact GroupSharder.bucketSatisfies_of_healthy group quorum bucket h

/-- No write falls short while no partition has failed. -/
theorem exists_failed {sharder : SchemeSharder} {failed : IndexSet} {buckets : BucketSet} {quorum : Quorum}
    (h : sharder.isWriteSatisfied failed buckets quorum = false) : ∃ index, index ∈ failed := by
  by_contra hnone
  have hsatisfied := sharder.isWriteSatisfied_of_healthy buckets quorum (not_exists.mp hnone)
  rw [hsatisfied] at h
  contradiction

end SchemeSharder

namespace PartitionScheme

variable {scheme : PartitionScheme γ} {hash : PartitionId → UInt32}

theorem exists_unhealthy_of_read (hwell : scheme.WellFormed hash) {unhealthy : IndexSet} {quorum : Quorum}
    (h : scheme.isReadValid unhealthy quorum = false) : ∃ index, index ∈ unhealthy := by
  by_contra hnone
  have hvalid := isReadValid_of_healthy hwell quorum (not_exists.mp hnone)
  rw [hvalid] at h
  contradiction

theorem exists_unhealthy {unhealthy : IndexSet} {quorum : Quorum}
    (h : scheme.isHealthy unhealthy quorum = false) : ∃ index, index ∈ unhealthy := by
  by_contra hnone
  have hhealthy : scheme.isHealthy unhealthy quorum = true := by
    refine List.all_eq_true.mpr fun group _ => GroupSharder.satisfies_iff.mpr fun bucket => ?_
    exact GroupSharder.bucketSatisfies_of_healthy group quorum bucket (not_exists.mp hnone)
  rw [hhealthy] at h
  contradiction

theorem lt_size_of_mem_shard (hwell : scheme.WellFormed hash) {alive : PartitionId → Bool}
    {sharder : SchemeSharder} (hsharder : scheme.createSharder alive = some sharder) {keyHash : UInt32}
    {index : Nat} (h : index ∈ sharder.shard keyHash) : index < scheme.size := by
  obtain ⟨hgroups, -, -⟩ := createSharder_eq_some hwell hsharder
  obtain ⟨part, hpart, hindex⟩ := SchemeSharder.mem_replicas.mp h
  rw [hgroups] at hpart
  obtain ⟨group, hgroup, rfl⟩ := List.mem_map.mp hpart
  have hlt := GroupSharder.lt_of_mem_replicas scheme.identities hash group alive
    (hwell.mem_identities group (List.mem_of_mem_filter hgroup)) hindex
  rwa [identities, List.length_map] at hlt

end PartitionScheme

end ReplicatedStore
