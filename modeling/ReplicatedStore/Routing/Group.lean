import ReplicatedStore.Partition.Basic
import ReplicatedStore.Routing.Quorum
import ReplicatedStore.Routing.Rendezvous
import Std.Data.TreeSet
/-!
# Partition groups

A group of partitions is configured on its own: every key is written to some members of every active
group. Within a scheme, partitions are denoted by their position in the sorted list of all of them.
-/

namespace ReplicatedStore

abbrev IndexSet := Std.TreeSet Nat

namespace IndexSet

def insertAll (set : IndexSet) (indices : List Nat) : IndexSet := indices.foldl Std.TreeSet.insert set

theorem contains_eq_false_iff {set : IndexSet} {index : Nat} : set.contains index = false ↔ index ∉ set := by
  rw [Std.TreeSet.mem_iff_contains, Bool.not_eq_true]

@[simp] theorem mem_insertAll {set : IndexSet} {indices : List Nat} {index : Nat} :
    index ∈ insertAll set indices ↔ index ∈ indices ∨ index ∈ set := by
  unfold insertAll
  induction indices generalizing set with
  | nil => simp
  | cons first rest ih =>
    rw [List.foldl_cons, ih, Std.TreeSet.mem_insert, Nat.compare_eq_eq, List.mem_cons, eq_comm,
      or_left_comm, or_assoc]

end IndexSet

structure PartitionGroup where
  partitions : List Partition
  replicas : Nat
  /-- Whether keys move to other members while some are dead. -/
  repartition : Bool
  /-- Whether the group is written to; it is read from in any case. -/
  active : Bool
deriving DecidableEq, Repr

namespace PartitionGroup

def ofList (partitions : List Partition) : PartitionGroup := ⟨sortedDistinct partitions, 1, false, true⟩

def withReplicas (group : PartitionGroup) (replicas : Nat) : PartitionGroup := { group with replicas }

def withRepartition (group : PartitionGroup) (repartition : Bool) : PartitionGroup :=
  { group with repartition }

def withActive (group : PartitionGroup) (active : Bool) : PartitionGroup := { group with active }

def members (group : PartitionGroup) : List PartitionId := group.partitions.map Partition.identity

end PartitionGroup

structure GroupSharder where
  sharder : Rendezvous PartitionId
  positions : Array Nat
  repartition : Bool
  active : Bool
deriving Repr

namespace GroupSharder

def ofGroup (partitions : List PartitionId) (hash : PartitionId → UInt32) (group : PartitionGroup) :
    GroupSharder :=
  let sharder := Rendezvous.create group.members group.replicas hash
  let positions := sharder.memberList.map fun member => (partitions.idxOf? member).getD 0
  ⟨sharder, positions.toArray, group.repartition, group.active⟩

def replicas (group : GroupSharder) (bucket : Bucket) : List Nat :=
  (group.sharder.owners bucket).map fun member => group.positions[member]?.getD 0

def distinctBuckets (group : GroupSharder) : List Bucket :=
  if group.sharder.isPredefined then [Bucket.first] else Bucket.all

/-- Whether the healthy replicas of a bucket are a quorum. -/
def bucketSatisfies (group : GroupSharder) (unhealthy : IndexSet) (quorum : Quorum) (bucket : Bucket) :
    Bool :=
  let replicas := group.replicas bucket
  quorum.isSatisfied (replicas.countP fun index => !unhealthy.contains index) replicas.length

def satisfies (group : GroupSharder) (unhealthy : IndexSet) (quorum : Quorum) : Bool :=
  group.distinctBuckets.all (group.bucketSatisfies unhealthy quorum)

/-- Whether the healthy replicas of every given bucket are a quorum. Where all buckets are alike one of
them is checked. -/
def satisfiesIn (group : GroupSharder) (unhealthy : IndexSet) (quorum : Quorum) (buckets : BucketSet) :
    Bool :=
  if group.sharder.isPredefined then buckets.isEmpty || group.bucketSatisfies unhealthy quorum Bucket.first
  else buckets.toList.all (group.bucketSatisfies unhealthy quorum)

/-- The sharder over the members that are alive, if keys of the group may move. -/
def adapted (group : GroupSharder) (alive : PartitionId → Bool) : GroupSharder :=
  if group.repartition then { group with sharder := (group.sharder.recompute alive).2 } else group

end GroupSharder

end ReplicatedStore
