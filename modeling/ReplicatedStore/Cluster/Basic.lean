import ReplicatedStore.Cluster.Error
import ReplicatedStore.Cluster.Topology
import ReplicatedStore.Store.Basic
/-!
# Clusters

A cluster spreads entries over the stores of a scheme's partitions. The clients of the scheme are
stores that share one state, the world, so that an operation on one partition is a step of the world.
-/

namespace ReplicatedStore

structure ClusterOptions where
  uploadQuorum : Quorum
  downloadQuorum : Quorum
  pingQuorum : Quorum
  channelCapacity : Nat
deriving DecidableEq, Repr

namespace ClusterOptions

def standard : ClusterOptions := ⟨.majority, .majority, .all, 1024⟩

def withUploadQuorum (options : ClusterOptions) (quorum : Quorum) : ClusterOptions :=
  { options with uploadQuorum := quorum }

def withDownloadQuorum (options : ClusterOptions) (quorum : Quorum) : ClusterOptions :=
  { options with downloadQuorum := quorum }

def withPingQuorum (options : ClusterOptions) (quorum : Quorum) : ClusterOptions :=
  { options with pingQuorum := quorum }

def withChannelCapacity (options : ClusterOptions) (capacity : Nat) : ClusterOptions :=
  { options with channelCapacity := max 1 capacity }

end ClusterOptions

/-- A cluster over a world `μ`, whose stores give receipts `ρ` for takes. -/
structure Cluster (μ ρ κ σ : Type) where
  membership : Membership (Store μ ρ κ σ)
  function : MergeFunction σ
  options : ClusterOptions
  world : μ

namespace Cluster

variable {μ ρ κ σ : Type}

def topology (cluster : Cluster μ ρ κ σ) : Topology (Store μ ρ κ σ) := cluster.membership.topology

def count (cluster : Cluster μ ρ κ σ) (change : ClusterStatistics → ClusterStatistics) :
    Cluster μ ρ κ σ :=
  { cluster with membership :=
    { cluster.membership with statistics := change cluster.membership.statistics } }

def recordFailures (cluster : Cluster μ ρ κ σ) (started : Topology (Store μ ρ κ σ))
    (failed : IndexSet) : List PartitionId × Cluster μ ρ κ σ :=
  let (partitions, membership) := cluster.membership.recordFailures started failed
  (partitions, { cluster with membership })

end Cluster

end ReplicatedStore
