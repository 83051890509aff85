import ReplicatedStore.Cluster.Basic
/-!
# Probing partitions

A partition is alive exactly if it answered the last ping sent to it and no operation failed on it since.
-/

namespace ReplicatedStore.Cluster

variable {μ ρ κ σ : Type}

/-- Pings partitions one after the other: those that answer, those that do not, and the world. A
partition without a client does not answer. -/
def pingAll (scheme : PartitionScheme (Store μ ρ κ σ)) :
    List Partition → μ → (List PartitionId × List PartitionId) × μ
  | [], world => (([], []), world)
  | partition :: partitions, world =>
    let (answered, world) :=
      match scheme.client partition with
      | none => (false, world)
      | some store =>
        let (result, world) := store.ping world
        (result.isOk, world)
    let ((alive, silent), world) := pingAll scheme partitions world
    (if answered then (partition.identity :: alive, silent) else (alive, partition.identity :: silent),
      world)

/-- Pings all partitions and records which of them are alive; the result are those that are not. -/
def probe (cluster : Cluster μ ρ κ σ) : List PartitionId × Cluster μ ρ κ σ :=
  let scheme := cluster.topology.scheme
  let ((alive, silent), world) := pingAll scheme scheme.partitions cluster.world
  let counted := cluster.membership.countFailures silent.length
  (silent, { cluster with membership := ((counted.markAlive alive).2.markDead silent).2, world })

/-- Pings all partitions; fails unless every group keeps a quorum in every bucket. -/
def ping (cluster : Cluster μ ρ κ σ) : Except ClusterError Unit × Cluster μ ρ κ σ :=
  let cluster := cluster.count fun s => { s with pings := s.pings + 1 }
  let scheme := cluster.topology.scheme
  let (silent, cluster) := cluster.probe
  let unhealthy : IndexSet := .ofList (silent.filterMap scheme.indexOf?)
  if scheme.isHealthy unhealthy cluster.options.pingQuorum then (.ok (), cluster)
  else (.error (.pingFailed (.ofList silent scheme.size)), cluster)

/-- Pings the partitions that are dead; those that answer are alive again, and are the result. -/
def reviveDead (cluster : Cluster μ ρ κ σ) : List PartitionId × Cluster μ ρ κ σ :=
  let topology := cluster.topology
  let dead := topology.scheme.partitions.filter fun partition =>
    !topology.alive.contains partition.identity
  let ((revived, _), world) := pingAll topology.scheme dead cluster.world
  (revived, { cluster with membership := (cluster.membership.markAlive revived).2, world })

end ReplicatedStore.Cluster
