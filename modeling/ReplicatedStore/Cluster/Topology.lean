import ReplicatedStore.Routing.Scheme
/-!
# Topologies

A topology is a scheme with the partitions believed to be alive and the sharder for them. It is replaced
as a whole when membership changes, so an operation keeps the topology it started with; what it
learns about partitions is recorded by their identities, whatever scheme is current by then.
-/

namespace ReplicatedStore

/-- Counts of what a cluster did. -/
structure ClusterStatistics where
  uploads : Nat
  failedUploads : Nat
  downloads : Nat
  failedDownloads : Nat
  takes : Nat
  pings : Nat
  partitionFailures : Nat
  sharderRebuilds : Nat
  alivePartitions : Nat
  deadPartitions : Nat
deriving DecidableEq, Repr

namespace ClusterStatistics

def zero : ClusterStatistics := ⟨0, 0, 0, 0, 0, 0, 0, 0, 0, 0⟩

def toList (s : ClusterStatistics) : List Nat :=
  [s.uploads, s.failedUploads, s.downloads, s.failedDownloads, s.takes, s.pings, s.partitionFailures,
    s.sharderRebuilds, s.alivePartitions, s.deadPartitions]

end ClusterStatistics

/-- A scheme and what is believed about its partitions. -/
structure Topology (γ : Type) where
  scheme : PartitionScheme γ
  alive : List PartitionId
  sharder : Option SchemeSharder

namespace Topology

variable {γ : Type}

def ofAlive (scheme : PartitionScheme γ) (alive : List PartitionId) : Topology γ :=
  ⟨scheme, alive, scheme.createSharder alive.contains⟩

def fresh (scheme : PartitionScheme γ) : Topology γ := ofAlive scheme scheme.identities

def isAliveAt (topology : Topology γ) (index : Nat) : Bool :=
  (topology.scheme.identities[index]?).any topology.alive.contains

def aliveIndices (topology : Topology γ) : List Nat :=
  (List.range topology.scheme.size).filter topology.isAliveAt

def deadIndices (topology : Topology γ) : IndexSet :=
  .ofList ((List.range topology.scheme.size).filter fun index => !topology.isAliveAt index)

def dead (topology : Topology γ) : List PartitionId :=
  topology.scheme.identities.filter fun partition => !topology.alive.contains partition

def identitiesAt (topology : Topology γ) (indices : IndexSet) : List PartitionId :=
  indices.toList.filterMap fun index => topology.scheme.identities[index]?

end Topology

/-- The current topology of a cluster and its counts. -/
structure Membership (γ : Type) where
  topology : Topology γ
  statistics : ClusterStatistics

namespace Membership

variable {γ : Type}

def counted (topology : Topology γ) (statistics : ClusterStatistics) : Membership γ :=
  ⟨topology, { statistics with
    alivePartitions := topology.alive.length
    deadPartitions := topology.scheme.size - topology.alive.length }⟩

def start (scheme : PartitionScheme γ) (statistics : ClusterStatistics) : Membership γ :=
  counted (.fresh scheme) statistics

def replace (current : Membership γ) (topology : Topology γ) : Membership γ :=
  counted topology
    { current.statistics with sharderRebuilds := current.statistics.sharderRebuilds + 1 }

def install (current : Membership γ) (scheme : PartitionScheme γ) : Membership γ :=
  current.replace (.fresh scheme)

/-- Replaces the partitions that are alive, if they changed, and says whether they did. -/
def update (current : Membership γ) (alive : List PartitionId) : Bool × Membership γ :=
  if alive = current.topology.alive then (false, current)
  else (true, current.replace (.ofAlive current.topology.scheme alive))

def markDead (current : Membership γ) (partitions : List PartitionId) : Bool × Membership γ :=
  current.update (current.topology.alive.filter fun partition => !partitions.contains partition)

def markAlive (current : Membership γ) (partitions : List PartitionId) : Bool × Membership γ :=
  current.update (current.topology.scheme.identities.filter fun partition =>
    current.topology.alive.contains partition || partitions.contains partition)

def countFailures (current : Membership γ) (count : Nat) : Membership γ :=
  { current with statistics := { current.statistics with
    partitionFailures := current.statistics.partitionFailures + count } }

/-- Records that partitions failed an operation that started with the given topology, and says which
they are. -/
def recordFailures (current : Membership γ) (started : Topology γ) (failed : IndexSet) :
    List PartitionId × Membership γ :=
  let partitions := started.identitiesAt failed
  (partitions, ((current.countFailures partitions.length).markDead partitions).2)

end Membership

end ReplicatedStore
