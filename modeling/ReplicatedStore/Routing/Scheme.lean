import ReplicatedStore.Config.Error
import ReplicatedStore.Routing.Group
/-!
# Partition schemes

A scheme is the layout of a cluster: its groups, the sorted list of all partitions, and the client of
each partition's store. Writes go to the replica sets of all active groups; a read is valid while one
of them keeps a quorum in every bucket.
-/

namespace ReplicatedStore

/-- The layout of a cluster with clients in `γ`. -/
structure PartitionScheme (γ : Type) where
  groups : List PartitionGroup
  partitions : List Partition
  client : Partition → Option γ
  base : List GroupSharder

structure SchemeSharder where
  groups : List GroupSharder
deriving Repr

namespace SchemeSharder

def addOnce (positions : List Nat) (index : Nat) : List Nat :=
  if positions.contains index then positions else positions ++ [index]

/-- The partitions that a bucket is written to: the replica sets group by group, each partition once. -/
def replicas (sharder : SchemeSharder) (bucket : Bucket) : List Nat :=
  (sharder.groups.flatMap fun group => group.replicas bucket).foldl addOnce []

def shard (sharder : SchemeSharder) (keyHash : UInt32) : List Nat :=
  sharder.replicas (Bucket.ofHash keyHash)

/-- Whether every bucket written keeps a quorum of replicas that have not failed, in every group. -/
def isWriteSatisfied (sharder : SchemeSharder) (failed : IndexSet) (buckets : BucketSet)
    (quorum : Quorum) : Bool :=
  sharder.groups.all fun group => group.satisfiesIn failed quorum buckets

end SchemeSharder

namespace PartitionScheme

variable {γ : Type}

def faultFrom (position : Nat) : List PartitionGroup → Option GroupFault
  | [] => none
  | group :: groups =>
    if group.partitions.isEmpty then some (.noPartitions (toString position))
    else if group.replicas = 0 then some (.noReplicas (toString position))
    else faultFrom (position + 1) groups

def fault? (groups : List PartitionGroup) : Option GroupFault :=
  if groups.isEmpty then some .noGroups else faultFrom 0 groups

/-- The scheme of some groups, with a hash that ranks partitions. A partition in several groups has the
addresses of its last mention. -/
def create (groups : List PartitionGroup) (client : Partition → Option γ)
    (hash : PartitionId → UInt32) : Except ConfigError (PartitionScheme γ) :=
  match fault? groups with
  | some fault => .error (.invalidGroup fault)
  | none =>
    let partitions := sortedDistinct (groups.flatMap PartitionGroup.partitions)
    let identities := partitions.map Partition.identity
    .ok ⟨groups, partitions, client, groups.map (GroupSharder.ofGroup identities hash)⟩

def identities (scheme : PartitionScheme γ) : List PartitionId :=
  scheme.partitions.map Partition.identity

def size (scheme : PartitionScheme γ) : Nat := scheme.partitions.length

def partition? (scheme : PartitionScheme γ) (index : Nat) : Option Partition := scheme.partitions[index]?

def indexOf? (scheme : PartitionScheme γ) (partition : PartitionId) : Option Nat :=
  scheme.identities.idxOf? partition

def clientAt? (scheme : PartitionScheme γ) (index : Nat) : Option γ :=
  (scheme.partition? index).bind scheme.client

/-- The sharders of the active groups; none if one of them has no member that is alive. -/
def activeSharders (alive : PartitionId → Bool) :
    List (PartitionGroup × GroupSharder) → Option (List GroupSharder)
  | [] => some []
  | (group, base) :: rest =>
    if !group.active then activeSharders alive rest
    else if !group.members.any alive then none
    else (activeSharders alive rest).map (base.adapted alive :: ·)

/-- The sharder that routes writes while the given partitions are alive; none if there is no active
group, or one without a member that is alive. -/
def createSharder (scheme : PartitionScheme γ) (alive : PartitionId → Bool) : Option SchemeSharder :=
  match activeSharders alive (scheme.groups.zip scheme.base) with
  | some (group :: groups) => some ⟨group :: groups⟩
  | _ => none

/-- The groups that reads rely on: the active ones, or all if none is active. -/
def readGroups (scheme : PartitionScheme γ) : List GroupSharder :=
  if scheme.base.any GroupSharder.active then scheme.base.filter GroupSharder.active else scheme.base

/-- Whether a read sees every key: some group it relies on keeps a quorum in every bucket. -/
def isReadValid (scheme : PartitionScheme γ) (unhealthy : IndexSet) (quorum : Quorum) : Bool :=
  scheme.readGroups.any fun group => group.satisfies unhealthy quorum

def isHealthy (scheme : PartitionScheme γ) (unhealthy : IndexSet) (quorum : Quorum) : Bool :=
  scheme.base.all fun group => group.satisfies unhealthy quorum

end PartitionScheme

end ReplicatedStore
