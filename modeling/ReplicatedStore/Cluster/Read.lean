import ReplicatedStore.Cluster.Basic
import ReplicatedStore.Cluster.Merge
import ReplicatedStore.Reading.Basic
/-!
# Reading from a cluster

A read opens all partitions that are alive and merges their feeds. It is valid while the partitions it
does without cannot hold a key of their own. A take is committed on the partitions that were read to their
end, and on no others.
-/

namespace ReplicatedStore

variable {μ ρ κ σ : Type}

inductive ReadKind where
  | download
  | take
deriving DecidableEq, Repr

def ReadKind.error : ReadKind → FailedPartitions → ClusterError
  | download => .downloadFailed
  | take => .takeFailed

structure ClusterRead (μ ρ κ σ : Type) where
  kind : ReadKind
  /-- The topology that was current when the read was opened. -/
  started : Topology (Store μ ρ κ σ)
  merge : Merge κ σ

abbrev ClusterReceipt (ρ : Type) := List (Nat × ρ)

namespace Cluster

/-- The partitions opened, with the positions of those that could not be opened. -/
structure Opened (ρ κ σ : Type) where
  sources : List (Nat × Feed κ σ × ρ)
  failed : IndexSet

def openPartitions {ω : Type} (request : Store μ ρ κ σ → μ → Except StoreError (Feed κ σ × ω) × μ)
    (scheme : PartitionScheme (Store μ ρ κ σ)) : List Nat → μ → Opened ω κ σ × μ
  | [], world => (⟨[], ∅⟩, world)
  | index :: indices, world =>
    let (result, world) :=
      match scheme.clientAt? index with
      | none => (none, world)
      | some store =>
        let (result, world) := request store world
        (result.toOption, world)
    let (more, world) := openPartitions request scheme indices world
    match result with
    | none => (⟨more.sources, more.failed.insert index⟩, world)
    | some source => (⟨(index, source) :: more.sources, more.failed⟩, world)

def byPosition {α : Type} (items : List (Nat × α)) : List (Nat × α) :=
  items.mergeSort fun a b => a.1 ≤ b.1

def releaseAll (scheme : PartitionScheme (Store μ ρ κ σ)) (receipts : ClusterReceipt ρ) (world : μ) : μ :=
  receipts.foldl (fun world (index, receipt) =>
    match scheme.clientAt? index with
    | none => world
    | some store => store.release receipt world) world

def readFailed (kind : ReadKind) (started : Topology (Store μ ρ κ σ)) (unhealthy : IndexSet) :
    ClusterError :=
  kind.error (.ofList (started.identitiesAt unhealthy) started.scheme.size)

def countFailedRead (kind : ReadKind) (cluster : Cluster μ ρ κ σ) : Cluster μ ρ κ σ :=
  match kind with
  | .download => cluster.count fun s => { s with failedDownloads := s.failedDownloads + 1 }
  | .take => cluster

def isValidWithout (cluster : Cluster μ ρ κ σ) (started : Topology (Store μ ρ κ σ))
    (unhealthy : IndexSet) : Bool :=
  started.scheme.isReadValid unhealthy cluster.options.downloadQuorum

/-- Opens a read of all partitions that are alive, or refuses it if those are too few. They answer in
some `order`, which the read does not keep; `giveUp` is what becomes of the partitions opened for a read
that is refused. -/
def openRead {ω : Type} (order : List Nat → List Nat) (kind : ReadKind)
    (request : Store μ ρ κ σ → μ → Except StoreError (Feed κ σ × ω) × μ)
    (giveUp : PartitionScheme (Store μ ρ κ σ) → List (Nat × ω) → μ → μ) (cluster : Cluster μ ρ κ σ) :
    Except ClusterError (ClusterRead μ ρ κ σ × List (Nat × ω)) × Cluster μ ρ κ σ :=
  let started := cluster.topology
  let dead := started.deadIndices
  if cluster.isValidWithout started dead = false then
    (.error (readFailed kind started dead), cluster.countFailedRead kind)
  else
    let (opened, world) :=
      openPartitions request started.scheme (order started.aliveIndices) cluster.world
    let cluster := ({ cluster with world }.recordFailures started opened.failed).2
    let unhealthy := dead.insertAll opened.failed.toList
    let sources := byPosition opened.sources
    let receipts := sources.map fun (index, _, receipt) => (index, receipt)
    if cluster.isValidWithout started unhealthy then
      let feeds := sources.map fun (index, feed, _) => (index, feed)
      (.ok (⟨kind, started, .ofFeeds feeds unhealthy⟩, receipts), cluster)
    else
      let world := giveUp started.scheme receipts cluster.world
      (.error (readFailed kind started unhealthy), { cluster with world }.countFailedRead kind)

def requestDownload (horizon : UInt64) (store : Store μ ρ κ σ) (world : μ) :
    Except StoreError (Feed κ σ × Unit) × μ :=
  let (result, world) := store.download horizon world
  (result.map fun feed => (feed, ()), world)

def downloadIn (order : List Nat → List Nat) (horizon : UInt64) (cluster : Cluster μ ρ κ σ) :
    Except ClusterError (ClusterRead μ ρ κ σ) × Cluster μ ρ κ σ :=
  let (result, cluster) :=
    openRead order .download (requestDownload horizon) (fun _ _ world => world)
      (cluster.count fun s => { s with downloads := s.downloads + 1 })
  (result.map Prod.fst, cluster)

def takeIn (order : List Nat → List Nat) (cluster : Cluster μ ρ κ σ) :
    Except ClusterError (ClusterRead μ ρ κ σ × ClusterReceipt ρ) × Cluster μ ρ κ σ :=
  openRead order .take Store.take releaseAll (cluster.count fun s => { s with takes := s.takes + 1 })

def interruptionAt (started : Topology (Store μ ρ κ σ)) (world : μ) (index : Nat) : Interruption :=
  (started.scheme.clientAt? index).elim .never fun store => store.interruption world

/-- The next entry of a read. Partitions that fail are recorded; the read is over once it is not valid
without them. -/
def next [Ord κ] (read : ClusterRead μ ρ κ σ) (cluster : Cluster μ ρ κ σ) :
    Option (Except ClusterError (Entry κ σ)) × ClusterRead μ ρ κ σ × Cluster μ ρ κ σ :=
  let (step, failures, merge) :=
    read.merge.next cluster.function (cluster.isValidWithout read.started)
      (interruptionAt read.started cluster.world)
  let cluster := (cluster.recordFailures read.started failures).2
  let read := { read with merge }
  match step with
  | .entry entry => (some (.ok entry), read, cluster)
  | .ended => (none, read, cluster)
  | .invalid =>
    (some (.error (readFailed read.kind read.started merge.unhealthy)), read,
      cluster.countFailedRead read.kind)

/-- Commits takes of single partitions in order; the positions are those of the stores that fail. -/
def commitAll (scheme : PartitionScheme (Store μ ρ κ σ)) : List (Nat × ρ) → μ → List Nat × μ
  | [], world => ([], world)
  | (index, receipt) :: receipts, world =>
    let (isDone, world) :=
      match scheme.clientAt? index with
      | none => (false, world)
      | some store =>
        let (result, world) := store.commit receipt true world
        (result.isOk, world)
    let (failed, world) := commitAll scheme receipts world
    (if isDone then failed else index :: failed, world)

/-- Commits a take on the partitions that were read to their end, and counts them. The others keep
their entries. -/
def commit (receipts : ClusterReceipt ρ) (read : ClusterRead μ ρ κ σ) (cluster : Cluster μ ρ κ σ) :
    Except ClusterError Nat × Cluster μ ρ κ σ :=
  let (complete, others) := receipts.partition fun item => read.merge.completed.contains item.1
  let scheme := read.started.scheme
  let (failed, world) := commitAll scheme complete (releaseAll scheme others cluster.world)
  let result :=
    if failed.isEmpty then .ok complete.length
    else .error (.takeFailed (.ofList (read.started.identitiesAt (.ofList failed)) complete.length))
  (result, { cluster with world })

def release (receipts : ClusterReceipt ρ) (read : ClusterRead μ ρ κ σ) (cluster : Cluster μ ρ κ σ) :
    Cluster μ ρ κ σ :=
  { cluster with world := releaseAll read.started.scheme receipts cluster.world }

def readerIn [Ord κ] (order : List Nat → List Nat) :
    Reader (Cluster μ ρ κ σ) (ClusterRead μ ρ κ σ) (ClusterReceipt ρ) ClusterError Nat κ σ where
  download := downloadIn order
  take := takeIn order
  next := next
  pending read := read.merge.pending
  commit := commit
  release := release

def reader [Ord κ] :
    Reader (Cluster μ ρ κ σ) (ClusterRead μ ρ κ σ) (ClusterReceipt ρ) ClusterError Nat κ σ :=
  readerIn id

end Cluster

end ReplicatedStore
