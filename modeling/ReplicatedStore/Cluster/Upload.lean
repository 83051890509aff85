import ReplicatedStore.Cluster.Basic
/-!
# Uploads to a cluster

Entries are sent one by one to the replica sets of their keys; the session of a partition is opened by
the first entry sent to it. A partition that cannot take an entry has failed for the rest of the upload.
Only when the source has ended are the sessions told so; a store whose session is not told so is fed an
error after the entries, so that it keeps none of them.
-/

namespace ReplicatedStore

variable {μ ρ κ σ : Type}

/-- How the sessions of an upload run beside it, as far as its entries do not decide. -/
structure Interleaving where
  /-- Whether the session of a partition refuses an entry after it accepted some number of them, because
  its store has answered already. -/
  refuses : Nat → Nat → Bool
  /-- How many of the entries it accepted the session of a partition has handed to its store when it
  refuses one. -/
  handed : Nat → Nat
  /-- Whether the session of a partition still shows its store that the upload was given up, instead of
  being stopped before. -/
  outlives : Nat → Bool

/-- Sessions take every entry, and stop with their upload: so it is while the channels hold all entries
and sessions only run when the upload waits. -/
def Interleaving.patient : Interleaving := ⟨fun _ _ => false, fun _ => 0, fun _ => false⟩

/-- Why the sending of entries ended. -/
inductive UploadStop where
  | ended
  | sourceFailed (cause : StoreError)
  /-- A replica set fell below its quorum. -/
  | quorumLost
deriving DecidableEq, Repr

structure UploadSessions (κ σ : Type) where
  /-- The entries sent to each partition with a session, the latest first. -/
  sent : Std.TreeMap Nat (List (Entry κ σ))
  failed : IndexSet
  /-- The buckets of the entries read so far. -/
  buckets : BucketSet

namespace UploadSessions

def empty : UploadSessions κ σ := ⟨∅, ∅, .empty⟩

def canOpen {γ : Type} (topology : Topology γ) (index : Nat) : Bool :=
  topology.isAliveAt index && (topology.scheme.clientAt? index).isSome

def sendTo {γ : Type} (topology : Topology γ) (interleaving : Interleaving) (entry : Entry κ σ)
    (sessions : UploadSessions κ σ) (index : Nat) : UploadSessions κ σ :=
  if sessions.failed.contains index then sessions
  else
    let failed := { sessions with failed := sessions.failed.insert index }
    if !sessions.sent.contains index && !canOpen topology index then failed
    else
      let sent := sessions.sent.getD index []
      if interleaving.refuses index sent.length then { failed with sent := sessions.sent.insert index sent }
      else { sessions with sent := sessions.sent.insert index (entry :: sent) }

def send [Fingerprint κ] {γ : Type} (topology : Topology γ) (sharder : SchemeSharder)
    (interleaving : Interleaving) (sessions : UploadSessions κ σ) (entry : Entry κ σ) : UploadSessions κ σ :=
  let hash := hash32 entry.key
  let sessions := { sessions with buckets := sessions.buckets.insert (Bucket.ofHash hash) }
  (sharder.shard hash).foldl (sendTo topology interleaving entry) sessions

/-- Sends the entries of a source until it ends or fails, or a failure leaves some replica set
without a quorum. -/
def sendAll [Fingerprint κ] {γ : Type} (topology : Topology γ) (sharder : SchemeSharder)
    (quorum : Quorum) (interleaving : Interleaving) (sessions : UploadSessions κ σ) :
    Feed κ σ → UploadStop × UploadSessions κ σ
  | [] => (.ended, sessions)
  | .error cause :: _ => (.sourceFailed cause, sessions)
  | .ok entry :: source =>
    let after := sessions.send topology sharder interleaving entry
    if after.failed.size ≠ sessions.failed.size ∧
        sharder.isWriteSatisfied after.failed after.buckets quorum = false then
      (.quorumLost, after)
    else after.sendAll topology sharder quorum interleaving source

/-- What the store behind a session is fed: the entries sent, and an error unless the upload told the
session that it is complete. -/
def feedOf (sent : List (Entry κ σ)) (complete : Bool) : Feed κ σ :=
  Feed.ofEntries sent.reverse ++
    if complete then [] else [.error (.aborted "The upload was cancelled")]

/-- What the store behind a session that refused an entry was fed, of the entries sent. -/
def refusedFeed (interleaving : Interleaving) (index : Nat) (sent : List (Entry κ σ)) : Feed κ σ :=
  feedOf (sent.drop (sent.length - interleaving.handed index)) false

/-- Completes sessions in order: the partitions whose stores refuse have failed too. A session that
refused an entry has its answer already, whatever its store did with what it was handed. -/
def completeAll {γ : Type} (upload : γ → Feed κ σ → μ → Except StoreError Unit × μ)
    (client : Nat → Option γ) (interleaving : Interleaving) :
    List (Nat × List (Entry κ σ)) → IndexSet → μ → IndexSet × μ
  | [], failed, world => (failed, world)
  | (index, sent) :: rest, failed, world =>
    match client index with
    | none => completeAll upload client interleaving rest (failed.insert index) world
    | some store =>
      if failed.contains index then
        let (_, world) := upload store (refusedFeed interleaving index sent) world
        completeAll upload client interleaving rest failed world
      else
        match upload store (feedOf sent true) world with
        | (.ok (), world) => completeAll upload client interleaving rest failed world
        | (.error _, world) => completeAll upload client interleaving rest (failed.insert index) world

/-- Gives sessions up in order: a store that sees it is fed an error after the entries sent. A session
that refused an entry is over already. -/
def cancelAll {γ : Type} (upload : γ → Feed κ σ → μ → Except StoreError Unit × μ)
    (client : Nat → Option γ) (interleaving : Interleaving) (failed : IndexSet) :
    List (Nat × List (Entry κ σ)) → μ → μ
  | [], world => world
  | (index, sent) :: rest, world =>
    match client index with
    | none => cancelAll upload client interleaving failed rest world
    | some store =>
      let world :=
        if failed.contains index then (upload store (refusedFeed interleaving index sent) world).2
        else if interleaving.outlives index then (upload store (feedOf sent false) world).2
        else world
      cancelAll upload client interleaving failed rest world

def targeted (sessions : UploadSessions κ σ) (failed : IndexSet) : IndexSet :=
  failed.insertAll sessions.sent.keys

end UploadSessions

namespace Cluster

def countUpload (cluster : Cluster μ ρ κ σ) : Cluster μ ρ κ σ :=
  cluster.count fun s => { s with uploads := s.uploads + 1 }

def uploadFailed (cluster : Cluster μ ρ κ σ) (started : Topology (Store μ ρ κ σ))
    (failed : IndexSet) (total : Nat) : ClusterError × Cluster μ ρ κ σ :=
  let counted := cluster.count fun s => { s with failedUploads := s.failedUploads + 1 }
  let (partitions, recorded) := counted.recordFailures started failed
  (.uploadFailed (.ofList partitions total), recorded)

def finishUpload (cluster : Cluster μ ρ κ σ) (interleaving : Interleaving) (sharder : SchemeSharder)
    (sessions : UploadSessions κ σ) : Except ClusterError Unit × Cluster μ ρ κ σ :=
  let started := cluster.topology
  let (failed, world) := UploadSessions.completeAll Store.upload started.scheme.clientAt? interleaving
    sessions.sent.toList sessions.failed cluster.world
  let cluster := { cluster with world }
  if sharder.isWriteSatisfied failed sessions.buckets cluster.options.uploadQuorum then
    if failed.isEmpty then (.ok (), cluster)
    else (.ok (), (cluster.recordFailures started failed).2)
  else
    let (e, cluster) := cluster.uploadFailed started failed (sessions.targeted failed).size
    (.error e, cluster)

def cancelUpload (cluster : Cluster μ ρ κ σ) (interleaving : Interleaving)
    (sessions : UploadSessions κ σ) : Cluster μ ρ κ σ :=
  let client := cluster.topology.scheme.clientAt?
  let world := UploadSessions.cancelAll Store.upload client interleaving sessions.failed
    sessions.sent.toList cluster.world
  { cluster with world }

/-- Uploads a feed, in which `finish` says what happens once the source has ended. -/
def uploadUntil [Fingerprint κ] (interleaving : Interleaving)
    (finish : SchemeSharder → UploadSessions κ σ → Cluster μ ρ κ σ →
      Except ClusterError Unit × Cluster μ ρ κ σ)
    (source : Feed κ σ) (cluster : Cluster μ ρ κ σ) : Except ClusterError Unit × Cluster μ ρ κ σ :=
  let cluster := cluster.countUpload
  let started := cluster.topology
  match started.sharder with
  | none => (.error .noSenders, cluster)
  | some sharder =>
    let quorum := cluster.options.uploadQuorum
    match UploadSessions.empty.sendAll started sharder quorum interleaving source with
    | (.sourceFailed cause, sessions) =>
      (.error (.source cause), cluster.cancelUpload interleaving sessions)
    | (.quorumLost, sessions) =>
      let (e, failed) := (cluster.cancelUpload interleaving sessions).uploadFailed started
        sessions.failed (sessions.targeted sessions.failed).size
      (.error e, failed)
    | (.ended, sessions) => finish sharder sessions cluster

def uploadWith [Fingerprint κ] (interleaving : Interleaving) (source : Feed κ σ)
    (cluster : Cluster μ ρ κ σ) : Except ClusterError Unit × Cluster μ ρ κ σ :=
  uploadUntil interleaving
    (fun sharder sessions cluster => cluster.finishUpload interleaving sharder sessions) source cluster

def upload [Fingerprint κ] (source : Feed κ σ) (cluster : Cluster μ ρ κ σ) :
    Except ClusterError Unit × Cluster μ ρ κ σ :=
  uploadWith .patient source cluster

/-- Uploads a feed and gives the upload up while it waits for more of its source, while the sessions run in
some way beside it. -/
def uploadDroppedWith [Fingerprint κ] (interleaving : Interleaving) (source : Feed κ σ)
    (cluster : Cluster μ ρ κ σ) : Except ClusterError Unit × Cluster μ ρ κ σ :=
  uploadUntil interleaving
    (fun _ sessions cluster => (.ok (), cluster.cancelUpload interleaving sessions)) source cluster

def uploadDropped [Fingerprint κ] (source : Feed κ σ) (cluster : Cluster μ ρ κ σ) :
    Except ClusterError Unit × Cluster μ ρ κ σ :=
  uploadDroppedWith .patient source cluster

end Cluster

end ReplicatedStore
