import ReplicatedStore.Cluster.Upload
/-!
# Tasks of an upload

The sessions of an upload are tasks that run beside it, each behind a channel of its own. The upload opens
a session before it sends the first entry to a partition, and tells its sessions last that it is complete.
If it is given up before, the channels are closed and the tasks are stopped, each at some time. A schedule
says who goes on next.
-/

namespace ReplicatedStore

variable {μ ρ κ σ : Type}

/-- What is sent to a session. -/
inductive SessionFrame (κ σ : Type) where
  | entry (entry : Entry κ σ)
  | complete
deriving DecidableEq, Repr

structure SessionChannel (κ σ : Type) where
  waiting : List (SessionFrame κ σ)
  /-- Whether the upload holds its end of the channel. -/
  connected : Bool
deriving DecidableEq, Repr

inductive SessionStream (κ σ : Type) where
  | receiving (channel : SessionChannel κ σ)
  | failed
  | finished
deriving DecidableEq, Repr

namespace SessionStream

/-- What a store is told whose upload was given up. -/
def cancelled : StoreError := .aborted "The upload was cancelled"

/-- What a poll finds, and the stream after it; none if the poll has to wait for a frame. -/
def poll : SessionStream κ σ → Option (Polled κ σ × SessionStream κ σ)
  | receiving ⟨.entry entry :: waiting, connected⟩ =>
    some (.entry entry, receiving ⟨waiting, connected⟩)
  | receiving ⟨.complete :: _, _⟩ => some (.ended, finished)
  | receiving ⟨[], true⟩ => none
  | receiving ⟨[], false⟩ => some (.failed cancelled, failed)
  | failed => some (.ended, finished)
  | finished => some (.closed, finished)

def send (frame : SessionFrame κ σ) : SessionStream κ σ → SessionStream κ σ
  | receiving channel => receiving { channel with waiting := channel.waiting ++ [frame] }
  | stream => stream

def disconnect : SessionStream κ σ → SessionStream κ σ
  | receiving channel => receiving { channel with connected := false }
  | stream => stream

end SessionStream

def Polled.items : Polled κ σ → Feed κ σ
  | .entry found => [.ok found]
  | .failed cause => [.error cause]
  | .ended | .closed => []

structure SessionTask (κ σ : Type) where
  stream : SessionStream κ σ
  polled : Feed κ σ
  running : Bool

namespace SessionTask

def opened : SessionTask κ σ := ⟨.receiving ⟨[], true⟩, [], true⟩

/-- Whether a frame sent to the session is received at some time, as far as its task runs that long. -/
def accepts (task : SessionTask κ σ) : Bool :=
  match task.stream with
  | .receiving _ => task.running
  | _ => false

def isFull (capacity : Nat) (task : SessionTask κ σ) : Bool :=
  match task.stream with
  | .receiving channel => max 1 capacity ≤ channel.waiting.length
  | _ => false

def send (frame : SessionFrame κ σ) (task : SessionTask κ σ) : SessionTask κ σ :=
  if task.accepts then { task with stream := task.stream.send frame } else task

def disconnect (task : SessionTask κ σ) : SessionTask κ σ := { task with stream := task.stream.disconnect }

def poll (task : SessionTask κ σ) : SessionTask κ σ :=
  match task.stream.poll with
  | none => task
  | some (found, stream) => { task with stream, polled := task.polled ++ found.items }

/-- What the store has been fed once its task is over. A stream that was left before it ended counts as
one that failed there. -/
def fed (task : SessionTask κ σ) : Feed κ σ :=
  match task.stream with
  | .receiving _ => task.polled ++ [.error SessionStream.cancelled]
  | _ => task.polled

end SessionTask

inductive UploadPhase (κ σ : Type) where
  /-- The upload awaits the next item of its source. -/
  | reading (source : Feed κ σ)
  /-- The upload sends an entry to partitions; some number of them had failed before. -/
  | sending (entry : Entry κ σ) (targets : List Nat) (failures : Nat) (source : Feed κ σ)
  /-- The source has ended, and some sessions are still to be told so. -/
  | completing (sessions : List Nat)
  /-- The upload returned an error, or was dropped if there is no reason. -/
  | givenUp (reason : Option UploadStop)

structure UploadRun (μ κ σ : Type) where
  phase : UploadPhase κ σ
  sessions : UploadSessions κ σ
  tasks : Std.TreeMap Nat (SessionTask κ σ)
  world : μ

inductive UploadEvent where
  /-- The upload goes on, unless it has to wait. -/
  | proceed
  /-- The upload is dropped before its source has ended. -/
  | drop
  /-- The store of a partition polls the stream of its session. -/
  | poll (index : Nat)
  /-- The task of a session is over, because its store has answered or it was stopped. -/
  | finish (index : Nat)
  /-- The channel of a session is closed after the upload was given up. -/
  | disconnect (index : Nat)
deriving DecidableEq, Repr

def Interleaving.refusing (refused : Bool) : Interleaving := ⟨fun _ _ => refused, fun _ => 0, fun _ => true⟩

namespace UploadRun

def start (source : Feed κ σ) (world : μ) : UploadRun μ κ σ := ⟨.reading source, .empty, ∅, world⟩

def setTask (index : Nat) (task : SessionTask κ σ) (run : UploadRun μ κ σ) : UploadRun μ κ σ :=
  { run with tasks := run.tasks.insert index task }

/-- Sends an entry to the next of the partitions it is written to. A session is opened in a step of its own,
after which its task may be faster than the upload. -/
def sendNext (topology : Topology (Store μ ρ κ σ)) (capacity : Nat) (entry : Entry κ σ) (index : Nat)
    (next : UploadPhase κ σ) (run : UploadRun μ κ σ) : UploadRun μ κ σ :=
  if run.sessions.failed.contains index then { run with phase := next }
  else
    let sent (refused : Bool) := run.sessions.sendTo topology (.refusing refused) entry index
    match run.tasks[index]? with
    | none =>
      if UploadSessions.canOpen topology index then run.setTask index .opened
      else { run with phase := next, sessions := sent false }
    | some task =>
      if task.accepts && task.isFull capacity then run
      else { run.setTask index (task.send (.entry entry)) with phase := next, sessions := sent !task.accepts }

def completeNext (capacity : Nat) (index : Nat) (next : UploadPhase κ σ) (run : UploadRun μ κ σ) :
    UploadRun μ κ σ :=
  match run.tasks[index]? with
  | none => { run with phase := next }
  | some task =>
    if task.accepts && task.isFull capacity then run
    else { run.setTask index (task.send .complete).disconnect with phase := next }

def proceed [Fingerprint κ] (topology : Topology (Store μ ρ κ σ)) (sharder : SchemeSharder)
    (options : ClusterOptions) (run : UploadRun μ κ σ) : UploadRun μ κ σ :=
  match run.phase with
  | .reading [] => { run with phase := .completing run.tasks.keys }
  | .reading (.error cause :: _) => { run with phase := .givenUp (some (.sourceFailed cause)) }
  | .reading (.ok entry :: source) =>
    let hash := hash32 entry.key
    { run with
      phase := .sending entry (sharder.shard hash) run.sessions.failed.size source
      sessions := { run.sessions with buckets := run.sessions.buckets.insert (Bucket.ofHash hash) } }
  | .sending _ [] failures source =>
    if run.sessions.failed.size ≠ failures ∧
        sharder.isWriteSatisfied run.sessions.failed run.sessions.buckets options.uploadQuorum = false then
      { run with phase := .givenUp (some .quorumLost) }
    else { run with phase := .reading source }
  | .sending entry (index :: targets) failures source =>
    run.sendNext topology options.channelCapacity entry index (.sending entry targets failures source)
  | .completing [] => run
  | .completing (index :: sessions) => run.completeNext options.channelCapacity index (.completing sessions)
  | .givenUp _ => run

def drop (run : UploadRun μ κ σ) : UploadRun μ κ σ :=
  match run.phase with
  | .reading _ | .sending .. => { run with phase := .givenUp none }
  | _ => run

def poll (index : Nat) (run : UploadRun μ κ σ) : UploadRun μ κ σ :=
  match run.tasks[index]? with
  | none => run
  | some task => if task.running then run.setTask index task.poll else run

def finish (topology : Topology (Store μ ρ κ σ)) (index : Nat) (run : UploadRun μ κ σ) : UploadRun μ κ σ :=
  match run.tasks[index]?, topology.scheme.clientAt? index with
  | some task, some store =>
    if task.running then
      { run.setTask index { task with running := false } with world := (store.upload task.fed run.world).2 }
    else run
  | _, _ => run

def disconnect (index : Nat) (run : UploadRun μ κ σ) : UploadRun μ κ σ :=
  match run.phase, run.tasks[index]? with
  | .givenUp _, some task => run.setTask index task.disconnect
  | _, _ => run

def step [Fingerprint κ] (topology : Topology (Store μ ρ κ σ)) (sharder : SchemeSharder)
    (options : ClusterOptions) (run : UploadRun μ κ σ) : UploadEvent → UploadRun μ κ σ
  | .proceed => run.proceed topology sharder options
  | .drop => run.drop
  | .poll index => run.poll index
  | .finish index => run.finish topology index
  | .disconnect index => run.disconnect index

/-- Everything that happens by a schedule. -/
def follow [Fingerprint κ] (topology : Topology (Store μ ρ κ σ)) (sharder : SchemeSharder)
    (options : ClusterOptions) (run : UploadRun μ κ σ) (schedule : List UploadEvent) : UploadRun μ κ σ :=
  schedule.foldl (step topology sharder options) run

end UploadRun

end ReplicatedStore
