import ReplicatedStore.Session.Batch
import ReplicatedStore.Session.Service
/-!
# Serving a store

An upload is handed to the store once it is known how it ends: as a whole feed, or as one that fails at
its end. A take stays open until the peer acknowledges it, and only then is committed.
-/

namespace ReplicatedStore

variable {κ σ ν ρ : Type}

/-- What a session with a served store waits for. -/
inductive PartitionPhase (ρ κ σ : Type) where
  | receiving (items : Feed κ σ)
  | offered (receipt : ρ)

namespace PartitionService

/-- The items that a connection holds while the store has not asked for them: a queue of one batch, and
one item more. -/
def uploadWindow : Nat := defaultBatchSize + 1

/-- Whether a store that answers an upload after `taken` items is seen to have left before the last of
`count` items. This fixes one schedule of the two: the store runs only when the window is full, and then
takes all of it. -/
def leavesEarly (taken : Option Nat) (count : Nat) : Bool :=
  match taken with
  | none => false
  | some n => (n + uploadWindow - 1) / uploadWindow * uploadWindow < count

def sendAll (codec : EntryCodec κ σ) (feed : Feed κ σ) : List Frame × Option Status :=
  match feed.batches codec defaultBatchSize with
  | (frames, none) => (frames ++ [Message.endOfStream.frame], none)
  | (frames, some e) => (frames, some e.status)

def acknowledge (result : Except StoreError Unit) : Reply (PartitionPhase ρ κ σ) :=
  match result with
  | .ok () => ⟨[Message.ack.frame], .done⟩
  | .error e => ⟨[], .fail e.status⟩

def failed (status : Status) : Reply (PartitionPhase ρ κ σ) := ⟨[], .fail status⟩

def opening (expected : MessageKind) (go : Message → ν → Reply (PartitionPhase ρ κ σ) × ν) :
    UInt16 × Handler (PartitionPhase ρ κ σ) ν :=
  (expected.number, fun payload state =>
    match Message.decode expected payload with
    | .error status => (failed status, state)
    | .ok first => go first state)

def download (store : Store ν ρ κ σ) (codec : EntryCodec κ σ) (horizon : UInt64) (state : ν) :
    Reply (PartitionPhase ρ κ σ) × ν :=
  match store.download horizon state with
  | (.error e, after) => (failed e.status, after)
  | (.ok feed, after) =>
    match sendAll codec (store.polledOut feed after) with
    | (frames, none) => (⟨frames, .done⟩, after)
    | (frames, some status) => (⟨frames, .fail status⟩, after)

def takeSnapshot (store : Store ν ρ κ σ) (codec : EntryCodec κ σ) (state : ν) :
    Reply (PartitionPhase ρ κ σ) × ν :=
  match store.take state with
  | (.error e, after) => (failed e.status, after)
  | (.ok (feed, receipt), after) =>
    match sendAll codec (store.polledOut feed after) with
    | (frames, none) => (⟨frames, .wait (.offered receipt)⟩, after)
    | (frames, some status) => (⟨frames, .fail status⟩, store.release receipt after)

def handlers (store : Store ν ρ κ σ) (codec : EntryCodec κ σ) :
    Handlers (PartitionPhase ρ κ σ) ν :=
  [opening .upload fun _ state => (⟨[], .wait (.receiving [])⟩, state),
    opening .download fun first state =>
      match first with
      | .download horizon => download store codec horizon state
      | _ => (failed .malformed, state),
    opening .takeSnapshot fun _ state => takeSnapshot store codec state,
    opening .ping fun _ state =>
      let (result, after) := store.ping state
      (acknowledge result, after)]

/-- Hands over an upload that did not complete, so that the store discards it. -/
def abortUpload (store : Store ν ρ κ σ) (items : Feed κ σ) (reason : String) (state : ν) : ν :=
  (store.upload (items ++ [.error (.aborted reason)]) state).2

/-- Hands over an upload during which the store left: its answer is the last frame sent. -/
def rejected (store : Store ν ρ κ σ) (items : Feed κ σ) (state : ν) :
    Reply (PartitionPhase ρ κ σ) × ν :=
  match store.upload items state with
  | (.ok (), after) => (failed (.disconnected "Storage stopped reading the upload"), after)
  | (.error e, after) => (⟨[.error e.status], .fail (.disconnected "Upload rejected")⟩, after)

def resumeUpload (store : Store ν ρ κ σ) (codec : EntryCodec κ σ) (items : Feed κ σ) (frame : Frame)
    (state : ν) : Reply (PartitionPhase ρ κ σ) × ν :=
  match frame with
  | .error status =>
    (failed (.disconnected status.text), abortUpload store items status.message state)
  | .message kind payload =>
    if kind = MessageKind.endOfStream.number then
      let (result, after) := store.upload items state
      (acknowledge result, after)
    else if kind = MessageKind.entryBatch.number then
      match Message.decode .entryBatch payload with
      | .ok (.entryBatch batch) =>
        let items := items ++ Feed.ofBatch codec batch
        if leavesEarly (store.intake items state) items.length then rejected store items state
        else (⟨[], .wait (.receiving items)⟩, state)
      | .ok _ => (failed .malformed, abortUpload store items Status.malformed.message state)
      | .error status => (failed status, abortUpload store items status.message state)
    else
      (failed (.unexpected kind),
        abortUpload store items s!"Unexpected message kind {kind.toNat}" state)

/-- Goes on with a take: the acknowledgement commits it, anything else gives it up. -/
def resumeTake (store : Store ν ρ κ σ) (receipt : ρ) (frame : Frame) (state : ν) :
    Reply (PartitionPhase ρ κ σ) × ν :=
  match frame.expect .ack with
  | .ok _ =>
    let (result, after) := store.commit receipt true state
    (acknowledge result, after)
  | .error status => (failed status, store.release receipt state)

def abandonReason : Ending → String
  | .closed => "The client disconnected"
  | .failed cause => cause.message

def service (store : Store ν ρ κ σ) (codec : EntryCodec κ σ) : Service (PartitionPhase ρ κ σ) ν where
  handlers := handlers store codec
  resume phase frame state :=
    match phase with
    | .receiving items => resumeUpload store codec items frame state
    | .offered receipt => resumeTake store receipt frame state
  abandon phase ending state :=
    match phase with
    | .receiving items => abortUpload store items (abandonReason ending) state
    | .offered receipt => store.release receipt state

end PartitionService

end ReplicatedStore
