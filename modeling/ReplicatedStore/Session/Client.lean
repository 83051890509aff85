import ReplicatedStore.Session.Batch
/-!
# Talking to a served store

What a client sends for each request, and what it concludes from the frames it receives. A feed that
is received ends cleanly only with the message that says so; whatever else happens is one last error.
-/

namespace ReplicatedStore

variable {κ σ : Type}

/-- The frames that arrive on a connection, and how it ends after them. -/
structure Inbound where
  frames : List Frame
  ending : Ending
deriving DecidableEq, Repr

namespace Inbound

def ofBytes (bytes : Bytes) : Inbound :=
  let (frames, ending) := Frame.parse bytes
  ⟨frames, ending⟩

def ofSent (frames : List Frame) : Inbound := ofBytes (frames.flatMap Frame.bytes)

def expect (expected : MessageKind) (inbound : Inbound) : Except Status Message :=
  match inbound.frames with
  | [] => .error inbound.ending.status
  | frame :: _ => frame.expect expected

end Inbound

/-- What a frame means to a client that awaits entries. -/
inductive Arrival where
  | batch (entries : List Bytes)
  | ended
  | broken (status : Status)
deriving DecidableEq, Repr

def Frame.arrival : Frame → Arrival
  | .error status => .broken status
  | .message kind payload =>
    if kind = MessageKind.entryBatch.number then
      match Message.decode .entryBatch payload with
      | .ok (.entryBatch entries) => .batch entries
      | .ok _ => .broken .malformed
      | .error status => .broken status
    else if kind = MessageKind.endOfStream.number then .ended
    else .broken (.unexpected kind)

structure Received (κ σ : Type) where
  feed : Feed κ σ
  /-- The frames that follow the end of the feed; `none` if the feed did not end cleanly. -/
  rest : Option (List Frame)
deriving Repr

namespace Client

def uploadFrames (codec : EntryCodec κ σ) (batchSize : Nat) (feed : Feed κ σ) :
    List Frame × Option StoreError :=
  match feed.batches codec batchSize with
  | (frames, none) => (Message.upload.frame :: frames ++ [Message.endOfStream.frame], none)
  | (frames, some e) =>
    (Message.upload.frame :: frames ++ [.error (.handlerFailed s!"Upload aborted: {e.message}")], some e)

def acknowledged (inbound : Inbound) : Except StoreError Unit :=
  match inbound.expect .ack with
  | .ok _ => .ok ()
  | .error status => .error (.ofStatus status)

/-- What an upload concludes: the feed's own error comes first. -/
def uploadResult (failure : Option StoreError) (inbound : Inbound) : Except StoreError Unit :=
  match failure with
  | some e => .error e
  | none => acknowledged inbound

def broken (status : Status) : Received κ σ := ⟨[.error (.ofStatus status)], none⟩

def readEntries (codec : EntryCodec κ σ) (ending : Ending) : List Frame → Received κ σ
  | [] => broken ending.status
  | frame :: frames =>
    match frame.arrival with
    | .batch entries =>
      let received := readEntries codec ending frames
      ⟨Feed.ofBatch codec entries ++ received.feed, received.rest⟩
    | .ended => ⟨[], some frames⟩
    | .broken status => broken status

def entries (codec : EntryCodec κ σ) (inbound : Inbound) : Received κ σ :=
  readEntries codec inbound.ending inbound.frames

def notRead : StoreError := .aborted "The take must be fully read before committing"

/-- What a commit concludes from the frames that follow the end of the feed, which has to be read. -/
def commitResult (ending : Ending) (rest : Option (List Frame)) (drained : Bool) :
    Except StoreError Unit :=
  match drained, rest with
  | true, some frames => acknowledged ⟨frames, ending⟩
  | _, _ => .error notRead

/-- The store at the other end of a connection, as far as its answer to a single request tells. -/
def answered (codec : EntryCodec κ σ) (batchSize : Nat) (inbound : Inbound) :
    Store Unit (Option (List Frame)) κ σ :=
  let received := entries codec inbound
  { upload := fun feed _ => (uploadResult (uploadFrames codec batchSize feed).2 inbound, ())
    intake := fun _ _ => none
    download := fun _ _ => (.ok received.feed, ())
    take := fun _ => (.ok (received.feed, received.rest), ())
    commit := fun rest drained _ => (commitResult inbound.ending rest drained, ())
    release := fun _ _ => ()
    ping := fun _ => (acknowledged inbound, ())
    interruption := fun _ => .never }

end Client

end ReplicatedStore
