import ReplicatedStore.Session.Client
import ReplicatedStore.Session.Partition
/-!
# Remote stores

A store that is served at an address, as its clients see it: every request opens a connection of its
own. Both sides read the bytes that the other has sent, so a remote store answers from the state of the
store behind it.
-/

namespace ReplicatedStore

variable {κ σ ν ρ : Type}

structure RemoteOptions where
  connectTimeout : Nat
  batchSize : Nat
deriving DecidableEq, Repr

namespace RemoteOptions

def standard : RemoteOptions := ⟨2000, defaultBatchSize⟩

def withBatchSize (options : RemoteOptions) (size : Nat) : RemoteOptions :=
  { options with batchSize := max 1 size }

def withConnectTimeout (options : RemoteOptions) (milliseconds : Nat) : RemoteOptions :=
  { options with connectTimeout := milliseconds }

end RemoteOptions

inductive Link where
  | up
  | down (cause : ConnectionError)
deriving DecidableEq, Repr

/-- A store behind an address. -/
structure Served (ν : Type) where
  link : Link
  state : ν

/-- What is left of a connection on which a take was read. -/
structure RemoteReceipt (ρ κ σ : Type) where
  connection : Connection (PartitionPhase ρ κ σ)
  /-- The frames that follow the end of the feed, if it ended cleanly. -/
  rest : Option (List Frame)

structure RemoteClient (κ σ : Type) where
  address : String
  codec : EntryCodec κ σ
  options : RemoteOptions

namespace RemoteClient

def connectError (client : RemoteClient κ σ) (cause : ConnectionError) : StoreError :=
  .unavailable ("Failed to connect to " ++ client.address ++ ": " ++ cause.message)

/-- Opens a connection, sends frames and closes it; the answer is what arrives. -/
def exchange (client : RemoteClient κ σ) (service : Service (PartitionPhase ρ κ σ) ν)
    (frames : List Frame) (served : Served ν) : Except StoreError Inbound × Served ν :=
  match served.link with
  | .down cause => (.error (client.connectError cause), served)
  | .up =>
    let request := Inbound.ofSent frames
    let (sent, state) := service.serve request.frames request.ending served.state
    (.ok (.ofSent sent), { served with state })

def upload (client : RemoteClient κ σ) (service : Service (PartitionPhase ρ κ σ) ν)
    (feed : Feed κ σ) (served : Served ν) : Except StoreError Unit × Served ν :=
  let (frames, failure) := Client.uploadFrames client.codec client.options.batchSize feed
  let (answer, served) := client.exchange service frames served
  (answer.bind (Client.uploadResult failure), served)

def download (client : RemoteClient κ σ) (service : Service (PartitionPhase ρ κ σ) ν)
    (horizon : UInt64) (served : Served ν) : Except StoreError (Feed κ σ) × Served ν :=
  let (answer, served) := client.exchange service [(Message.download horizon).frame] served
  (answer.map fun inbound => (Client.entries client.codec inbound).feed, served)

def take (client : RemoteClient κ σ) (service : Service (PartitionPhase ρ κ σ) ν)
    (served : Served ν) : Except StoreError (Feed κ σ × RemoteReceipt ρ κ σ) × Served ν :=
  match served.link with
  | .down cause => (.error (client.connectError cause), served)
  | .up =>
    let request := Inbound.ofSent [Message.takeSnapshot.frame]
    let (sent, connection, state) := service.receiveAll request.frames .idle served.state
    let received := Client.entries client.codec (.ofSent sent)
    (.ok (received.feed, ⟨connection, received.rest⟩), { served with state })

def release (service : Service (PartitionPhase ρ κ σ) ν) (receipt : RemoteReceipt ρ κ σ)
    (served : Served ν) : Served ν :=
  { served with state := service.close .closed receipt.connection served.state }

/-- Acknowledges a take that was read to its clean end; other takes cannot be committed. -/
def commit (service : Service (PartitionPhase ρ κ σ) ν) (receipt : RemoteReceipt ρ κ σ)
    (drained : Bool) (served : Served ν) : Except StoreError Unit × Served ν :=
  match served.link, drained, receipt.rest with
  | .up, true, some rest =>
    let request := Inbound.ofSent [Message.ack.frame]
    let (sent, connection, state) := service.receiveAll request.frames receipt.connection served.state
    let answer := Inbound.ofSent sent
    (Client.acknowledged ⟨rest ++ answer.frames, answer.ending⟩,
      { served with state := service.close request.ending connection state })
  | .down _, true, some _ => (.error (.ofStatus .closed), release service receipt served)
  | _, _, _ => (.error Client.notRead, release service receipt served)

def ping (client : RemoteClient κ σ) (service : Service (PartitionPhase ρ κ σ) ν)
    (served : Served ν) : Except StoreError Unit × Served ν :=
  let (answer, served) := client.exchange service [Message.ping.frame] served
  (answer.bind Client.acknowledged, served)

/-- The requests answered by a remote store; `codec` is the codec of the service. -/
def requests (client : RemoteClient κ σ) (store : Store ν ρ κ σ) (codec : EntryCodec κ σ) :
    Store (Served ν) (RemoteReceipt ρ κ σ) κ σ :=
  let service := PartitionService.service store codec
  { upload := client.upload service
    intake := fun _ _ => none
    download := client.download service
    take := client.take service
    commit := commit service
    release := release service
    ping := client.ping service
    interruption := fun _ => .never }

end RemoteClient

end ReplicatedStore
