import ReplicatedStore.Archive.Sequence
import ReplicatedStore.Wire.Frame
/-!
# Messages of the partition protocol

The messages by which a store is served over a connection, their kinds, and their payloads, which are
archives.
-/

namespace ReplicatedStore

inductive MessageKind where
  | upload
  | download
  | takeSnapshot
  | ping
  | entryBatch
  | endOfStream
  | ack
deriving DecidableEq, Repr

namespace MessageKind

def number : MessageKind → UInt16
  | upload => 1
  | download => 2
  | takeSnapshot => 3
  | ping => 4
  | entryBatch => 10
  | endOfStream => 11
  | ack => 12

def name : MessageKind → String
  | upload => "Upload"
  | download => "Download"
  | takeSnapshot => "TakeSnapshot"
  | ping => "Ping"
  | entryBatch => "EntryBatch"
  | endOfStream => "EndOfStream"
  | ack => "Ack"

def all : List MessageKind := [upload, download, takeSnapshot, ping, entryBatch, endOfStream, ack]

def ofName? (name : String) : Option MessageKind := all.find? fun kind => kind.name == name

end MessageKind

inductive Message where
  | upload
  | download (horizon : UInt64)
  | takeSnapshot
  | ping
  | entryBatch (entries : List Bytes)
  | endOfStream
  | ack
deriving DecidableEq, Repr

namespace Message

def kind : Message → MessageKind
  | upload => .upload
  | download _ => .download
  | takeSnapshot => .takeSnapshot
  | ping => .ping
  | entryBatch _ => .entryBatch
  | endOfStream => .endOfStream
  | ack => .ack

def payload : Message → Bytes
  | download horizon => Archive.encode horizon
  | entryBatch entries => Archive.encode entries
  | _ => Archive.encode ()

def frame (m : Message) : Frame := .message m.kind.number m.payload

def ofEmpty? (m : Message) (payload : Bytes) : Option Message :=
  (Archive.decode payload).map fun () => m

def decode? (expected : MessageKind) (payload : Bytes) : Option Message :=
  match expected with
  | .upload => ofEmpty? upload payload
  | .download => (Archive.decode payload).map download
  | .takeSnapshot => ofEmpty? takeSnapshot payload
  | .ping => ofEmpty? ping payload
  | .entryBatch => (Archive.decode payload).map entryBatch
  | .endOfStream => ofEmpty? endOfStream payload
  | .ack => ofEmpty? ack payload

def decode (expected : MessageKind) (payload : Bytes) : Except Status Message :=
  match decode? expected payload with
  | some m => .ok m
  | none => .error .malformed

end Message

namespace Ending

def status : Ending → Status
  | closed => .closed
  | failed cause => .disconnected cause.message

end Ending

def Frame.expect (expected : MessageKind) : Frame → Except Status Message
  | .message kind payload =>
    if kind = expected.number then Message.decode expected payload else .error (.unexpected kind)
  | .error status => .error status

def Receiver.expect (expected : MessageKind) (receiver : Receiver) : Except Status Message × Receiver :=
  match receiver.next with
  | (.ok frame, after) => (frame.expect expected, after)
  | (.error ending, after) => (.error ending.status, after)

end ReplicatedStore
