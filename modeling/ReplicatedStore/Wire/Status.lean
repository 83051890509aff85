import ReplicatedStore.Archive.Number
import ReplicatedStore.Archive.Record
import ReplicatedStore.Archive.Text
import ReplicatedStore.Text.Quoted
/-!
# Statuses

A status says why a session ended without completing. It travels inside error frames; the receiver
tells by its code whether the connection can still be used.
-/

namespace ReplicatedStore

inductive StatusCode where
  | unavailable
  | unknownKind
  | handlerFailed
  | malformedPayload
  | unexpectedKind
  | disconnected
  | timedOut
deriving DecidableEq, Repr

namespace StatusCode

def all : List StatusCode :=
  [unavailable, unknownKind, handlerFailed, malformedPayload, unexpectedKind, disconnected, timedOut]

def number : StatusCode → Nat
  | unavailable => 0
  | unknownKind => 1
  | handlerFailed => 2
  | malformedPayload => 3
  | unexpectedKind => 4
  | disconnected => 5
  | timedOut => 6

def name : StatusCode → String
  | unavailable => "Unavailable"
  | unknownKind => "UnknownKind"
  | handlerFailed => "HandlerFailed"
  | malformedPayload => "MalformedPayload"
  | unexpectedKind => "UnexpectedKind"
  | disconnected => "Disconnected"
  | timedOut => "TimedOut"

def ofNumber? (n : Nat) : Option StatusCode := all[n]?

end StatusCode

/-- Why a session ended without completing. -/
structure Status where
  code : StatusCode
  message : String
deriving DecidableEq, Repr

namespace Status

def unavailable (reason : String) : Status := ⟨.unavailable, reason⟩

def unknownKind (kind : UInt16) : Status :=
  ⟨.unknownKind, s!"No handler registered for message kind {kind.toNat}"⟩

def handlerFailed (reason : String) : Status := ⟨.handlerFailed, reason⟩

def malformed : Status := ⟨.malformedPayload, "Message payload failed validation"⟩

def unexpected (kind : UInt16) : Status :=
  ⟨.unexpectedKind, s!"Message kind {kind.toNat} was not expected in this session"⟩

def disconnected (reason : String) : Status := ⟨.disconnected, reason⟩

def closed : Status := ⟨.disconnected, "Connection closed mid session"⟩

def timedOut : Status := ⟨.timedOut, "Session deadline elapsed"⟩

/-- Whether the connection itself failed, so that it must be given up. -/
def isConnectionError (status : Status) : Bool :=
  status.code == .disconnected || status.code == .timedOut

def text (status : Status) : String := status.code.name ++ ": " ++ status.message

def describe (status : Status) : String :=
  "Status \x7b code: " ++ status.code.name ++ ", message: " ++ Text.quoted status.message ++ " \x7d"

end Status

instance : Archive StatusCode where
  size := 1
  align := 1
  loose _ _ := []
  fixed _ _ code := [UInt8.ofNat code.number]
  read archive own bounds := do
    let byte ← archive[own]?
    let code ← StatusCode.ofNumber? byte.toNat
    return (code, bounds)

instance : Archive Status :=
  Archive.via (fun s : Status => (s.code, s.message)) fun (code, message) => ⟨code, message⟩

end ReplicatedStore
