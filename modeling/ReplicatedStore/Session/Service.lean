import ReplicatedStore.Wire.Message
/-!
# Services

A service answers the sessions that a peer opens on a connection, one after the other. The first
message of a session selects a handler by its kind; a session that goes on waits in a phase for the next
frame. A session that fails costs one error frame, unless the connection itself failed.
-/

namespace ReplicatedStore

/-- What a session does after a frame. -/
inductive Turn (φ : Type) where
  | done
  | wait (phase : φ)
  | fail (status : Status)

structure Reply (φ : Type) where
  sent : List Frame
  turn : Turn φ

abbrev Handler (φ ν : Type) := Bytes → ν → Reply φ × ν

abbrev Handlers (φ ν : Type) := List (UInt16 × Handler φ ν)

namespace Handlers

variable {φ ν : Type}

def find? (handlers : Handlers φ ν) (kind : UInt16) : Option (Handler φ ν) := handlers.lookup kind

def add (handlers : Handlers φ ν) (kind : UInt16) (handler : Handler φ ν) :
    Except UInt16 (Handlers φ ν) :=
  if (handlers.find? kind).isSome then .error kind else .ok ((kind, handler) :: handlers)

def addAll (handlers : Handlers φ ν) : List (UInt16 × Handler φ ν) → Except UInt16 (Handlers φ ν)
  | [] => .ok handlers
  | (kind, handler) :: rest => (handlers.add kind handler).bind fun more => addAll more rest

def duplicateMessage (kind : UInt16) : String :=
  s!"A handler for message kind {kind.toNat} is already registered"

end Handlers

/-- How sessions with phases `φ` are served from a state `ν`. -/
structure Service (φ ν : Type) where
  handlers : Handlers φ ν
  resume : φ → Frame → ν → Reply φ × ν
  abandon : φ → Ending → ν → ν

/-- What a server awaits on a connection. -/
inductive Connection (φ : Type) where
  | idle
  | within (phase : φ)
  /-- Nothing: the connection was given up. -/
  | ended

namespace Service

variable {φ ν : Type}

def settle (reply : Reply φ) : List Frame × Connection φ :=
  match reply.turn with
  | .done => (reply.sent, .idle)
  | .wait phase => (reply.sent, .within phase)
  | .fail status =>
    if status.isConnectionError then (reply.sent, .ended)
    else (reply.sent ++ [.error status], .idle)

def opened (service : Service φ ν) (kind : UInt16) (payload : Bytes) (state : ν) : Reply φ × ν :=
  match service.handlers.find? kind with
  | some handler => handler payload state
  | none => (⟨[], .fail (.unknownKind kind)⟩, state)

/-- Serves one frame. An error between sessions is ignored. -/
def receive (service : Service φ ν) (frame : Frame) :
    Connection φ → ν → List Frame × Connection φ × ν
  | .idle, state =>
    match frame with
    | .error _ => ([], .idle, state)
    | .message kind payload =>
      let (reply, after) := service.opened kind payload state
      let (sent, connection) := settle reply
      (sent, connection, after)
  | .within phase, state =>
    let (reply, after) := service.resume phase frame state
    let (sent, connection) := settle reply
    (sent, connection, after)
  | .ended, state => ([], .ended, state)

def receiveAll (service : Service φ ν) :
    List Frame → Connection φ → ν → List Frame × Connection φ × ν
  | [], connection, state => ([], connection, state)
  | frame :: frames, connection, state =>
    let (sent, connection, state) := service.receive frame connection state
    let (more, connection, state) := service.receiveAll frames connection state
    (sent ++ more, connection, state)

def close (service : Service φ ν) (ending : Ending) : Connection φ → ν → ν
  | .within phase, state => service.abandon phase ending state
  | _, state => state

def serve (service : Service φ ν) (frames : List Frame) (ending : Ending) (state : ν) :
    List Frame × ν :=
  let (sent, connection, after) := service.receiveAll frames .idle state
  (sent, service.close ending connection after)

/-- Serves one frame while `room` more frames can be sent. At a frame that cannot be sent the connection is
given up, and with it a session that waits for another frame. -/
def receiveWithin (service : Service φ ν) (room : Nat) (frame : Frame) (connection : Connection φ) (state : ν) :
    List Frame × Connection φ × ν :=
  let (sent, next, after) := service.receive frame connection state
  if sent.length ≤ room then (sent, next, after)
  else (sent.take room, .ended, service.close .closed next after)

def serveWithin (service : Service φ ν) (ending : Ending) :
    Nat → List Frame → Connection φ → ν → List Frame × ν
  | _, [], connection, state => ([], service.close ending connection state)
  | room, frame :: frames, connection, state =>
    let (sent, next, after) := service.receiveWithin room frame connection state
    let (more, last) := service.serveWithin ending (room - sent.length) frames next after
    (sent ++ more, last)

end Service

end ReplicatedStore
