import ReplicatedStore.Wire.Status
/-!
# Frames

A connection carries frames: a type byte, a message kind, the payload's length, a line end, and the
payload. `Frame.parse` reads a whole byte string and says how it ends; `Receiver.next` reads frames from
bytes that arrive in chunks.
-/

namespace ReplicatedStore

inductive ConnectionError where
  | invalidData (reason : String)
  | unexpectedEnd
  | refused
  | unreachable
deriving DecidableEq, Repr

namespace ConnectionError

def kind : ConnectionError → String
  | invalidData _ => "InvalidData"
  | unexpectedEnd => "UnexpectedEof"
  | refused => "ConnectionRefused"
  | unreachable => "NetworkUnreachable"

def message : ConnectionError → String
  | invalidData reason => reason
  | unexpectedEnd => "unexpected end of file"
  | refused => "Connection refused (os error 111)"
  | unreachable => "Network is unreachable (os error 101)"

end ConnectionError

/-- What a connection carries at a time. -/
inductive Frame where
  | message (kind : UInt16) (payload : Bytes)
  | error (status : Status)
deriving DecidableEq, Repr

/-- How a connection ended, once no frame is left. -/
inductive Ending where
  | closed
  | failed (cause : ConnectionError)
deriving DecidableEq, Repr

namespace Frame

def maxPayload : Nat := 64 * 1024 * 1024

def header (type : UInt8) (kind : UInt16) (length : Nat) : Bytes :=
  [type] ++ Bytes.ofUInt16 kind ++ Bytes.ofNat 4 length ++ [13, 10]

def bytes : Frame → Bytes
  | message kind payload => header 0 kind payload.length ++ payload
  | error status =>
    let payload := Archive.encode status
    header 1 0 payload.length ++ payload

/-- The frame with the given type byte, kind and payload. An error whose status cannot be read stands
for a failure of the peer. -/
def ofParts (type : UInt8) (kind : UInt16) (payload : Bytes) : Frame :=
  if type = 0 then message kind payload
  else error ((Archive.decode payload).getD (.handlerFailed "The peer sent an unreadable error."))

/-- The first frame of a buffer and what follows it; `none` if more bytes are needed. -/
def next? : Bytes → Except ConnectionError (Option (Frame × Bytes))
  | type :: k₀ :: k₁ :: l₀ :: l₁ :: l₂ :: l₃ :: cr :: lf :: body =>
    let length := Bytes.toNat [l₀, l₁, l₂, l₃]
    if cr ≠ 13 ∨ lf ≠ 10 ∨ 1 < type then .error (.invalidData "Received an invalid frame header")
    else if maxPayload < length then
      .error (.invalidData s!"Frame of {length} bytes exceeds the limit of {maxPayload} bytes")
    else
      let payload := body.take length
      if payload.length < length then .ok none
      else
        let kind := UInt16.ofNat (Bytes.toNat [k₀, k₁])
        .ok (some (ofParts type kind payload, body.drop length))
  | _ => .ok none

theorem length_lt_of_next? {buffer rest : Bytes} {frame : Frame}
    (h : next? buffer = .ok (some (frame, rest))) : rest.length < buffer.length := by
  unfold next? at h
  split at h
  · simp only at h
    split at h
    · simp at h
    split at h
    · simp at h
    split at h
    · simp at h
    · simp only [Except.ok.injEq, Option.some.injEq, Prod.mk.injEq] at h
      rw [← h.2, List.length_drop]
      simp only [List.length_cons]
      omega
  · simp at h

def endingOf (buffer : Bytes) : Ending :=
  if buffer.isEmpty then .closed else .failed .unexpectedEnd

def parse (buffer : Bytes) : List Frame × Ending :=
  match _h : next? buffer with
  | .error cause => ([], .failed cause)
  | .ok none => ([], endingOf buffer)
  | .ok (some (frame, rest)) =>
    let (frames, ending) := parse rest
    (frame :: frames, ending)
termination_by buffer.length
decreasing_by exact length_lt_of_next? _h

end Frame

/-- The receiving side of a connection: bytes not yet read as frames, and chunks yet to arrive. -/
structure Receiver where
  buffer : Bytes
  incoming : List Bytes
deriving DecidableEq, Repr

namespace Receiver

/-- Waits for chunks until the buffer holds a frame, is seen to hold none, or the connection ends. -/
def await (buffer : Bytes) : List Bytes → Except Ending Frame × Receiver
  | [] =>
    match Frame.next? buffer with
    | .error cause => (.error (.failed cause), ⟨buffer, []⟩)
    | .ok none => (.error (Frame.endingOf buffer), ⟨buffer, []⟩)
    | .ok (some (frame, rest)) => (.ok frame, ⟨rest, []⟩)
  | chunk :: chunks =>
    match Frame.next? buffer with
    | .error cause => (.error (.failed cause), ⟨buffer, chunk :: chunks⟩)
    | .ok none => await (buffer ++ chunk) chunks
    | .ok (some (frame, rest)) => (.ok frame, ⟨rest, chunk :: chunks⟩)

def next (receiver : Receiver) : Except Ending Frame × Receiver :=
  await receiver.buffer receiver.incoming

def pending (receiver : Receiver) : Nat :=
  receiver.buffer.length + receiver.incoming.flatten.length

theorem pending_await_lt {buffer : Bytes} {chunks : List Bytes} {frame : Frame} {after : Receiver}
    (h : await buffer chunks = (.ok frame, after)) :
    after.pending < (Receiver.mk buffer chunks).pending := by
  induction chunks generalizing buffer with
  | nil =>
    rw [await] at h
    split at h <;> simp only [Prod.mk.injEq, reduceCtorEq, false_and, Except.ok.injEq] at h
    next hn => have := Frame.length_lt_of_next? hn; rw [← h.2]; simpa [pending]
  | cons chunk chunks ih =>
    rw [await] at h
    split at h
    · simp at h
    · have := ih h
      simp only [pending, List.length_append, List.flatten_cons] at this ⊢
      omega
    · next hn =>
      simp only [Prod.mk.injEq, Except.ok.injEq] at h
      have := Frame.length_lt_of_next? hn
      rw [← h.2]
      simpa [pending]

def drain (receiver : Receiver) : List Frame × Ending :=
  match _h : receiver.next with
  | (.error ending, _) => ([], ending)
  | (.ok frame, after) =>
    let (frames, ending) := drain after
    (frame :: frames, ending)
termination_by receiver.pending
decreasing_by exact pending_await_lt _h

end Receiver

end ReplicatedStore
