import ReplicatedStore.Proofs.Wire.Frame
import ReplicatedStore.Wire.Message
/-!
# Messages in frames

Which frames hold a message: the messages without content are read from any payload, a batch of entries from
its archive.
-/

namespace ReplicatedStore

namespace Archive

@[simp] theorem decode_unit (payload : Bytes) : (decode payload : Option Unit) = some () := by
  have hclaim : Bounds.claim ⟨0, payload.length⟩ payload.length (payload.length : Nat) 0 1 = some payload.length :=
    Bounds.claim_eq (Nat.zero_le _) (Nat.le_refl _) (Nat.le_refl _) (Nat.mod_one _)
  show (do
    let own ← Bounds.claim ⟨0, payload.length⟩ payload.length ((payload.length : Int) - (0 : Nat)) 0 1
    let (value, _) ← some ((), Bounds.before ⟨0, payload.length⟩ own)
    return value) = some ()
  rw [Int.natCast_zero, Int.sub_zero, hclaim]
  rfl

end Archive

namespace Message

/-- A message without content is read from any payload of its kind. -/
theorem decode_of_ofEmpty? {expected : MessageKind} {m : Message} {payload : Bytes}
    (h : decode? expected payload = ofEmpty? m payload) : decode expected payload = .ok m := by
  rw [decode, h, ofEmpty?, Archive.decode_unit, Option.map_some]

theorem decode_upload (payload : Bytes) : decode .upload payload = .ok .upload := decode_of_ofEmpty? rfl

theorem decode_takeSnapshot (payload : Bytes) : decode .takeSnapshot payload = .ok .takeSnapshot :=
  decode_of_ofEmpty? rfl

theorem decode_ping (payload : Bytes) : decode .ping payload = .ok .ping := decode_of_ofEmpty? rfl

theorem decode_ack (payload : Bytes) : decode .ack payload = .ok .ack := decode_of_ofEmpty? rfl

theorem length_encode_word (word : UInt64) : (Archive.encode word).length = 8 := by
  simp [Archive.encode, Archive.loose, Archive.fixed, Archive.align, Archive.alignUp, Archive.zeros]

theorem decode_download (horizon : UInt64) : decode .download (download horizon).payload = .ok (.download horizon) := by
  have hread : (Archive.decode (Archive.encode horizon) : Option UInt64) = some horizon :=
    Archive.decode_encode (by rw [length_encode_word]; decide)
  simp only [decode, decode?, payload, hread, Option.map_some]

theorem eq_malformed {expected : MessageKind} {payload : Bytes} {status : Status}
    (h : decode expected payload = .error status) : status = .malformed := by
  unfold decode at h
  split at h
  next => cases h
  next =>
    cases h
    rfl

end Message

namespace Frame

/-- Whether the first of some frames is a message of a kind. -/
def Opens (kind : MessageKind) (frames : List Frame) : Prop :=
  ∃ payload rest, frames = .message kind.number payload :: rest

def entryBatch? : Frame → Option (List Bytes)
  | .message kind payload =>
    if kind = MessageKind.entryBatch.number then Archive.decode payload else none
  | .error _ => none

theorem eq_of_entryBatch? {frame : Frame} {entries : List Bytes} (h : frame.entryBatch? = some entries) :
    ∃ payload, frame = .message MessageKind.entryBatch.number payload ∧ Archive.decode payload = some entries := by
  cases frame with
  | error status => cases h
  | message kind payload =>
    by_cases hkind : kind = MessageKind.entryBatch.number
    · exact ⟨payload, by rw [hkind], by rwa [entryBatch?, if_pos hkind] at h⟩
    · rw [entryBatch?, if_neg hkind] at h
      cases h

theorem entryBatch?_entryBatch {entries : List Bytes} (h : (Message.entryBatch entries).frame.Fits) :
    (Message.entryBatch entries).frame.entryBatch? = some entries :=
  Archive.decode_encode (Nat.lt_of_le_of_lt h (by simp [maxPayload]))

theorem fits_download (horizon : UInt64) : (Message.download horizon).frame.Fits := by
  show (Archive.encode horizon).length ≤ maxPayload
  rw [Message.length_encode_word]
  decide

theorem expect_ack (frame : Frame) (rest : List Frame) :
    (∃ m, frame.expect .ack = .ok m) ↔ Opens .ack (frame :: rest) := by
  cases frame with
  | error status => exact ⟨nofun, nofun⟩
  | message kind payload =>
    by_cases hkind : kind = MessageKind.ack.number
    · rw [expect, if_pos hkind, Message.decode_ack, hkind]
      exact ⟨fun _ => ⟨payload, rest, rfl⟩, fun _ => ⟨_, rfl⟩⟩
    · rw [expect, if_neg hkind]
      refine ⟨nofun, fun ⟨_, _, h⟩ => ?_⟩
      cases h
      exact absurd rfl hkind

end Frame

namespace Receiver

theorem expect_ack (receiver : Receiver) :
    (∃ m, (receiver.expect .ack).1 = .ok m) ↔ Frame.Opens .ack (Frame.parse receiver.unread).1 := by
  obtain ⟨hframe, hending⟩ := parse_unread receiver
  unfold expect
  match hnext : receiver.next with
  | (.ok frame, after) =>
    rw [hframe frame after hnext]
    exact frame.expect_ack _
  | (.error ending, after) =>
    rw [hending ending after hnext]
    exact ⟨nofun, nofun⟩

end Receiver

end ReplicatedStore
