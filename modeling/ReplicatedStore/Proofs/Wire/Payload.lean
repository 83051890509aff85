import ReplicatedStore.Entry.Combiner
import ReplicatedStore.Proofs.Store.Contents
import ReplicatedStore.Proofs.Wire.Message
/-!
# What is sent and stored is read back

Every message is read back from its frame, every status from the frame of an error, and every entry of
numbers from its archive, as long as the archive is shorter than what a signed offset reaches.
-/

namespace ReplicatedStore

namespace Archive

instance : Lawful Int64 := lawful_via Int64.toUInt64 UInt64.toInt64 Int64.toInt64_toUInt64

instance : Lawful (List Int64) := lawful_list (by decide)

instance {σ : Type} [Archive σ] [Lawful σ] : Lawful (Stamped σ) :=
  lawful_via (fun s : Stamped σ => (s.timestamp, s.state)) (fun (timestamp, state) => ⟨timestamp, state⟩)
    fun _ => rfl

end Archive

namespace Message

theorem decode_payload (m : Message) (h : m.payload.length < 2147483648) : decode m.kind m.payload = .ok m := by
  cases m with
  | download horizon => exact decode_download horizon
  | entryBatch entries =>
    have hread : Archive.decode (Archive.encode entries) = some entries := Archive.decode_encode h
    simp only [kind, decode, decode?, payload, hread, Option.map_some]
  | _ => exact decode_of_ofEmpty? rfl

theorem expect_frame (m : Message) (h : m.payload.length < 2147483648) : m.frame.expect m.kind = .ok m := by
  rw [frame, Frame.expect, if_pos rfl]
  exact m.decode_payload h

end Message

theorem Frame.ofParts_status {status : Status} (h : (Archive.encode status).length < 2147483648) :
    ofParts 1 0 (Archive.encode status) = .error status := by
  rw [ofParts, if_neg (by decide), Archive.decode_encode h, Option.getD_some]

/-- Batches of any entries, requests for any horizon, all statuses and all entries of numbers are restored from
their archives. -/
theorem Archive.payloads_restored (batch : List Bytes) (horizon : UInt64) (status : Status) (entry : Entry String Values)
    (hbatch : (encode batch).length < 2147483648) (hstatus : (encode status).length < 2147483648)
    (hentry : (encode entry).length < 2147483648) :
    decode (encode batch) = some batch ∧
      (Message.entryBatch batch).frame.expect .entryBatch = .ok (.entryBatch batch) ∧
      decode (encode horizon) = some horizon ∧
      (Message.download horizon).frame.expect .download = .ok (.download horizon) ∧
      decode (encode status) = some status ∧
      Frame.ofParts 1 0 (encode status) = .error status ∧
      ∃ bytes, (EntryCodec.archived String Values).encode entry = .ok bytes ∧
        (EntryCodec.archived String Values).decode bytes = .ok entry := by
  have hword : (encode horizon).length < 2147483648 := by
    rw [Message.length_encode_word]
    decide
  refine ⟨decode_encode hbatch, Message.expect_frame _ hbatch, decode_encode hword, Message.expect_frame _ hword,
    decode_encode hstatus, Frame.ofParts_status hstatus, encode entry, rfl, EntryCodec.archived_decode hentry⟩

/-- A batch whose first and last entries are empty, a long message, a long key and numbers at both ends. -/
theorem Archive.payloads_restored_extremes :
    let batch : List Bytes := [[], [1, 2, 3, 4, 5], []]
    let status := Status.unavailable "partition offline"
    let entry : Entry String Values := ⟨"naïve key", 18446744073709551615, ⟨0, [Int64.minValue, -1, Int64.maxValue]⟩⟩
    let nothing : Entry String Values := ⟨"", 0, ⟨18446744073709551615, []⟩⟩
    (Message.entryBatch batch).frame.expect .entryBatch = .ok (.entryBatch batch) ∧
      (Message.download 18446744073709551615).frame.expect .download = .ok (.download 18446744073709551615) ∧
      Frame.ofParts 1 0 (encode status) = .error status ∧
      decode (encode status) = some status ∧
      (EntryCodec.archived String Values).decode (encode entry) = .ok entry ∧
      (EntryCodec.archived String Values).decode (encode nothing) = .ok nothing := by
  intro batch status entry nothing
  have hbatch : (encode batch).length < 2147483648 := by decide +kernel
  have hstatus : (encode status).length < 2147483648 := by decide +kernel
  have hentry : (encode entry).length < 2147483648 := by decide +kernel
  have hnothing : (encode nothing).length < 2147483648 := by decide +kernel
  obtain ⟨-, hsent, -, hrequest, hread, herror, bytes, hbytes, hrestored⟩ :=
    payloads_restored batch 18446744073709551615 status entry hbatch hstatus hentry
  obtain ⟨-, -, -, -, -, -, bytes', hbytes', hrestored'⟩ :=
    payloads_restored batch 0 status nothing hbatch hstatus hnothing
  obtain rfl := Except.ok.inj hbytes
  obtain rfl := Except.ok.inj hbytes'
  exact ⟨hsent, hrequest, herror, hread, hrestored, hrestored'⟩

end ReplicatedStore
