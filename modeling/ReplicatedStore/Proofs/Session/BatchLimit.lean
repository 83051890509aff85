import ReplicatedStore.Codec.Flat
import ReplicatedStore.Proofs.Session.Batch
import ReplicatedStore.Proofs.Wire.Frame
import ReplicatedStore.Session.Client
import ReplicatedStore.Session.Partition
/-!
# Batches and the limit of frames

Batches are cut by the number of their entries, and frames are limited by their length. So the peer reads all batches
of a feed exactly if the entries of each of them fit in a frame together. Entries that fit alone need not.
-/

namespace ReplicatedStore

variable {κ σ : Type}

namespace Frame

/-- The peer reads a frame as it was sent, whatever follows it. -/
def Accepted (frame : Frame) : Prop := ∀ rest, next? (frame.bytes ++ rest) = .ok (some (frame, rest))

def isBatch : Frame → Bool
  | message kind _ => kind == MessageKind.entryBatch.number
  | error _ => false

theorem length_le_of_next? {buffer rest payload : Bytes} {kind : UInt16}
    (h : next? buffer = .ok (some (message kind payload, rest))) : payload.length ≤ maxPayload := by
  cases head_cases buffer with
  | short hshort =>
    rw [next?_short hshort] at h
    cases h
  | invalid hnine hinvalid =>
    rw [next?_invalid _ hnine hinvalid] at h
    cases h
  | declared htype hfits =>
    rw [next?_declared _ _ htype hfits] at h
    split at h
    next => cases h
    next hunder =>
      split at h
      next => cases h
      next =>
        unfold ofParts at h
        split at h
        next =>
          cases h
          rw [List.length_take]
          omega
        next => cases h

theorem accepted_message_iff {kind : UInt16} {payload : Bytes} :
    (message kind payload).Accepted ↔ (message kind payload).Fits := by
  constructor
  · intro h
    exact length_le_of_next? (h [])
  · intro h rest
    exact next?_bytes_append h rest

end Frame

/-- Whether encodings fit in a frame together: with their bytes, padded, eight more for each, and another eight. -/
def FitTogether (batch : List Bytes) : Prop :=
  Archive.alignUp 4 batch.flatten.length + 8 * batch.length + 8 ≤ Frame.maxPayload

namespace Frame

theorem batch_accepted_iff {batch : List Bytes} : (Message.entryBatch batch).frame.Accepted ↔ FitTogether batch := by
  rw [FitTogether, ← Archive.length_encode_byteStrings]
  exact accepted_message_iff

/-- A batch that does not fit breaks the connection, whatever follows it, unless not even its length can be declared. -/
theorem next?_batch {batch : List Bytes} (hover : ¬FitTogether batch)
    (hdeclared : (Archive.encode batch).length < Bytes.capacity 4) (rest : Bytes) :
    next? ((Message.entryBatch batch).frame.bytes ++ rest) =
      .error (.invalidData
        s!"Frame of {(Archive.encode batch).length} bytes exceeds the limit of {maxPayload} bytes") := by
  have hlength : maxPayload < (Archive.encode batch).length := by
    rw [Archive.length_encode_byteStrings]
    exact Nat.lt_of_not_le hover
  exact next?_message_over hdeclared hlength rest

theorem isBatch_error (status : Status) : (error status).isBatch = false := rfl

theorem filter_ofBatches (batches : List (List Bytes)) : (ofBatches batches).filter isBatch = ofBatches batches := by
  apply List.filter_eq_self.mpr
  intro frame hframe
  obtain ⟨batch, -, rfl⟩ := List.mem_map.mp hframe
  rfl

theorem ofBatches_accepted_iff {frames : List Frame} {batches : List (List Bytes)}
    (h : frames.filter isBatch = ofBatches batches) :
    (∀ frame ∈ frames, frame.isBatch = true → frame.Accepted) ↔ ∀ batch ∈ batches, FitTogether batch := by
  constructor
  · intro haccepted batch hbatch
    have hsent : (Message.entryBatch batch).frame ∈ frames.filter isBatch := h ▸ List.mem_map_of_mem hbatch
    obtain ⟨hmem, hkind⟩ := List.mem_filter.mp hsent
    exact batch_accepted_iff.mp (haccepted _ hmem hkind)
  · intro hfit frame hmem hkind
    have hsent : frame ∈ ofBatches batches := h ▸ List.mem_filter.mpr ⟨hmem, hkind⟩
    obtain ⟨batch, hbatch, rfl⟩ := List.mem_map.mp hsent
    exact batch_accepted_iff.mpr (hfit batch hbatch)

end Frame

theorem Client.filter_uploadFrames (codec : EntryCodec κ σ) (size : Nat) (feed : Feed κ σ) :
    (uploadFrames codec size feed).1.filter Frame.isBatch = Frame.ofBatches (feed.sentBatches codec size) := by
  have hbatches := Frame.filter_ofBatches (feed.sentBatches codec size)
  have hrequest : Message.upload.frame.isBatch = false := by decide
  rw [uploadFrames, Feed.batches_eq]
  cases (feed.encodeItems codec).2 with
  | none =>
    have hend : Message.endOfStream.frame.isBatch = false := by decide
    simp [hbatches, hrequest, hend]
  | some cause => simp [hbatches, hrequest, Frame.isBatch_error]

theorem PartitionService.filter_sendAll (codec : EntryCodec κ σ) (feed : Feed κ σ) :
    (sendAll codec feed).1.filter Frame.isBatch = Frame.ofBatches (feed.sentBatches codec defaultBatchSize) := by
  have hbatches := Frame.filter_ofBatches (feed.sentBatches codec defaultBatchSize)
  rw [sendAll, Feed.batches_eq]
  cases (feed.encodeItems codec).2 with
  | none =>
    have hend : Message.endOfStream.frame.isBatch = false := by decide
    simp [hbatches, hend]
  | some cause => exact hbatches

namespace EntryCodec

theorem length_flatBytes (entry : Entry String Values) :
    (flatBytes entry).length = 20 + (Bytes.ofString entry.key).length + 8 * entry.state.state.length := by
  have hvalues : (entry.state.state.flatMap Bytes.ofInt64).length = entry.state.state.length * 8 := by
    rw [List.length_flatMap]
    simp [Bytes.ofInt64, Bytes.ofUInt64, Bytes.length_ofNat, List.map_const']
  simp only [flatBytes, List.length_append, Bytes.length_ofNat, Bytes.ofUInt64, hvalues]
  omega

end EntryCodec

namespace Feed

theorem fitTogether_single {codec : EntryCodec κ σ} {feed : Feed κ σ}
    (h : ∀ bytes ∈ (feed.encodeItems codec).1, FitTogether [bytes]) :
    ∀ batch ∈ feed.sentBatches codec 1, FitTogether batch := by
  intro batch hbatch
  have hpiece := mem_pieces_of_mem_sentBatches hbatch
  have hshort : batch.length ≤ 1 := length_le_of_mem_pieces hpiece
  cases batch with
  | nil => exact absurd rfl (ne_nil_of_mem_pieces hpiece)
  | cons bytes rest =>
    obtain rfl : rest = [] := List.eq_nil_of_length_eq_zero (by simpa using hshort)
    apply h
    rw [← flatten_pieces 1 (feed.encodeItems codec).1]
    exact List.mem_flatten_of_mem hpiece (List.mem_singleton_self bytes)

theorem fitTogether_of_short {codec : EntryCodec κ σ} {feed : Feed κ σ} {size bound : Nat}
    (hbound : max 1 size * (bound + 8) + 11 ≤ Frame.maxPayload)
    (h : ∀ bytes ∈ (feed.encodeItems codec).1, bytes.length ≤ bound) :
    ∀ batch ∈ feed.sentBatches codec size, FitTogether batch := by
  intro batch hbatch
  rw [FitTogether, ← Archive.length_encode_byteStrings]
  exact (length_encode_of_mem_sentBatches h hbatch).trans hbound

def zeros (key : String) (count : Nat) : Entry String Values := ⟨key, 1, ⟨1, .replicate count 0⟩⟩

theorem encodeItems_zeros (first second : String) (count : Nat) :
    (ofEntries [zeros first count, zeros second count]).encodeItems (.flat fun _ => false) =
      ([EntryCodec.flatBytes (zeros first count), EntryCodec.flatBytes (zeros second count)], none) := rfl

theorem length_flatBytes_zeros (key : String) (count : Nat) :
    (EntryCodec.flatBytes (zeros key count)).length = 20 + (Bytes.ofString key).length + 8 * count := by
  rw [EntryCodec.length_flatBytes, zeros, List.length_replicate]

theorem pair_refused {codec : EntryCodec κ σ} {feed : Feed κ σ} {first second : Bytes} {n : Nat}
    (hitems : feed.encodeItems codec = ([first, second], none)) (hfirst : first.length = n)
    (hsecond : second.length = n) (halone : Archive.alignUp 4 n + 16 ≤ Frame.maxPayload)
    (hover : Frame.maxPayload < Archive.alignUp 4 (n + n) + 24)
    (hdeclared : Archive.alignUp 4 (n + n) + 24 < Bytes.capacity 4) :
    (∀ bytes ∈ (feed.encodeItems codec).1, (Message.entryBatch [bytes]).frame.Accepted) ∧
    ∃ batch, (Message.entryBatch batch).frame ∈ (Client.uploadFrames codec defaultBatchSize feed).1 ∧
      (Message.entryBatch batch).frame ∈ (PartitionService.sendAll codec feed).1 ∧
      ∀ rest, Frame.next? ((Message.entryBatch batch).frame.bytes ++ rest) =
        .error (.invalidData
          s!"Frame of {Archive.alignUp 4 (n + n) + 24} bytes exceeds the limit of {Frame.maxPayload} bytes") := by
  have hlength : (Archive.encode [first, second]).length = Archive.alignUp 4 (n + n) + 24 := by
    rw [Archive.length_encode_byteStrings]
    simp [hfirst, hsecond]
  have hsent : (Message.entryBatch [first, second]).frame ∈
      Frame.ofBatches (feed.sentBatches codec defaultBatchSize) := by
    simp [sentBatches, hitems, pieces, defaultBatchSize, Frame.ofBatches]
  refine ⟨?alone, [first, second], ?client, ?server, ?refused⟩
  case alone =>
    intro bytes hbytes
    rw [hitems] at hbytes
    have heach : bytes.length = n := by
      rcases List.mem_pair.mp hbytes with rfl | rfl
      · exact hfirst
      · exact hsecond
    apply Frame.batch_accepted_iff.mpr
    simpa [FitTogether, heach] using halone
  case client =>
    rw [← Client.filter_uploadFrames] at hsent
    exact List.mem_of_mem_filter hsent
  case server =>
    rw [← PartitionService.filter_sendAll] at hsent
    exact List.mem_of_mem_filter hsent
  case refused =>
    intro rest
    have hnot : ¬FitTogether [first, second] := by
      rw [FitTogether, ← Archive.length_encode_byteStrings, hlength]
      exact Nat.not_le_of_lt hover
    rw [Frame.next?_batch hnot (by rwa [hlength]), hlength]

/-- The batches of a feed are read, by the peer of a client and by the peer of a server, if and only if the entries of
each batch fit in a frame together. This is so if they are sent one at a time and each fits alone, or if all of them are
short for their number in a batch. -/
theorem batches_accepted (codec : EntryCodec κ σ) (size : Nat) (feed : Feed κ σ) :
    ((∀ frame ∈ (Client.uploadFrames codec size feed).1, frame.isBatch = true → frame.Accepted) ↔
      ∀ batch ∈ feed.sentBatches codec size, FitTogether batch) ∧
    ((∀ frame ∈ (PartitionService.sendAll codec feed).1, frame.isBatch = true → frame.Accepted) ↔
      ∀ batch ∈ feed.sentBatches codec defaultBatchSize, FitTogether batch) ∧
    ((∀ bytes ∈ (feed.encodeItems codec).1, FitTogether [bytes]) →
      ∀ batch ∈ feed.sentBatches codec 1, FitTogether batch) ∧
    ∀ bound, max 1 size * (bound + 8) + 11 ≤ Frame.maxPayload →
      (∀ bytes ∈ (feed.encodeItems codec).1, bytes.length ≤ bound) →
        ∀ batch ∈ feed.sentBatches codec size, FitTogether batch := by
  refine ⟨?client, ?server, fitTogether_single, fun _ => fitTogether_of_short⟩
  case client => exact Frame.ofBatches_accepted_iff (Client.filter_uploadFrames codec size feed)
  case server => exact Frame.ofBatches_accepted_iff (PartitionService.filter_sendAll codec feed)

/-- Both of two entries fit in a frame alone. But they are sent together, and refused. -/
theorem zeros_refused :
    let codec := EntryCodec.flat fun _ => false
    let feed := ofEntries [zeros "a" 4194304, zeros "b" 4194304]
    (∀ bytes ∈ (feed.encodeItems codec).1, (Message.entryBatch [bytes]).frame.Accepted) ∧
    ∃ batch, (Message.entryBatch batch).frame ∈ (Client.uploadFrames codec defaultBatchSize feed).1 ∧
      (Message.entryBatch batch).frame ∈ (PartitionService.sendAll codec feed).1 ∧
      ∀ rest, Frame.next? ((Message.entryBatch batch).frame.bytes ++ rest) =
        .error (.invalidData "Frame of 67108932 bytes exceeds the limit of 67108864 bytes") := by
  have hlength : ∀ key, (Bytes.ofString key).length = 1 →
      (EntryCodec.flatBytes (zeros key 4194304)).length = 33554453 := by
    intro key hkey
    rw [length_flatBytes_zeros, hkey]
  exact pair_refused (encodeItems_zeros "a" "b" 4194304) (hlength "a" (by decide +kernel))
    (hlength "b" (by decide +kernel)) (by decide) (by decide) (by decide)

end Feed

end ReplicatedStore
