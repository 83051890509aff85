import ReplicatedStore.Proofs.Store.Contents
import ReplicatedStore.Session.Batch
/-!
# Feeds cut into batches

With a codec that reads back what it writes, the batches of a feed hold the entries of the feed, in order and each
of them once. A feed that fails is sent as far as whole batches were filled before it did.
-/

namespace ReplicatedStore

variable {κ σ : Type}

namespace EntryCodec

/-- Whether an item of a feed cannot be sent, and the error for which it is not. -/
inductive Refuses (codec : EntryCodec κ σ) : Except StoreError (Entry κ σ) → StoreError → Prop
  | error (cause : StoreError) : Refuses codec (.error cause) cause
  | entry {entry : Entry κ σ} {cause : CodecError} (h : codec.encode entry = .error cause) :
    Refuses codec (.ok entry) (.codec cause)

end EntryCodec

def Frame.ofBatches (batches : List (List Bytes)) : List Frame :=
  batches.map fun batch => (Message.entryBatch batch).frame

theorem Frame.ofBatches_cons (batch : List Bytes) (batches : List (List Bytes)) :
    ofBatches (batch :: batches) = (Message.entryBatch batch).frame :: ofBatches batches := rfl

namespace Feed

theorem flatten_pieces {α : Type} (size : Nat) (items : List α) : (pieces size items).flatten = items := by
  fun_induction pieces size items with
  | case1 => rfl
  | case2 item items ih => rw [List.flatten_cons, ih, List.cons_append, List.take_append_drop]

theorem length_le_of_mem_pieces {α : Type} {size : Nat} {items piece : List α} (h : piece ∈ pieces size items) :
    piece.length ≤ max 1 size := by
  fun_induction pieces size items with
  | case1 => contradiction
  | case2 item items ih =>
    rcases List.mem_cons.mp h with rfl | hrest
    · have hshort : (items.take (size - 1)).length ≤ size - 1 := List.length_take_le _ _
      rw [List.length_cons]
      omega
    · exact ih hrest

theorem ne_nil_of_mem_pieces {α : Type} {size : Nat} {items piece : List α} (h : piece ∈ pieces size items) :
    piece ≠ [] := by
  fun_induction pieces size items with
  | case1 => contradiction
  | case2 item items ih =>
    rcases List.mem_cons.mp h with rfl | hrest
    · exact List.cons_ne_nil _ _
    · exact ih hrest

/-- The batches in which a feed is sent. If it fails, only those that were filled before it did. -/
def sentBatches (codec : EntryCodec κ σ) (size : Nat) (feed : Feed κ σ) : List (List Bytes) :=
  let cut := pieces size (feed.encodeItems codec).1
  if (feed.encodeItems codec).2.isSome then cut.filter fun batch => batch.length == max 1 size else cut

theorem batches_eq (codec : EntryCodec κ σ) (size : Nat) (feed : Feed κ σ) :
    feed.batches codec size = (Frame.ofBatches (feed.sentBatches codec size), (feed.encodeItems codec).2) := rfl

theorem mem_pieces_of_mem_sentBatches {codec : EntryCodec κ σ} {size : Nat} {feed : Feed κ σ} {batch : List Bytes}
    (h : batch ∈ feed.sentBatches codec size) : batch ∈ pieces size (feed.encodeItems codec).1 := by
  unfold sentBatches at h
  split at h
  next => exact List.mem_of_mem_filter h
  next => exact h

theorem encodeItems_encoded {codec : EntryCodec κ σ} {bound : Nat} {feed : Feed κ σ}
    (h : ∀ entry, .ok entry ∈ feed → ∃ bytes, codec.encode entry = .ok bytes ∧ bytes.length ≤ bound) :
    (∀ bytes ∈ (feed.encodeItems codec).1, bytes.length ≤ bound) ∧
      ∀ cause, (feed.encodeItems codec).2 = some cause → .error cause ∈ feed := by
  induction feed with
  | nil => exact ⟨fun _ hbytes => absurd hbytes List.not_mem_nil, fun _ hcause => by cases hcause⟩
  | cons item rest ih =>
    cases item with
    | error own =>
      refine ⟨fun _ hbytes => absurd hbytes List.not_mem_nil, fun cause hcause => ?_⟩
      obtain rfl : own = cause := Option.some.inj hcause
      exact List.mem_cons_self
    | ok entry =>
      obtain ⟨bytes, hencode, hbytes⟩ := h entry List.mem_cons_self
      obtain ⟨hrest, hcause⟩ := ih fun later hlater => h later (List.mem_cons_of_mem _ hlater)
      rw [encodeItems, hencode]
      exact ⟨List.forall_mem_cons.mpr ⟨hbytes, hrest⟩, fun cause hfailed =>
        List.mem_cons_of_mem _ (hcause cause hfailed)⟩

theorem length_encode_of_mem_sentBatches {codec : EntryCodec κ σ} {size bound : Nat} {feed : Feed κ σ}
    {batch : List Bytes} (h : ∀ bytes ∈ (feed.encodeItems codec).1, bytes.length ≤ bound)
    (hbatch : batch ∈ feed.sentBatches codec size) :
    (Archive.encode batch).length ≤ max 1 size * (bound + 8) + 11 := by
  have hpiece := mem_pieces_of_mem_sentBatches hbatch
  refine Archive.length_encode_byteStrings_le (length_le_of_mem_pieces hpiece) fun bytes hbytes => h bytes ?_
  rw [← flatten_pieces size (feed.encodeItems codec).1]
  exact List.mem_flatten_of_mem hpiece hbytes

section Encoding

variable {codec : EntryCodec κ σ} {entries : List (Entry κ σ)}

theorem encodeItems_append (h : ∀ entry ∈ entries, ∃ bytes, codec.encode entry = .ok bytes) (rest : Feed κ σ) :
    ∃ encoded, entries.map codec.encode = encoded.map .ok ∧
      encodeItems codec (ofEntries entries ++ rest) =
        (encoded ++ (encodeItems codec rest).1, (encodeItems codec rest).2) := by
  induction entries with
  | nil => exact ⟨[], rfl, rfl⟩
  | cons entry entries ih =>
    obtain ⟨hfirst, hrest⟩ := List.forall_mem_cons.mp h
    obtain ⟨bytes, hbytes⟩ := hfirst
    obtain ⟨encoded, hencoded, hitems⟩ := ih hrest
    have hcons : ofEntries (entry :: entries) ++ rest = .ok entry :: (ofEntries entries ++ rest) := rfl
    refine ⟨bytes :: encoded, by rw [List.map_cons, List.map_cons, hbytes, hencoded], ?_⟩
    rw [hcons, encodeItems, hbytes, hitems]
    rfl

theorem encodeItems_refused {item : Except StoreError (Entry κ σ)} {cause : StoreError}
    (h : codec.Refuses item cause) (rest : Feed κ σ) : encodeItems codec (item :: rest) = ([], some cause) := by
  cases h with
  | error => rfl
  | entry hencode => rw [encodeItems, hencode]

theorem ofBatch_encoded (hcodec : codec.Undoes) {encoded : List Bytes}
    (h : entries.map codec.encode = encoded.map .ok) : ofBatch codec encoded = ofEntries entries := by
  induction entries generalizing encoded with
  | nil =>
    obtain rfl := List.map_eq_nil_iff.mp h.symm
    rfl
  | cons entry entries ih =>
    obtain ⟨bytes, encoded, rfl, hbytes, hrest⟩ := List.map_eq_cons_iff.mp h.symm
    have hdecode : codec.decode bytes = .ok entry := hcodec entry bytes hbytes.symm
    have hcons : ofBatch codec (bytes :: encoded) = (codec.decode bytes).mapError .codec :: ofBatch codec encoded := rfl
    rw [hcons, hdecode, ih hrest.symm]
    rfl

theorem exists_ofBatch {batch : List Bytes} (h : ∀ bytes ∈ batch, ∃ entry, codec.decode bytes = .ok entry) :
    ∃ sent, ofBatch codec batch = ofEntries sent := by
  induction batch with
  | nil => exact ⟨[], rfl⟩
  | cons bytes batch ih =>
    obtain ⟨hfirst, hrest⟩ := List.forall_mem_cons.mp h
    obtain ⟨entry, hentry⟩ := hfirst
    obtain ⟨sent, hsent⟩ := ih hrest
    have hcons : ofBatch codec (bytes :: batch) = (codec.decode bytes).mapError .codec :: ofBatch codec batch := rfl
    exact ⟨entry :: sent, by rw [hcons, hentry, hsent]; rfl⟩

/-- The batches of a feed hold what is encoded of it. If the feed fails, they hold a part of that. -/
theorem exists_batches (codec : EntryCodec κ σ) (size : Nat) (feed : Feed κ σ) :
    ∃ batches : List (List Bytes), feed.batches codec size =
        (Frame.ofBatches batches, (feed.encodeItems codec).2) ∧
      batches.flatten ⊆ (feed.encodeItems codec).1 ∧
      ((feed.encodeItems codec).2 = none → batches.flatten = (feed.encodeItems codec).1) := by
  have hcut := flatten_pieces size (feed.encodeItems codec).1
  refine ⟨feed.sentBatches codec size, batches_eq codec size feed, ?_, ?_⟩
  · intro bytes hbytes
    obtain ⟨batch, hbatch, hmem⟩ := List.mem_flatten.mp hbytes
    rw [← hcut]
    exact List.mem_flatten_of_mem (mem_pieces_of_mem_sentBatches hbatch) hmem
  · intro hnone
    rw [sentBatches, hnone]
    exact hcut

theorem batches_ofEntries (hcodec : codec.Undoes) (h : ∀ entry ∈ entries, ∃ bytes, codec.encode entry = .ok bytes)
    (size : Nat) :
    ∃ batches : List (List Bytes), (ofEntries entries).batches codec size =
        (Frame.ofBatches batches, none) ∧
      ofBatch codec batches.flatten = ofEntries entries := by
  obtain ⟨encoded, hencoded, hitems⟩ := encodeItems_append h []
  rw [List.append_nil] at hitems
  obtain ⟨batches, hbatches, -, hall⟩ := exists_batches codec size (ofEntries entries)
  rw [hitems] at hbatches hall
  refine ⟨batches, hbatches, ?_⟩
  rw [hall rfl, encodeItems, List.append_nil]
  exact ofBatch_encoded hcodec hencoded

theorem batches_refused (hcodec : codec.Undoes) (h : ∀ entry ∈ entries, ∃ bytes, codec.encode entry = .ok bytes)
    {item : Except StoreError (Entry κ σ)} {cause : StoreError} (hitem : codec.Refuses item cause) (rest : Feed κ σ)
    (size : Nat) :
    ∃ (batches : List (List Bytes)) (sent : List (Entry κ σ)),
      (ofEntries entries ++ item :: rest).batches codec size =
        (Frame.ofBatches batches, some cause) ∧
      ofBatch codec batches.flatten = ofEntries sent := by
  obtain ⟨encoded, hencoded, hitems⟩ := encodeItems_append h (item :: rest)
  rw [encodeItems_refused hitem, List.append_nil] at hitems
  obtain ⟨batches, hbatches, hpart, -⟩ := exists_batches codec size (ofEntries entries ++ item :: rest)
  rw [hitems] at hbatches hpart
  have hdecodes : ∀ bytes ∈ batches.flatten, ∃ entry, codec.decode bytes = .ok entry := by
    intro bytes hbytes
    have hmem : Except.ok bytes ∈ entries.map codec.encode := hencoded ▸ List.mem_map_of_mem (hpart hbytes)
    obtain ⟨entry, -, hentry⟩ := List.mem_map.mp hmem
    exact ⟨entry, hcodec entry bytes hentry⟩
  obtain ⟨sent, hsent⟩ := exists_ofBatch hdecodes
  exact ⟨batches, sent, hbatches, hsent⟩

end Encoding

end Feed

end ReplicatedStore
