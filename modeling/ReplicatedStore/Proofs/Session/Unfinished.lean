import ReplicatedStore.Proofs.Session.Course
import ReplicatedStore.Proofs.Session.Remote
/-!
# Uploads that are not completed

A session that is never told that its upload is complete leaves the store it is served from as it is, wherever
the connection breaks. A feed with an error in it is sent without that message.
-/

namespace ReplicatedStore

variable {κ σ ν ρ : Type}

/-- The frames of an upload, except for the one that completes it. -/
inductive Frame.Unfinished : Frame → Prop
  | upload (payload : Bytes) : Unfinished (.message MessageKind.upload.number payload)
  | batch (payload : Bytes) : Unfinished (.message MessageKind.entryBatch.number payload)
  | error (status : Status) : Unfinished (.error status)

theorem Frame.Unfinished.ne_end {frame : Frame} (h : frame.Unfinished) (payload : Bytes) :
    frame ≠ .message MessageKind.endOfStream.number payload := by
  have hupload : MessageKind.upload.number ≠ MessageKind.endOfStream.number := by decide
  have hbatch : MessageKind.entryBatch.number ≠ MessageKind.endOfStream.number := by decide
  cases h with
  | upload own => exact fun heq => hupload (Frame.message.inj heq).1
  | batch own => exact fun heq => hbatch (Frame.message.inj heq).1
  | error status => exact Frame.noConfusion

/-- Whether a connection is not within a take. -/
def Connection.Uploads (connection : Connection (PartitionPhase ρ κ σ)) : Prop :=
  ∀ receipt, connection ≠ .within (.offered receipt)

theorem Connection.uploads_receiving (items : Feed κ σ) :
    (.within (.receiving items) : Connection (PartitionPhase ρ κ σ)).Uploads := fun _ h => by cases h

theorem Connection.uploads_of_ne_within {connection : Connection (PartitionPhase ρ κ σ)}
    (h : ∀ phase, connection ≠ .within phase) : connection.Uploads := fun _ => h _

namespace PartitionService

variable {store : Store ν ρ κ σ} (codec : EntryCodec κ σ) (hstore : store.Collects)

include hstore

theorem receive_unfinished {frame : Frame} (h : frame.Unfinished) {connection : Connection (PartitionPhase ρ κ σ)}
    (hconnection : connection.Uploads) (state : ν) :
    let after := (service store codec).receive frame connection state
    after.2.1.Uploads ∧ after.2.2 = state := by
  intro after
  cases connection with
  | idle =>
    cases h with
    | upload payload =>
      have hreceive : after = ([], .within (.receiving []), state) := receive_upload store codec payload state
      rw [hreceive]
      exact ⟨Connection.uploads_receiving _, rfl⟩
    | batch payload =>
      let refused : Reply (PartitionPhase ρ κ σ) := failed (.unknownKind MessageKind.entryBatch.number)
      have hreceive : after = Service.settled (refused, state) := rfl
      rw [hreceive]
      exact ⟨Connection.uploads_of_ne_within (Service.settled_ne_within (Reply.ends_fail _ _)), rfl⟩
    | error status => exact ⟨Connection.uploads_of_ne_within Connection.idle_ne_within, rfl⟩
  | within phase =>
    cases phase with
    | offered receipt => exact absurd rfl (hconnection receipt)
    | receiving items =>
      have hreceive : Receiving store codec frame items state after := receive_receiving codec hstore frame items state
      generalize after = result at hreceive
      cases hreceive with
      | more hbatch => exact ⟨Connection.uploads_receiving _, rfl⟩
      | stored hframe hitems => exact absurd hframe (h.ne_end _)
      | discarded hsent hnext => exact ⟨Connection.uploads_of_ne_within hnext, rfl⟩
  | ended => exact ⟨Connection.uploads_of_ne_within Connection.ended_ne_within, rfl⟩

theorem close_uploads {connection : Connection (PartitionPhase ρ κ σ)} (hconnection : connection.Uploads)
    (ending : Ending) (state : ν) : (service store codec).close ending connection state = state := by
  cases connection with
  | idle => rfl
  | within phase =>
    cases phase with
    | receiving items => exact abortUpload_eq hstore items _ state
    | offered receipt => exact absurd rfl (hconnection receipt)
  | ended => rfl

theorem receiveWithin_unfinished {frame : Frame} (h : frame.Unfinished)
    {connection : Connection (PartitionPhase ρ κ σ)} (hconnection : connection.Uploads) (room : Nat) (state : ν) :
    let after := (service store codec).receiveWithin room frame connection state
    after.2.1.Uploads ∧ after.2.2 = state := by
  obtain ⟨hnext, hstate⟩ := receive_unfinished codec hstore h hconnection state
  unfold Service.receiveWithin
  dsimp only
  split
  next => exact ⟨hnext, hstate⟩
  next =>
    refine ⟨Connection.uploads_of_ne_within Connection.ended_ne_within, ?_⟩
    exact (close_uploads codec hstore hnext .closed _).trans hstate

/-- However a connection ends on which no upload is completed, and however many frames can be sent on it, the store
keeps what it held. -/
theorem serveWithin_unfinished {frames : List Frame} (h : ∀ frame ∈ frames, frame.Unfinished)
    {connection : Connection (PartitionPhase ρ κ σ)} (hconnection : connection.Uploads) (ending : Ending)
    (room : Nat) (state : ν) :
    ((service store codec).serveWithin ending room frames connection state).2 = state := by
  induction frames generalizing room connection with
  | nil => exact close_uploads codec hstore hconnection ending state
  | cons frame frames ih =>
    obtain ⟨hfirst, hrest⟩ := List.forall_mem_cons.mp h
    obtain ⟨hnext, hstate⟩ := receiveWithin_unfinished codec hstore hfirst hconnection room state
    rw [Service.serveWithin]
    generalize (service store codec).receiveWithin room frame connection state = after at hnext hstate
    obtain ⟨sent, next, last⟩ := after
    obtain rfl : last = state := hstate
    exact ih hrest hnext (room - sent.length)

end PartitionService

theorem Feed.encodeItems_of_error_mem (codec : EntryCodec κ σ) {feed : Feed κ σ} {cause : StoreError}
    (h : .error cause ∈ feed) : ∃ own, (feed.encodeItems codec).2 = some own := by
  induction feed with
  | nil => contradiction
  | cons item rest ih =>
    cases item with
    | error own => exact ⟨own, rfl⟩
    | ok entry =>
      have hrest : .error cause ∈ rest := (List.mem_cons.mp h).resolve_left fun heq => by cases heq
      cases hbytes : codec.encode entry with
      | error own => exact ⟨.codec own, by rw [encodeItems, hbytes]⟩
      | ok bytes =>
        obtain ⟨own, hown⟩ := ih hrest
        exact ⟨own, by rw [encodeItems, hbytes]; exact hown⟩

theorem Client.uploadFrames_unfinished (codec : EntryCodec κ σ) (batchSize : Nat) {feed : Feed κ σ}
    {cause : StoreError} (h : .error cause ∈ feed) :
    ∀ frame ∈ (uploadFrames codec batchSize feed).1, frame.Unfinished := by
  obtain ⟨own, hown⟩ := Feed.encodeItems_of_error_mem codec h
  obtain ⟨batches, hbatches, -⟩ := Feed.exists_batches codec batchSize feed
  rw [hown] at hbatches
  have hframes : (uploadFrames codec batchSize feed).1 = Message.upload.frame ::
      (Frame.ofBatches batches ++ [.error (.handlerFailed s!"Upload aborted: {own.message}")]) := by
    rw [uploadFrames, hbatches]
    rfl
  rw [hframes]
  refine List.forall_mem_cons.mpr ⟨.upload _, List.forall_mem_append.mpr ⟨fun frame hframe => ?_,
    List.forall_mem_singleton.mpr (.error _)⟩⟩
  obtain ⟨batch, -, rfl⟩ := List.mem_map.mp hframe
  exact .batch _

theorem Client.uploadFrames_declares {codec : EntryCodec κ σ} {batchSize bound : Nat} {feed : Feed κ σ}
    (hentries : ∀ entry, .ok entry ∈ feed → ∃ bytes, codec.encode entry = .ok bytes ∧ bytes.length ≤ bound)
    (hcauses : ∀ cause, .error cause ∈ feed →
      (Frame.error (.handlerFailed s!"Upload aborted: {cause.message}")).Declares)
    (hbound : max 1 batchSize * (bound + 8) + 14 < Bytes.capacity 4) :
    ∀ frame ∈ (uploadFrames codec batchSize feed).1, frame.Declares := by
  obtain ⟨hencoded, hfailed⟩ := Feed.encodeItems_encoded hentries
  have hframes : ∀ frame ∈ Frame.ofBatches (feed.sentBatches codec batchSize), frame.Declares := by
    intro frame hframe
    obtain ⟨batch, hbatch, rfl⟩ := List.mem_map.mp hframe
    have hsize := Feed.length_encode_of_mem_sentBatches hencoded hbatch
    show (Archive.encode batch).length < Bytes.capacity 4
    omega
  rw [uploadFrames, Feed.batches_eq]
  cases hfailure : (feed.encodeItems codec).2 with
  | none => exact List.forall_mem_cons.mpr ⟨by decide, List.forall_mem_append.mpr ⟨hframes, by decide⟩⟩
  | some cause =>
    exact List.forall_mem_cons.mpr ⟨by decide, List.forall_mem_append.mpr ⟨hframes,
      List.forall_mem_singleton.mpr (hcauses cause (hfailed cause hfailure))⟩⟩

namespace RemoteClient

variable (client : RemoteClient κ σ) {store : Store ν ρ κ σ} (codec : EntryCodec κ σ) (hstore : store.Collects)
  {feed : Feed κ σ} {cause : StoreError} (hcause : .error cause ∈ feed)
  (hdeclares : ∀ frame ∈ (Client.uploadFrames client.codec client.options.batchSize feed).1, frame.Declares)

include hstore hcause hdeclares

theorem serveWithin_part {bytes : Bytes}
    (hbytes : bytes <+: (Client.uploadFrames client.codec client.options.batchSize feed).1.flatMap Frame.bytes)
    (ending : Ending) (room : Nat) (state : ν) :
    ((PartitionService.service store codec).serveWithin ending room (Inbound.ofBytes bytes).frames .idle state).2 =
      state := by
  refine PartitionService.serveWithin_unfinished codec hstore (fun frame hframe => ?_)
    (Connection.uploads_of_ne_within Connection.idle_ne_within) ending room state
  have hmem := (Frame.parse_begins hdeclares hbytes).subset hframe
  exact Client.uploadFrames_unfinished client.codec client.options.batchSize hcause frame hmem

theorem upload_of_error_mem (served : Served ν) :
    ((client.requests store codec).upload feed served).2 = served := by
  obtain ⟨link, state⟩ := served
  cases link with
  | down reason => rfl
  | up =>
    let request := Inbound.ofSent (Client.uploadFrames client.codec client.options.batchSize feed).1
    have hpart := client.serveWithin_part codec hstore hcause hdeclares List.prefix_rfl request.ending
      ((PartitionService.service store codec).serve request.frames request.ending state).1.length state
    have hserve : (PartitionService.service store codec).serveWithin request.ending _ request.frames .idle state = _ :=
      Service.serveWithin_of_le (Nat.le_refl _)
    exact congrArg (Served.mk .up) ((congrArg Prod.snd hserve).symm.trans hpart)

end RemoteClient

end ReplicatedStore
