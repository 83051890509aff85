import ReplicatedStore.Proofs.Store.Feed
import ReplicatedStore.Proofs.Wire.Message
import ReplicatedStore.Session.Partition
import ReplicatedStore.Store.File
import ReplicatedStore.Store.Map
/-!
# Steps of a served store

What a store that collects a feed before it merges any of it does with each frame of a session. While batches
arrive it only holds their items; the end of the entries hands them over, and anything else discards them.
-/

namespace ReplicatedStore

variable {κ σ ν ρ : Type}

/-- A store that collects a feed before it merges any of it, and whose own feeds are not interrupted. -/
structure Store.Collects (store : Store ν ρ κ σ) : Prop where
  upload_of_error : ∀ {feed : Feed κ σ} {cause : StoreError}, feed.collect = .error cause →
    ∀ state, store.upload feed state = (.error cause, state)
  intake_eq : ∀ feed state, store.intake feed state = feed.firstError
  interruption_eq : ∀ state, store.interruption state = .never

theorem MapStore.collects [Ord κ] (f : MergeFunction σ) : (MapStore.requests (κ := κ) f).Collects where
  upload_of_error h state := by simp only [MapStore.requests, MapStore.upload, h]
  intake_eq _ _ := rfl
  interruption_eq _ := rfl

theorem FileStore.collects [Ord κ] (f : MergeFunction σ) (codec : EntryCodec κ σ) :
    (FileStore.requests f codec).Collects where
  upload_of_error h state := by simp only [FileStore.requests, FileStore.upload, h]
  intake_eq _ _ := rfl
  interruption_eq _ := rfl

def Reply.Ends {φ : Type} (reply : Reply φ) : Prop := ∀ phase, reply.turn ≠ .wait phase

section Ends

variable {φ : Type}

theorem Reply.ends_done (sent : List Frame) : (⟨sent, .done⟩ : Reply φ).Ends := fun _ h => by cases h

theorem Reply.ends_fail (sent : List Frame) (status : Status) : (⟨sent, .fail status⟩ : Reply φ).Ends :=
  fun _ h => by cases h

theorem Connection.idle_ne_within (phase : φ) : (.idle : Connection φ) ≠ .within phase := fun h => by cases h

theorem Connection.ended_ne_within (phase : φ) : (.ended : Connection φ) ≠ .within phase := fun h => by cases h

end Ends

namespace Service

variable {φ : Type}

def settled (result : Reply φ × ν) : List Frame × Connection φ × ν :=
  ((settle result.1).1, (settle result.1).2, result.2)

theorem receive_idle (service : Service φ ν) (kind : UInt16) (payload : Bytes) (state : ν) :
    service.receive (.message kind payload) .idle state = settled (service.opened kind payload state) := rfl

theorem receive_within (service : Service φ ν) (frame : Frame) (phase : φ) (state : ν) :
    service.receive frame (.within phase) state = settled (service.resume phase frame state) := rfl

theorem receiveAll_singleton (service : Service φ ν) (frame : Frame) (connection : Connection φ) (state : ν) :
    service.receiveAll [frame] connection state = service.receive frame connection state := by
  simp only [receiveAll, List.append_nil]

theorem receiveAll_ended (service : Service φ ν) (frames : List Frame) (state : ν) :
    service.receiveAll frames .ended state = ([], .ended, state) := by
  induction frames with
  | nil => rfl
  | cons frame frames ih =>
    rw [receiveAll]
    simp only [receive, ih, List.append_nil]

theorem close_of_ne_within {service : Service φ ν} {next : Connection φ} (h : ∀ phase, next ≠ .within phase)
    (ending : Ending) (state : ν) : service.close ending next state = state := by
  cases next with
  | within phase => exact absurd rfl (h phase)
  | idle => rfl
  | ended => rfl

theorem settled_ne_within {result : Reply φ × ν} (h : result.1.Ends) (phase : φ) :
    (settled result).2.1 ≠ .within phase := by
  obtain ⟨⟨sent, turn⟩, state⟩ := result
  cases turn with
  | done => exact Connection.idle_ne_within phase
  | wait phase => exact absurd rfl (h phase)
  | fail status =>
    unfold settled settle
    dsimp only
    split
    · exact Connection.ended_ne_within phase
    · exact Connection.idle_ne_within phase

theorem serve_of_ends {service : Service φ ν} {frames : List Frame} {state : ν} {result : Reply φ × ν}
    (h : service.receiveAll frames .idle state = settled result) (hends : result.1.Ends) (ending : Ending) :
    service.serve frames ending state = ((settled result).1, result.2) := by
  rw [serve, h]
  exact congrArg (Prod.mk _) (close_of_ne_within (settled_ne_within hends) ending result.2)

theorem ack_not_mem_settled_fail {sent : List Frame} (hsent : Message.ack.frame ∉ sent) (status : Status)
    (state : ν) :
    Message.ack.frame ∉ (settled (φ := φ) (⟨sent, .fail status⟩, state)).1 := by
  unfold settled settle
  dsimp only
  split
  · exact hsent
  · intro h
    rcases List.mem_append.mp h with h | h
    · exact hsent h
    · cases List.mem_singleton.mp h

end Service

namespace PartitionService

def answered (result : Except StoreError Unit × ν) : List Frame × Connection (PartitionPhase ρ κ σ) × ν :=
  Service.settled (acknowledge result.1, result.2)

theorem acknowledge_ends (result : Except StoreError Unit) :
    (acknowledge result : Reply (PartitionPhase ρ κ σ)).Ends := by
  cases result with
  | ok _ => exact Reply.ends_done _
  | error cause => exact Reply.ends_fail _ cause.status

section Opening

variable {expected : MessageKind} {go : Message → ν → Reply (PartitionPhase ρ κ σ) × ν} {payload : Bytes}

theorem opening_ok {first : Message} (h : Message.decode expected payload = .ok first) (state : ν) :
    (opening expected go).2 payload state = go first state := by
  simp only [opening, h]

theorem opening_error {status : Status} (h : Message.decode expected payload = .error status) (state : ν) :
    (opening expected go).2 payload state = (failed status, state) := by
  simp only [opening, h]

theorem opening_ends {state : ν} (h : ∀ first, ∃ reply, go first state = (reply, state) ∧ reply.Ends) :
    ∃ reply, (opening expected go).2 payload state = (reply, state) ∧ reply.Ends := by
  cases hfirst : Message.decode expected payload with
  | ok first =>
    rw [opening_ok hfirst]
    exact h first
  | error status => exact ⟨failed status, opening_error hfirst state, Reply.ends_fail _ status⟩

end Opening

section Opened

variable (store : Store ν ρ κ σ) (codec : EntryCodec κ σ) (payload : Bytes) (state : ν)

theorem opened_download :
    (service store codec).opened MessageKind.download.number payload state =
      (opening .download fun first state =>
        match first with
        | .download horizon => download store codec horizon state
        | _ => (failed .malformed, state)).2 payload state := rfl

theorem receive_upload : (service store codec).receive (.message MessageKind.upload.number payload) .idle state =
    ([], .within (.receiving []), state) := by
  have hopened : (service store codec).opened MessageKind.upload.number payload state =
      (opening .upload fun _ state => (⟨[], .wait (.receiving [])⟩, state)).2 payload state := rfl
  rw [Service.receive_idle, hopened, opening_ok (Message.decode_upload payload)]
  rfl

theorem receive_takeSnapshot :
    (service store codec).receive (.message MessageKind.takeSnapshot.number payload) .idle state =
      Service.settled (takeSnapshot store codec state) := by
  have hopened : (service store codec).opened MessageKind.takeSnapshot.number payload state =
      (opening .takeSnapshot fun _ state => takeSnapshot store codec state).2 payload state := rfl
  rw [Service.receive_idle, hopened, opening_ok (Message.decode_takeSnapshot payload)]

theorem receive_download (horizon : UInt64) :
    (service store codec).receive (Message.download horizon).frame .idle state =
      Service.settled (download store codec horizon state) := by
  have hopened := opened_download store codec (Message.download horizon).payload state
  rw [opening_ok (Message.decode_download horizon)] at hopened
  exact congrArg Service.settled hopened

theorem receive_ping :
    (service store codec).receive (.message MessageKind.ping.number payload) .idle state =
      answered (store.ping state) := by
  have hopened : (service store codec).opened MessageKind.ping.number payload state =
      (opening .ping fun _ state => (acknowledge (store.ping state).1, (store.ping state).2)).2 payload state := rfl
  rw [Service.receive_idle, hopened, opening_ok (Message.decode_ping payload)]
  rfl

theorem opened_unknown {kind : UInt16}
    (h : ∀ known ∈ [MessageKind.upload, .download, .takeSnapshot, .ping], kind ≠ known.number) :
    (service store codec).opened kind payload state = (failed (.unknownKind kind), state) := by
  have hnone : (handlers store codec).find? kind = none := by
    simp only [List.forall_mem_cons] at h
    obtain ⟨hupload, hdownload, htake, hping, -⟩ := h
    refine List.lookup_eq_none_iff.mpr (List.forall_mem_cons.mpr ⟨bne_iff_ne.mpr hupload, ?_⟩)
    refine List.forall_mem_cons.mpr ⟨bne_iff_ne.mpr hdownload, ?_⟩
    exact List.forall_mem_cons.mpr ⟨bne_iff_ne.mpr htake, List.forall_mem_singleton.mpr (bne_iff_ne.mpr hping)⟩
  simp only [Service.opened, service, hnone]
  rfl

end Opened

section Receiving

variable {store : Store ν ρ κ σ}

inductive Receiving (store : Store ν ρ κ σ) (codec : EntryCodec κ σ) (frame : Frame) (items : Feed κ σ)
    (state : ν) : List Frame × Connection (PartitionPhase ρ κ σ) × ν → Prop
  | more {batch : List Bytes} (hbatch : frame.entryBatch? = some batch) :
    Receiving store codec frame items state ([], .within (.receiving (items ++ Feed.ofBatch codec batch)), state)
  | stored {payload : Bytes} (hframe : frame = .message MessageKind.endOfStream.number payload)
    {entries : List (Entry κ σ)} (hitems : items = .ofEntries entries) :
    Receiving store codec frame items state (answered (store.upload items state))
  | discarded {sent : List Frame} {next : Connection (PartitionPhase ρ κ σ)} (hsent : Message.ack.frame ∉ sent)
    (hnext : ∀ phase, next ≠ .within phase) : Receiving store codec frame items state (sent, next, state)

theorem Receiving.failed {codec : EntryCodec κ σ} {frame : Frame} {items : Feed κ σ} {sent : List Frame}
    (hsent : Message.ack.frame ∉ sent) (status : Status) (state : ν) :
    Receiving store codec frame items state (Service.settled (⟨sent, .fail status⟩, state)) :=
  .discarded (Service.ack_not_mem_settled_fail hsent status state)
    (Service.settled_ne_within (Reply.ends_fail sent status))

theorem abortUpload_eq (hstore : store.Collects) (items : Feed κ σ) (reason : String) (state : ν) :
    abortUpload store items reason state = state := by
  obtain ⟨first, hfirst⟩ := items.collect_append_error (.aborted reason) []
  rw [abortUpload, hstore.upload_of_error hfirst]

variable (codec : EntryCodec κ σ)

theorem receive_error (hstore : store.Collects) (items : Feed κ σ) (status : Status) (state : ν) :
    (service store codec).receive (.error status) (.within (.receiving items)) state = ([], .ended, state) := by
  have hresume : (service store codec).resume (.receiving items) (.error status) state =
      (PartitionService.failed (.disconnected status.text), abortUpload store items status.message state) := rfl
  rw [Service.receive_within, hresume, abortUpload_eq hstore]
  rfl

theorem receive_end (items : Feed κ σ) (payload : Bytes) (state : ν) :
    (service store codec).receive (.message MessageKind.endOfStream.number payload) (.within (.receiving items)) state =
      answered (store.upload items state) := rfl

/-- A batch is held, unless it brings an error and the store is seen to have left. -/
theorem resume_batch {frame : Frame} {batch : List Bytes} (hbatch : frame.entryBatch? = some batch)
    (items : Feed κ σ) (state : ν) :
    (service store codec).resume (.receiving items) frame state =
      if leavesEarly (store.intake (items ++ Feed.ofBatch codec batch) state)
          (items ++ Feed.ofBatch codec batch).length then
        rejected store (items ++ Feed.ofBatch codec batch) state
      else (⟨[], .wait (.receiving (items ++ Feed.ofBatch codec batch))⟩, state) := by
  obtain ⟨payload, rfl, hread⟩ := Frame.eq_of_entryBatch? hbatch
  have hend : MessageKind.entryBatch.number ≠ MessageKind.endOfStream.number := by decide
  simp only [service, resumeUpload, if_neg hend, if_true, Message.decode, Message.decode?, hread, Option.map_some]

theorem resume_broken (store : Store ν ρ κ σ) {kind : UInt16} {payload : Bytes}
    (hend : kind ≠ MessageKind.endOfStream.number) (hbatch : (Frame.message kind payload).entryBatch? = none)
    (items : Feed κ σ) (state : ν) :
    ∃ status reason, (service store codec).resume (.receiving items) (.message kind payload) state =
      (PartitionService.failed status, abortUpload store items reason state) := by
  by_cases hkind : kind = MessageKind.entryBatch.number
  · subst hkind
    have hread : (Archive.decode payload : Option (List Bytes)) = none := hbatch
    refine ⟨.malformed, Status.malformed.message, ?_⟩
    simp only [service, resumeUpload, if_neg hend, if_true, Message.decode, Message.decode?, hread, Option.map_none]
  · refine ⟨.unexpected kind, s!"Unexpected message kind {kind.toNat}", ?_⟩
    simp only [service, resumeUpload, if_neg hend, if_neg hkind]

theorem receive_batch (hstore : store.Collects) {frame : Frame} {batch : List Bytes}
    (hbatch : frame.entryBatch? = some batch) {items : Feed κ σ} {entries : List (Entry κ σ)}
    (hitems : items ++ Feed.ofBatch codec batch = .ofEntries entries) (state : ν) :
    (service store codec).receive frame (.within (.receiving items)) state =
      ([], .within (.receiving (.ofEntries entries)), state) := by
  have hcollect : (Feed.ofEntries entries).collect = .ok entries := Feed.collect_ofEntries entries
  rw [Service.receive_within, resume_batch codec hbatch, hitems, hstore.intake_eq,
    Feed.firstError_of_collect hcollect]
  rfl

/-- A store that is seen to have left has met an error, and kept nothing. -/
theorem rejected_of_leavesEarly (hstore : store.Collects) {items : Feed κ σ} {state : ν}
    (h : leavesEarly (store.intake items state) items.length = true) :
    ∃ cause : StoreError, rejected store items state =
      (⟨[.error cause.status], .fail (.disconnected "Upload rejected")⟩, state) := by
  cases hcollect : items.collect with
  | ok entries =>
    rw [hstore.intake_eq, Feed.firstError_of_collect hcollect] at h
    cases h
  | error cause => exact ⟨cause, by rw [rejected, hstore.upload_of_error hcollect]⟩

theorem receive_receiving (hstore : store.Collects) (frame : Frame) (items : Feed κ σ) (state : ν) :
    Receiving store codec frame items state
      ((service store codec).receive frame (.within (.receiving items)) state) := by
  cases frame with
  | error status =>
    rw [receive_error codec hstore]
    exact .discarded List.not_mem_nil Connection.ended_ne_within
  | message kind payload =>
    by_cases hend : kind = MessageKind.endOfStream.number
    · subst hend
      rw [receive_end]
      cases hcollect : items.collect with
      | ok entries => exact .stored rfl (Feed.eq_ofEntries_of_collect hcollect)
      | error cause =>
        rw [hstore.upload_of_error hcollect]
        exact .failed List.not_mem_nil cause.status state
    · rw [Service.receive_within]
      cases hbatch : (Frame.message kind payload).entryBatch? with
      | some batch =>
        rw [resume_batch codec hbatch]
        split
        case isFalse => exact .more hbatch
        case isTrue hleaves =>
          obtain ⟨cause, hrejected⟩ := rejected_of_leavesEarly hstore hleaves
          have hsent : Message.ack.frame ∉ [Frame.error cause.status] := fun h => nomatch List.mem_singleton.mp h
          rw [hrejected]
          exact .failed hsent _ state
      | none =>
        obtain ⟨status, reason, hresume⟩ := resume_broken codec store hend hbatch items state
        rw [hresume, abortUpload_eq hstore]
        exact .failed List.not_mem_nil status state

end Receiving

section Offered

variable (store : Store ν ρ κ σ) (codec : EntryCodec κ σ) (receipt : ρ) (state : ν)

theorem receive_ack (payload : Bytes) :
    (service store codec).receive (.message MessageKind.ack.number payload) (.within (.offered receipt)) state =
      answered (store.commit receipt true state) := by
  have hexpect : (Frame.message MessageKind.ack.number payload).expect .ack = .ok .ack := by
    rw [Frame.expect, if_pos rfl, Message.decode_ack]
  simp only [Service.receive_within, service, resumeTake, hexpect, answered]

theorem receive_unacknowledged {frame : Frame} (h : ¬ Frame.Opens .ack [frame]) :
    ∃ status, (service store codec).receive frame (.within (.offered receipt)) state =
      Service.settled (failed status, store.release receipt state) := by
  cases hframe : frame.expect .ack with
  | ok m => exact absurd ((frame.expect_ack []).mp ⟨m, hframe⟩) h
  | error status =>
    refine ⟨status, ?_⟩
    simp only [Service.receive_within, service, resumeTake, hframe]

end Offered

end PartitionService
end ReplicatedStore
