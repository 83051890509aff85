import ReplicatedStore.Proofs.Session.Batch
import ReplicatedStore.Proofs.Session.Course
import ReplicatedStore.Session.Client
/-!
# Whole sessions

A store in memory that is served to a client is changed only by an upload that arrives whole, and by a take whose
entries were sent and that is acknowledged at once. Whatever else arrives leaves it as it was before the session, also
where the frames of a session that failed are served as sessions of their own.
-/

namespace ReplicatedStore

variable {κ σ : Type}

inductive Uploading (codec : EntryCodec κ σ) : List Frame → List (Entry κ σ) → Prop
  | ended (payload : Bytes) : Uploading codec [.message MessageKind.endOfStream.number payload] []
  | batch {frame : Frame} {batch : List Bytes} {part : List (Entry κ σ)} {frames : List Frame}
    {entries : List (Entry κ σ)} (hbatch : frame.entryBatch? = some batch)
    (hpart : Feed.ofBatch codec batch = .ofEntries part) (hrest : Uploading codec frames entries) :
    Uploading codec (frame :: frames) (part ++ entries)

/-- Whether the frames of a session are a whole upload of some entries. -/
def Uploads (codec : EntryCodec κ σ) (frames : List Frame) (entries : List (Entry κ σ)) : Prop :=
  ∃ payload rest, frames = .message MessageKind.upload.number payload :: rest ∧ Uploading codec rest entries

/-- Whether the frames of a session are a take of a store, all of whose entries can be sent, with its
acknowledgement. -/
def Takes [Ord κ] (codec : EntryCodec κ σ) (room : Nat) (store : MapStore κ σ) (frames : List Frame) : Prop :=
  (∃ payload answer, frames = [.message MessageKind.takeSnapshot.number payload,
    .message MessageKind.ack.number answer]) ∧
  ∃ sent, PartitionService.sendAll codec (.ofEntries store.entries) = (sent, none) ∧ sent.length ≤ room

namespace MapStore

variable [Ord κ] (f : MergeFunction σ) {codec : EntryCodec κ σ} (ending : Ending)

theorem course_of_uploading {whole : List Frame} {entries : List (Entry κ σ)} (h : Uploading codec whole entries)
    (earlier : List (Entry κ σ)) (rest : List Frame) (room : Nat) (store : MapStore κ σ) :
    (PartitionService.service (requests f) codec).course ending room (whole ++ rest)
        (.within (.receiving (.ofEntries earlier))) store =
      ⟨whole, [Message.ack.frame].take room, if 0 < room then .idle else .ended,
        store.putAll f (earlier ++ entries)⟩ := by
  induction h generalizing earlier with
  | ended payload =>
    have hupload : (requests f).upload (.ofEntries earlier) store = (.ok (), store.putAll f earlier) := by
      simp only [requests, upload, Feed.collect_ofEntries]
    have hreceive : (PartitionService.service (requests f) codec).receive
        (.message MessageKind.endOfStream.number payload) (.within (.receiving (.ofEntries earlier))) store =
          ([Message.ack.frame], .idle, store.putAll f earlier) := by
      rw [PartitionService.receive_end, hupload]
      rfl
    rw [List.append_nil, List.singleton_append, Service.course_ended hreceive Connection.idle_ne_within]
    rfl
  | @batch frame batch part frames entries hbatch hpart hrest ih =>
    have hitems : Feed.ofEntries earlier ++ Feed.ofBatch codec batch = Feed.ofEntries (earlier ++ part) := by
      rw [hpart, Feed.ofEntries, Feed.ofEntries, Feed.ofEntries, List.map_append]
    have hreceive := PartitionService.receive_batch codec (collects f) hbatch hitems store
    rw [List.cons_append, Service.course_within (Service.receiveWithin_of_le hreceive (Nat.zero_le room))]
    simp only [List.length_nil, Nat.sub_zero, List.nil_append, ih, List.append_assoc]

/-- What is received as an upload changes the store only as a whole. -/
theorem course_receiving (frames : List Frame) (items : Feed κ σ) (room : Nat) (store : MapStore κ σ) :
    let course := (PartitionService.service (requests f) codec).course ending room frames
      (.within (.receiving items)) store
    (course.after = store ∧ Message.ack.frame ∉ course.sent) ∨
      ∃ earlier entries, items = .ofEntries earlier ∧ Uploading codec course.received entries := by
  -- one more frame is held, ends the upload or discards it; the first of these goes on with more items
  induction frames generalizing items with
  | nil => exact .inl ⟨PartitionService.abortUpload_eq (collects f) items _ store, List.not_mem_nil⟩
  | cons frame frames ih =>
    have hreceiving := PartitionService.receive_receiving codec (collects f) frame items store
    generalize hreceive : (PartitionService.service (requests f) codec).receive frame (.within (.receiving items))
      store = result at hreceiving
    cases hreceiving with
    | @more batch hbatch =>
      rw [Service.course_within (Service.receiveWithin_of_le hreceive (Nat.zero_le room))]
      rcases ih (items ++ Feed.ofBatch codec batch) with hsame | ⟨earlier, entries, hitems, huploading⟩
      · exact .inl hsame
      · obtain ⟨before, part, -, hbefore, hpart⟩ := List.map_eq_append_iff.mp hitems.symm
        exact .inr ⟨before, part ++ entries, hbefore.symm, .batch hbatch hpart.symm huploading⟩
    | @stored payload hframe entries hitems =>
      have hended : Uploading codec [frame] [] := by
        rw [hframe]
        exact .ended payload
      intro course
      have hreceived : course.received = [frame] := by
        have hcourse := course_of_uploading f ending hended entries frames room store
        rw [← hitems] at hcourse
        exact congrArg Course.received hcourse
      rw [hreceived]
      exact .inr ⟨entries, [], hitems, hended⟩
    | discarded hsent hnext =>
      rw [Service.course_ended hreceive hnext]
      exact .inl ⟨rfl, fun h => hsent (List.mem_of_mem_take h)⟩

theorem course_of_uploads {whole : List Frame} {entries : List (Entry κ σ)} (h : Uploads codec whole entries)
    (rest : List Frame) (room : Nat) (store : MapStore κ σ) :
    (PartitionService.service (requests f) codec).course ending room (whole ++ rest) .idle store =
      ⟨whole, [Message.ack.frame].take room, if 0 < room then .idle else .ended, store.putAll f entries⟩ := by
  obtain ⟨payload, frames, rfl, huploading⟩ := h
  have hreceive := PartitionService.receive_upload (requests f) codec payload store
  have hcourse : (PartitionService.service (requests f) codec).course ending room (frames ++ rest)
      (.within (.receiving [])) store = _ := course_of_uploading f ending huploading [] rest room store
  rw [List.cons_append, Service.course_within (Service.receiveWithin_of_le hreceive (Nat.zero_le room))]
  simp only [List.length_nil, Nat.sub_zero, List.nil_append, hcourse]

theorem course_upload (payload : Bytes) (frames : List Frame) (room : Nat) (store : MapStore κ σ) :
    let course := (PartitionService.service (requests f) codec).course ending room
      (.message MessageKind.upload.number payload :: frames) .idle store
    (course.after = store ∧ Message.ack.frame ∉ course.sent) ∨
      ∃ entries, Uploads codec course.received entries := by
  intro course
  have hreceive := PartitionService.receive_upload (requests f) codec payload store
  have hcourse : course = _ := Service.course_within (Service.receiveWithin_of_le hreceive (Nat.zero_le room)) frames
  rw [hcourse]
  rcases course_receiving f ending frames [] room store with hsame | ⟨earlier, entries, -, huploading⟩
  · exact .inl hsame
  · exact .inr ⟨entries, payload, _, rfl, huploading⟩

theorem takeSnapshot_eq (codec : EntryCodec κ σ) (store : MapStore κ σ) :
    let (sent, failure) := PartitionService.sendAll codec (.ofEntries store.entries)
    PartitionService.takeSnapshot (requests f) codec store =
      (⟨sent, failure.elim (.wait (.offered store.versions)) .fail⟩, store) := by
  have hpolled : (requests f).polledOut (.ofEntries store.entries) store = .ofEntries store.entries :=
    Feed.interrupted_never 0 _
  simp only [requests] at hpolled
  simp only [PartitionService.takeSnapshot, requests, hpolled]
  split <;> simp_all

theorem receive_takeSnapshot {store : MapStore κ σ} {sent : List Frame}
    (h : PartitionService.sendAll codec (.ofEntries store.entries) = (sent, none)) (payload : Bytes) :
    (PartitionService.service (requests f) codec).receive (.message MessageKind.takeSnapshot.number payload) .idle
      store = (sent, .within (.offered store.versions), store) := by
  have htake := takeSnapshot_eq f codec store
  rw [h] at htake
  rw [PartitionService.receive_takeSnapshot, htake]
  rfl

theorem receive_ack (codec : EntryCodec κ σ) (taken : List (κ × Nat)) (answer : Bytes) (store : MapStore κ σ) :
    (PartitionService.service (requests f) codec).receive (.message MessageKind.ack.number answer)
      (.within (.offered taken)) store = ([Message.ack.frame], .idle, store.removeTaken taken) :=
  PartitionService.receive_ack (requests f) codec taken store answer

theorem course_of_takes {whole : List Frame} {room : Nat} {store : MapStore κ σ} (h : Takes codec room store whole)
    (rest : List Frame) :
    let course := (PartitionService.service (requests f) codec).course ending room (whole ++ rest) .idle store
    course.received = whole ∧ course.after = store.removeTaken store.versions := by
  obtain ⟨⟨payload, answer, rfl⟩, sent, hsend, hroom⟩ := h
  have hreceive := receive_takeSnapshot f hsend payload
  rw [List.cons_append, List.cons_append, Service.course_within (Service.receiveWithin_of_le hreceive hroom),
    Service.course_ended (receive_ack f codec store.versions answer store) Connection.idle_ne_within]
  exact ⟨rfl, rfl⟩

theorem course_takeSnapshot (payload : Bytes) (frames : List Frame) (room : Nat) (store : MapStore κ σ) :
    let course := (PartitionService.service (requests f) codec).course ending room
      (.message MessageKind.takeSnapshot.number payload :: frames) .idle store
    course.after = store ∨ Takes codec room store course.received := by
  intro course
  rcases hsend : PartitionService.sendAll codec (.ofEntries store.entries) with ⟨sent, _ | status⟩
  · have hreceive := receive_takeSnapshot f hsend payload
    by_cases hroom : sent.length ≤ room
    · have hcourse : course = _ := Service.course_within (Service.receiveWithin_of_le hreceive hroom) frames
      rw [hcourse]
      cases frames with
      | nil => exact .inl rfl
      | cons frame frames =>
        by_cases hack : Frame.Opens .ack [frame]
        · obtain ⟨answer, _, hframe⟩ := hack
          obtain rfl := (List.cons.inj hframe).1
          rw [Service.course_ended (receive_ack f codec store.versions answer store) Connection.idle_ne_within]
          exact .inr ⟨⟨payload, answer, rfl⟩, sent, hsend, hroom⟩
        · obtain ⟨status, hgiven⟩ :=
            PartitionService.receive_unacknowledged (requests f) codec store.versions store hack
          rw [Service.course_ended hgiven (Service.settled_ne_within (Reply.ends_fail _ _))]
          exact .inl rfl
    · have hwithin : (PartitionService.service (requests f) codec).receiveWithin room
          (.message MessageKind.takeSnapshot.number payload) .idle store = (sent.take room, .ended, store) := by
        simp only [Service.receiveWithin, hreceive, if_neg hroom]
        rfl
      have hcourse : course = _ := Service.course_over hwithin Connection.ended_ne_within frames
      rw [hcourse]
      exact .inl rfl
  · have htake := takeSnapshot_eq f codec store
    rw [hsend] at htake
    have hreceive := PartitionService.receive_takeSnapshot (requests f) codec payload store
    rw [htake] at hreceive
    have hcourse : course = _ :=
      Service.course_ended hreceive (Service.settled_ne_within (Reply.ends_fail _ _)) room frames
    rw [hcourse]
    exact .inl rfl

theorem download_eq (codec : EntryCodec κ σ) (horizon : UInt64) (store : MapStore κ σ) :
    ∃ reply, PartitionService.download (requests f) codec horizon store = (reply, store) ∧ reply.Ends := by
  simp only [PartitionService.download, requests]
  split
  next frames _ => exact ⟨⟨frames, .done⟩, rfl, Reply.ends_done frames⟩
  next frames status _ => exact ⟨⟨frames, .fail status⟩, rfl, Reply.ends_fail frames status⟩

theorem opened_other (codec : EntryCodec κ σ) {kind : UInt16} (hupload : kind ≠ MessageKind.upload.number)
    (htake : kind ≠ MessageKind.takeSnapshot.number) (payload : Bytes) (store : MapStore κ σ) :
    ∃ reply, (PartitionService.service (requests f) codec).opened kind payload store = (reply, store) ∧
      reply.Ends := by
  by_cases hdownload : kind = MessageKind.download.number
  · subst hdownload
    rw [PartitionService.opened_download]
    refine PartitionService.opening_ends fun first => ?_
    cases first with
    | download horizon => exact download_eq f codec horizon store
    | _ => exact ⟨_, rfl, Reply.ends_fail [] .malformed⟩
  · by_cases hping : kind = MessageKind.ping.number
    · subst hping
      have hopened : (PartitionService.service (requests f) codec).opened MessageKind.ping.number payload store =
          (PartitionService.opening .ping fun _ store => (⟨[Message.ack.frame], .done⟩, store)).2 payload store :=
        rfl
      rw [hopened]
      exact PartitionService.opening_ends fun _ => ⟨_, rfl, Reply.ends_done _⟩
    · have hunknown : ∀ known ∈ [MessageKind.upload, .download, .takeSnapshot, .ping], kind ≠ known.number := by
        simp [hupload, hdownload, htake, hping]
      exact ⟨_, PartitionService.opened_unknown _ codec payload store hunknown, Reply.ends_fail [] _⟩

theorem course_other {frame : Frame} (hupload : ¬ Frame.Opens .upload [frame])
    (htake : ¬ Frame.Opens .takeSnapshot [frame]) (frames : List Frame) (room : Nat) (store : MapStore κ σ) :
    ((PartitionService.service (requests f) codec).course ending room (frame :: frames) .idle store).after = store := by
  cases frame with
  | error status =>
    rw [Service.course_ended rfl Connection.idle_ne_within]
    rfl
  | message kind payload =>
    have hkind : kind ≠ MessageKind.upload.number := fun h => hupload ⟨payload, [], by rw [h]⟩
    have hkind' : kind ≠ MessageKind.takeSnapshot.number := fun h => htake ⟨payload, [], by rw [h]⟩
    obtain ⟨reply, hopened, hends⟩ := opened_other f codec hkind hkind' payload store
    have hreceive := (PartitionService.service (requests f) codec).receive_idle kind payload store
    rw [hopened] at hreceive
    rw [Service.course_ended hreceive (Service.settled_ne_within hends)]
    rfl

/-- A session leaves the store as it was, unless it is a whole upload or a whole take. -/
theorem course_cases (frames : List Frame) (room : Nat) (store : MapStore κ σ) :
    let course := (PartitionService.service (requests f) codec).course ending room frames .idle store
    course.after = store ∨ (∃ entries, Uploads codec course.received entries) ∨
      Takes codec room store course.received := by
  intro course
  cases frames with
  | nil => exact .inl rfl
  | cons frame frames =>
    by_cases hupload : Frame.Opens .upload [frame]
    · obtain ⟨payload, _, hframe⟩ := hupload
      obtain rfl := (List.cons.inj hframe).1
      exact (course_upload f ending payload frames room store).imp And.left .inl
    · by_cases htake : Frame.Opens .takeSnapshot [frame]
      · obtain ⟨payload, _, hframe⟩ := htake
        obtain rfl := (List.cons.inj hframe).1
        exact (course_takeSnapshot f ending payload frames room store).imp id .inr
      · exact .inl (course_other f ending hupload htake frames room store)

theorem course_acknowledges {room : Nat} {frames : List Frame} {store : MapStore κ σ}
    (hopens : Frame.Opens .upload frames) :
    let course := (PartitionService.service (requests f) codec).course ending room frames .idle store
    Message.ack.frame ∈ course.sent ↔ (∃ entries, Uploads codec course.received entries) ∧ 0 < room := by
  obtain ⟨payload, frames, rfl⟩ := hopens
  intro course
  have hsent {entries : List (Entry κ σ)} (hentries : Uploads codec course.received entries) :
      course.sent = [Message.ack.frame].take room := by
    have hprefix : course.received <+: .message MessageKind.upload.number payload :: frames :=
      (Service.course_received _ _ _ _).1
    obtain ⟨rest, hrest⟩ := hprefix
    have hcourse := course_of_uploads f ending hentries rest room store
    rw [hrest] at hcourse
    exact congrArg Course.sent hcourse
  constructor
  · intro hack
    obtain ⟨entries, hentries⟩ := (course_upload f ending payload frames room store).resolve_left fun h => h.2 hack
    refine ⟨⟨entries, hentries⟩, Nat.pos_of_ne_zero fun hzero => ?_⟩
    rw [hsent hentries, hzero] at hack
    cases hack
  · rintro ⟨⟨entries, hentries⟩, hroom⟩
    rw [hsent hentries, List.take_of_length_le hroom]
    exact List.mem_singleton_self _

end MapStore

/-- A served store in memory applies whole sessions only, whatever bytes arrive on a connection and however many
frames can be sent on it. From the state at the start of a session, a whole upload is merged and an acknowledged take
is removed; nothing else changes the store. As long as frames can be sent, an upload is acknowledged if and only if
it is whole. -/
theorem MapStore.sessions_whole [Ord κ] (f : MergeFunction σ) (codec : EntryCodec κ σ) (bytes : Bytes) (room : Nat)
    (store : MapStore κ σ) :
    let inbound := Inbound.ofBytes bytes
    let service := PartitionService.service (requests f) codec
    let sessions := service.sessions inbound.ending room inbound.frames store
    let course := fun session : Session (MapStore κ σ) =>
      service.course inbound.ending session.room session.incoming .idle session.before
    service.serveWithin inbound.ending room inbound.frames .idle store =
        (sessions.flatMap fun session => (course session).sent,
          sessions.foldl (fun _ session => (course session).after) store) ∧
      ((service.serve inbound.frames inbound.ending store).1.length ≤ room →
        service.serveWithin inbound.ending room inbound.frames .idle store =
          service.serve inbound.frames inbound.ending store) ∧
      ∀ session ∈ sessions,
        (course session).received <+: session.incoming ∧
        (∀ whole entries, whole <+: session.incoming → Uploads codec whole entries →
          (course session).received = whole ∧ (course session).after = session.before.putAll f entries) ∧
        (∀ whole, whole <+: session.incoming → Takes codec session.room session.before whole →
          (course session).received = whole ∧
            (course session).after = session.before.removeTaken session.before.versions) ∧
        ((¬ ∃ entries, Uploads codec (course session).received entries) →
          ¬ Takes codec session.room session.before (course session).received →
            (course session).after = session.before) ∧
        (Frame.Opens .upload session.incoming → (Message.ack.frame ∈ (course session).sent ↔
          (∃ entries, Uploads codec (course session).received entries) ∧ 0 < session.room)) := by
  intro inbound service sessions course
  refine ⟨Service.serveWithin_eq room inbound.frames store, Service.serveWithin_of_le,
    fun session _ => ⟨?_, ?_, ?_, ?_, ?_⟩⟩
  · exact (Service.course_received session.room session.incoming .idle session.before).1
  · rintro whole entries ⟨rest, hrest⟩ hwhole
    have hcourse := course_of_uploads f inbound.ending hwhole rest session.room session.before
    rw [hrest] at hcourse
    exact ⟨congrArg Course.received hcourse, congrArg Course.after hcourse⟩
  · rintro whole ⟨rest, hrest⟩ hwhole
    have hcourse := course_of_takes f inbound.ending hwhole rest
    rw [hrest] at hcourse
    exact hcourse
  · intro hupload htake
    exact (course_cases f inbound.ending session.incoming session.room session.before).resolve_right
      fun h => h.elim hupload htake
  · intro hopens
    exact course_acknowledges f inbound.ending hopens

/-- An upload is merged and acknowledged, although the connection breaks in the session after it. -/
theorem MapStore.sessions_whole_before_break :
    let f : MergeFunction UInt64 := .ignoringTime (· + ·)
    let codec := EntryCodec.archived UInt64 UInt64
    let entry : Entry UInt64 UInt64 := ⟨1, 2, 3⟩
    let frames := [Message.upload.frame, (Message.entryBatch [Archive.encode entry]).frame, Message.endOfStream.frame]
    let inbound := Inbound.ofBytes (frames.flatMap Frame.bytes ++ [0])
    let service := PartitionService.service (requests f) codec
    let session : Session (MapStore UInt64 UInt64) := ⟨1, frames, .empty⟩
    let course := service.course inbound.ending session.room session.incoming .idle session.before
    session ∈ service.sessions inbound.ending 1 inbound.frames .empty ∧ Uploads codec frames [entry] ∧
      course.after = MapStore.empty.putAll f [entry] ∧ Message.ack.frame ∈ course.sent := by
  intro f codec entry frames inbound service session course
  have hfits : ∀ frame ∈ frames, frame.Fits := by decide +kernel
  have hbatch : (Message.entryBatch [Archive.encode entry]).frame.entryBatch? = some [Archive.encode entry] :=
    Frame.entryBatch?_entryBatch (hfits _ (.tail _ (.head _)))
  have hpart : Feed.ofBatch codec [Archive.encode entry] = .ofEntries [entry] :=
    Feed.ofBatch_encoded EntryCodec.archived_undoes rfl
  have huploads : Uploads codec frames [entry] := ⟨_, _, rfl, .batch hbatch hpart (.ended _)⟩
  have hcut : Frame.parse [0] = ([], .failed .unexpectedEnd) := Frame.parse_of_none rfl
  have hframes : inbound.frames = frames := by
    show (Frame.parse _).1 = frames
    rw [Frame.parse_flatMap_append hfits, hcut, List.append_nil]
  have hmem : session ∈ service.sessions inbound.ending 1 inbound.frames .empty := by
    rw [hframes]
    exact Service.mem_sessions (List.cons_ne_nil _ _)
  have hsession := (sessions_whole f codec (frames.flatMap Frame.bytes ++ [0]) 1 .empty).2.2 session hmem
  have hwhole := hsession.2.1 frames [entry] List.prefix_rfl huploads
  have hopens : Frame.Opens .upload session.incoming := ⟨_, _, rfl⟩
  have hreceived : ∃ entries, Uploads codec course.received entries := ⟨[entry], hwhole.1 ▸ huploads⟩
  exact ⟨hmem, huploads, hwhole.2, (hsession.2.2.2.2 hopens).mpr ⟨hreceived, Nat.one_pos⟩⟩

end ReplicatedStore
