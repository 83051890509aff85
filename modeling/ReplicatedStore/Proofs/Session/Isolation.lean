import ReplicatedStore.Proofs.Session.Exchange
import ReplicatedStore.Proofs.Session.Sessions
/-!
# Sessions on one connection

A client that sends whole sessions one after the other gets from a served store in memory the replies that each of
them gets on a connection of its own: every session reads its own frames and no more, also where it fails.
-/

namespace ReplicatedStore

variable {κ σ φ ν : Type}

namespace Service

theorem receiveAll_append (service : Service φ ν) (frames more : List Frame) (connection : Connection φ) (state : ν) :
    service.receiveAll (frames ++ more) connection state =
      let (sent, next, after) := service.receiveAll frames connection state
      let (rest, last, final) := service.receiveAll more next after
      (sent ++ rest, last, final) := by
  induction frames generalizing connection state with
  | nil => rfl
  | cons frame frames ih =>
    simp only [List.cons_append, receiveAll, ih, List.append_assoc]

theorem receiveAll_errors (service : Service φ ν) (errors : List Status) (state : ν) :
    service.receiveAll (errors.map .error) .idle state = ([], .idle, state) := by
  induction errors with
  | nil => rfl
  | cons error errors ih => simp only [List.map_cons, receiveAll, receive, ih, List.append_nil]

/-- Serves each session on a connection of its own, one after the other: the replies to each, and the state. -/
def serveApart (service : Service φ ν) : List (List Frame) → ν → List (List Frame) × ν
  | [], state => ([], state)
  | session :: sessions, state =>
    let (sent, after) := service.serve session .closed state
    let (more, last) := service.serveApart sessions after
    (sent :: more, last)

end Service

structure ClientSession where
  /-- The errors by which the client gives up what it had begun before. -/
  errors : List Status
  frames : List Frame

namespace ClientSession

def sent (session : ClientSession) : List Frame := session.errors.map .error ++ session.frames

end ClientSession

inductive Request (κ σ : Type) where
  | ping
  | download (horizon : UInt64)
  | take
  | upload (entries : List (Entry κ σ))
  | refused (status : Status)

namespace Request

/-- The frames of a session that makes a request. -/
inductive Sends (codec : EntryCodec κ σ) : Request κ σ → List Frame → Prop
  | ping (payload : Bytes) : Sends codec .ping [.message MessageKind.ping.number payload]
  | download {payload : Bytes} {horizon : UInt64} (h : Message.decode .download payload = .ok (.download horizon)) :
    Sends codec (.download horizon) [.message MessageKind.download.number payload]
  | take (payload answer : Bytes) : Sends codec .take
      [.message MessageKind.takeSnapshot.number payload, .message MessageKind.ack.number answer]
  | upload {frames : List Frame} {entries : List (Entry κ σ)} (h : Uploads codec frames entries) :
    Sends codec (.upload entries) frames
  | malformed {payload : Bytes} {status : Status} (h : Message.decode .download payload = .error status) :
    Sends codec (.refused status) [.message MessageKind.download.number payload]
  | unknown {kind : UInt16} (payload : Bytes)
    (h : ∀ known ∈ [MessageKind.upload, .download, .takeSnapshot, .ping], kind ≠ known.number) :
    Sends codec (.refused (.unknownKind kind)) [.message kind payload]

section Answering

variable [Ord κ] (f : MergeFunction σ) (codec : EntryCodec κ σ) (store : MapStore κ σ)

/-- What a store in memory replies to a request, and the store after it. -/
def answer : Request κ σ → List Frame × MapStore κ σ
  | .ping => ([Message.ack.frame], store)
  | .download horizon =>
    let (sent, failure) := PartitionService.sendAll codec (.ofEntries (store.since f horizon))
    (sent ++ (failure.map .error).toList, store)
  | .take =>
    let (sent, _) := PartitionService.sendAll codec (.ofEntries store.entries)
    (sent ++ [Message.ack.frame], store.removeTaken store.versions)
  | .upload entries => ([Message.ack.frame], store.putAll f entries)
  | .refused status => ([.error status], store)

/-- Whether a session with a request fails: it is refused, or an entry to be sent has no encoding. -/
def Fails : Request κ σ → Prop
  | .download horizon => ∃ entry ∈ store.since f horizon, ∀ bytes, codec.encode entry ≠ .ok bytes
  | .refused _ => True
  | _ => False

end Answering

end Request

def EntryCodec.Encodes [Ord κ] (codec : EntryCodec κ σ) (store : MapStore κ σ) : Prop :=
  ∀ entry ∈ store.entries, ∃ bytes, codec.encode entry = .ok bytes

def Frame.isError : Frame → Bool
  | .error _ => true
  | .message _ _ => false

theorem StoreError.isConnectionError_status (cause : StoreError) : cause.status.isConnectionError = false := by
  cases cause <;> rfl

theorem Service.settled_fail {status : Status} (h : status.isConnectionError = false) (sent : List Frame) (state : ν) :
    settled ((⟨sent, .fail status⟩ : Reply φ), state) = (sent ++ [.error status], .idle, state) := by
  simp only [settled, settle, h]
  rfl

namespace Feed

variable {codec : EntryCodec κ σ}

theorem encodeItems_eq_none_iff {entries : List (Entry κ σ)} :
    ((ofEntries entries).encodeItems codec).2 = none ↔ ∀ entry ∈ entries, ∃ bytes, codec.encode entry = .ok bytes := by
  induction entries with
  | nil => exact ⟨fun _ => List.forall_mem_nil _, fun _ => rfl⟩
  | cons entry entries ih =>
    have hcons : ofEntries (entry :: entries) = .ok entry :: ofEntries entries := rfl
    rw [hcons, encodeItems, List.forall_mem_cons, ← ih]
    cases hencode : codec.encode entry with
    | error cause =>
      refine ⟨fun h => ?_, fun h => absurd h.1 (by simp)⟩
      contradiction
    | ok bytes => exact ⟨fun h => ⟨⟨bytes, rfl⟩, h⟩, And.right⟩

end Feed

namespace PartitionService

variable {codec : EntryCodec κ σ}

theorem sendAll_spec (codec : EntryCodec κ σ) (feed : Feed κ σ) :
    (∀ frame ∈ (sendAll codec feed).1, frame.isError = false) ∧
      (sendAll codec feed).2 = (feed.encodeItems codec).2.map StoreError.status := by
  obtain ⟨batches, hbatches, -⟩ := Feed.exists_batches codec defaultBatchSize feed
  have hmessages : ∀ frame ∈ Frame.ofBatches batches, frame.isError = false := by
    intro frame hframe
    obtain ⟨batch, -, rfl⟩ := List.mem_map.mp hframe
    rfl
  rw [sendAll, hbatches]
  cases (feed.encodeItems codec).2 with
  | none => exact ⟨List.forall_mem_append.mpr ⟨hmessages, List.forall_mem_singleton.mpr rfl⟩, rfl⟩
  | some cause => exact ⟨hmessages, rfl⟩

end PartitionService

namespace MapStore

variable [Ord κ] {f : MergeFunction σ} {codec : EntryCodec κ σ} {store : MapStore κ σ} {request : Request κ σ}
  {frames : List Frame}

theorem settled_download (f : MergeFunction σ) (codec : EntryCodec κ σ) (horizon : UInt64) (store : MapStore κ σ) :
    Service.settled (PartitionService.download (requests f) codec horizon store) =
      (((Request.download horizon).answer f codec store).1, .idle, store) := by
  have hpolled : (requests f).polledOut (.ofEntries (store.since f horizon)) store = .ofEntries (store.since f horizon) :=
    Feed.interrupted_never 0 _
  simp only [requests] at hpolled
  obtain ⟨-, hfailure⟩ := PartitionService.sendAll_spec codec (.ofEntries (store.since f horizon))
  simp only [PartitionService.download, requests, hpolled, Request.answer]
  rcases hsend : PartitionService.sendAll codec (.ofEntries (store.since f horizon)) with ⟨sent, _ | status⟩
  · dsimp only
    rw [Option.map_none, Option.toList_none, List.append_nil]
    rfl
  · rw [hsend] at hfailure
    obtain ⟨cause, -, rfl⟩ := Option.map_eq_some_iff.mp hfailure.symm
    exact Service.settled_fail cause.isConnectionError_status sent store

theorem receiveAll_uploading {frames : List Frame} {entries : List (Entry κ σ)} (h : Uploading codec frames entries)
    (earlier : List (Entry κ σ)) (store : MapStore κ σ) :
    (PartitionService.service (requests f) codec).receiveAll frames (.within (.receiving (.ofEntries earlier))) store =
      ([Message.ack.frame], .idle, store.putAll f (earlier ++ entries)) := by
  induction h generalizing earlier with
  | ended payload =>
    have hupload : (requests f).upload (.ofEntries earlier) store = (.ok (), store.putAll f earlier) := by
      simp only [requests, upload, Feed.collect_ofEntries]
    rw [Service.receiveAll_singleton, PartitionService.receive_end, hupload, List.append_nil]
    rfl
  | @batch frame batch part frames entries hbatch hpart hrest ih =>
    have hitems : Feed.ofEntries earlier ++ Feed.ofBatch codec batch = Feed.ofEntries (earlier ++ part) := by
      rw [hpart, Feed.ofEntries, Feed.ofEntries, Feed.ofEntries, List.map_append]
    have hreceive := PartitionService.receive_batch codec (collects f) hbatch hitems store
    simp only [Service.receiveAll, hreceive, ih, List.nil_append, List.append_assoc]

/-- A session reads its own frames, and then the next session is awaited. -/
theorem receiveAll_request (hsends : request.Sends codec frames) (hencodes : codec.Encodes store) :
    (PartitionService.service (requests f) codec).receiveAll frames .idle store =
      ((request.answer f codec store).1, .idle, (request.answer f codec store).2) := by
  cases hsends with
  | ping payload =>
    rw [Service.receiveAll_singleton]
    exact PartitionService.receive_ping (requests f) codec payload store
  | @download payload horizon h =>
    rw [Service.receiveAll_singleton, Service.receive_idle, PartitionService.opened_download,
      PartitionService.opening_ok h]
    exact settled_download f codec horizon store
  | take payload answer =>
    obtain ⟨-, hfailure⟩ := PartitionService.sendAll_spec codec (.ofEntries store.entries)
    rw [Feed.encodeItems_eq_none_iff.mpr hencodes] at hfailure
    have hreceive := receive_takeSnapshot f (Prod.ext rfl hfailure) payload
    have hack := receive_ack f codec store.versions answer store
    simp only [Service.receiveAll, hreceive, hack, List.append_nil]
    rfl
  | upload h =>
    obtain ⟨payload, frames, rfl, huploading⟩ := h
    have hreceive := PartitionService.receive_upload (requests f) codec payload store
    have hrest := receiveAll_uploading (f := f) huploading [] store
    simp only [Service.receiveAll, hreceive]
    exact hrest
  | @malformed payload status h =>
    obtain rfl := Message.eq_malformed h
    rw [Service.receiveAll_singleton, Service.receive_idle, PartitionService.opened_download,
      PartitionService.opening_error h]
    rfl
  | @unknown kind payload h =>
    rw [Service.receiveAll_singleton, Service.receive_idle, PartitionService.opened_unknown _ codec payload store h]
    rfl

theorem serve_sent (session : ClientSession) (hsends : request.Sends codec session.frames)
    (hencodes : codec.Encodes store) (ending : Ending) :
    (PartitionService.service (requests f) codec).serve session.sent ending store = request.answer f codec store := by
  have hreceive := receiveAll_request (f := f) hsends hencodes
  simp only [Service.serve, ClientSession.sent, Service.receiveAll_append, Service.receiveAll_errors, hreceive,
    List.nil_append]
  rfl

theorem serve_frames (hsends : request.Sends codec frames) (hencodes : codec.Encodes store) (ending : Ending) :
    (PartitionService.service (requests f) codec).serve frames ending store = request.answer f codec store :=
  serve_sent ⟨[], frames⟩ hsends hencodes ending

theorem countP_isError_answer (f : MergeFunction σ) (codec : EntryCodec κ σ) (store : MapStore κ σ)
    (request : Request κ σ) :
    (request.Fails f codec store → (request.answer f codec store).1.countP Frame.isError = 1) ∧
      (¬ request.Fails f codec store → (request.answer f codec store).1.countP Frame.isError = 0) := by
  have hnone : ∀ feed : Feed κ σ, (PartitionService.sendAll codec feed).1.countP Frame.isError = 0 := by
    intro feed
    refine List.countP_eq_zero.mpr fun frame hframe => ?_
    rw [(PartitionService.sendAll_spec codec feed).1 frame hframe]
    exact Bool.false_ne_true
  cases request with
  | ping => exact ⟨False.elim, fun _ => rfl⟩
  | upload entries => exact ⟨False.elim, fun _ => rfl⟩
  | refused status => exact ⟨fun _ => rfl, fun h => absurd trivial h⟩
  | take =>
    refine ⟨False.elim, fun _ => ?_⟩
    rw [Request.answer, List.countP_append, hnone]
    rfl
  | download horizon =>
    have hfailure := (PartitionService.sendAll_spec codec (.ofEntries (store.since f horizon))).2
    have hcount : ((Request.download horizon).answer f codec store).1.countP Frame.isError =
        ((Feed.ofEntries (store.since f horizon)).encodeItems codec).2.toList.length := by
      rw [Request.answer, List.countP_append, hnone, hfailure, Nat.zero_add]
      cases ((Feed.ofEntries (store.since f horizon)).encodeItems codec).2 <;> rfl
    have hfails : (Request.download horizon).Fails f codec store ↔
        ((Feed.ofEntries (store.since f horizon)).encodeItems codec).2 ≠ none := by
      rw [Ne, Feed.encodeItems_eq_none_iff]
      simp only [Request.Fails]
      push Not
      rfl
    rw [hcount, hfails]
    constructor
    · intro h
      obtain ⟨cause, hcause⟩ := Option.ne_none_iff_exists'.mp h
      rw [hcause]
      rfl
    · intro h
      rw [not_not.mp h]
      rfl

end MapStore

/-- The sessions on a connection: all are whole, and when one starts, the codec encodes what is stored. -/
inductive Conversation [Ord κ] (f : MergeFunction σ) (codec : EntryCodec κ σ) :
    MapStore κ σ → List ClientSession → Prop
  | nil (store : MapStore κ σ) : Conversation f codec store []
  | session {store : MapStore κ σ} {request : Request κ σ} {session : ClientSession} {rest : List ClientSession}
    (hsends : request.Sends codec session.frames) (hencodes : codec.Encodes store)
    (hrest : Conversation f codec
      ((PartitionService.service (MapStore.requests f) codec).serve session.frames .closed store).2 rest) :
    Conversation f codec store (session :: rest)

namespace Conversation

variable [Ord κ] {f : MergeFunction σ} {codec : EntryCodec κ σ} {store : MapStore κ σ}
  {sessions : List ClientSession}

/-- After each session the next one is awaited, so the replies are those that the sessions get apart. -/
theorem receiveAll_sent (h : Conversation f codec store sessions) :
    let service := PartitionService.service (MapStore.requests f) codec
    let apart := service.serveApart (sessions.map ClientSession.frames) store
    service.receiveAll (sessions.flatMap ClientSession.sent) .idle store = (apart.1.flatten, .idle, apart.2) := by
  induction h with
  | nil => rfl
  | @session store request session rest hsends hencodes hrest ih =>
    have hreceive := MapStore.receiveAll_request (f := f) hsends hencodes
    have hserve := MapStore.serve_frames (f := f) hsends hencodes .closed
    rw [hserve] at ih
    simp only [List.flatMap_cons, List.map_cons, ClientSession.sent, List.append_assoc, Service.receiveAll_append,
      Service.receiveAll_errors, hreceive, Service.serveApart, hserve, List.flatten_cons, List.nil_append]
    rw [ih]

/-- Sessions on one connection are isolated. The replies are those that the sessions get on connections of their
own, in the same order, and they leave the same store behind; it does not matter how the bytes arrive, nor whether the
client waits for replies between them. A session that fails costs one error, and errors before a session cost
none. -/
theorem isolated (h : Conversation f codec store sessions) :
    let service := PartitionService.service (MapStore.requests f) codec
    let frames := sessions.flatMap ClientSession.sent
    let apart := service.serveApart (sessions.map ClientSession.frames) store
    (∀ ending, service.serve frames ending store = (apart.1.flatten, apart.2)) ∧
      ((∀ frame ∈ frames, frame.Fits) →
        let exchange := Exchange.opened (frames.flatMap Frame.bytes) store
        (∃ last, Relation.ReflTransGen (Exchange.Step service) exchange last ∧ last.Quiet service) ∧
        ∀ last, Relation.ReflTransGen (Exchange.Step service) exchange last → last.Quiet service →
          last.replies = apart.1.flatten ∧ last.state = apart.2) ∧
      ∀ (request : Request κ σ) (session : ClientSession) store, request.Sends codec session.frames →
        codec.Encodes store →
        service.serve session.sent .closed store = service.serve session.frames .closed store ∧
        (request.Fails f codec store → (service.serve session.sent .closed store).1.countP Frame.isError = 1) ∧
        (¬ request.Fails f codec store → (service.serve session.sent .closed store).1.countP Frame.isError = 0) := by
  intro service frames apart
  have hreceive : service.receiveAll frames .idle store = (apart.1.flatten, .idle, apart.2) := h.receiveAll_sent
  refine ⟨fun ending => ?_, fun hfits => ?_, fun request session store hsends hencodes => ?_⟩
  · simp only [Service.serve, hreceive]
    rfl
  · refine ⟨Exchange.exists_quiet service _, fun last hrun hquiet => ?_⟩
    have hlast := hquiet.outcome_eq.symm.trans (Exchange.outcome_eq_of_run hrun)
    rw [Exchange.outcome_opened hfits, hreceive] at hlast
    simp only [Prod.mk.injEq] at hlast
    exact ⟨hlast.1, hlast.2.2⟩
  · rw [MapStore.serve_sent session hsends hencodes, MapStore.serve_frames hsends hencodes]
    exact ⟨rfl, MapStore.countP_isError_answer f codec store request⟩

/-- A message that nothing handles, behind an error, comes between an upload and a take. -/
theorem isolated_unknown_between :
    let f : MergeFunction UInt64 := .ignoringTime (· + ·)
    let codec := EntryCodec.archived UInt64 UInt64
    let batch := (Message.entryBatch [Archive.encode (⟨1, 2, 3⟩ : Entry UInt64 UInt64)]).frame
    let sessions : List ClientSession :=
      [⟨[], [Message.upload.frame, batch, Message.endOfStream.frame]⟩, ⟨[.timedOut], [.message 99 []]⟩,
        ⟨[], [Message.takeSnapshot.frame, Message.ack.frame]⟩]
    let service := PartitionService.service (MapStore.requests f) codec
    Conversation f codec .empty sessions ∧
      (service.serve (sessions.flatMap ClientSession.sent) .closed .empty).1 =
        [Message.ack.frame, .error (.unknownKind 99), batch, Message.endOfStream.frame, Message.ack.frame] := by
  intro f codec batch sessions service
  have hencodes : ∀ store : MapStore UInt64 UInt64, codec.Encodes store := fun store entry _ => ⟨_, rfl⟩
  have hbatch : batch.entryBatch? = some [Archive.encode (⟨1, 2, 3⟩ : Entry UInt64 UInt64)] :=
    Frame.entryBatch?_entryBatch (by decide +kernel)
  have hpart : Feed.ofBatch codec [Archive.encode (⟨1, 2, 3⟩ : Entry UInt64 UInt64)] = .ofEntries [⟨1, 2, 3⟩] :=
    Feed.ofBatch_encoded EntryCodec.archived_undoes rfl
  have huploads : Uploads codec [Message.upload.frame, batch, Message.endOfStream.frame] [⟨1, 2, 3⟩] :=
    ⟨_, _, rfl, .batch hbatch hpart (.ended _)⟩
  have hconversation : Conversation f codec .empty sessions :=
    .session (.upload huploads) (hencodes _) <| .session (.unknown [] (by decide)) (hencodes _) <|
      .session (.take _ _) (hencodes _) (.nil _)
  refine ⟨hconversation, ?_⟩
  rw [hconversation.isolated.1]
  decide +kernel

end Conversation

end ReplicatedStore
