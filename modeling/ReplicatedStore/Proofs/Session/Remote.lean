import ReplicatedStore.Proofs.Session.Batch
import ReplicatedStore.Proofs.Session.EntryStream
import ReplicatedStore.Proofs.Session.Partition
import ReplicatedStore.Session.Remote
/-!
# Remote stores agree with the stores they serve

A feed that is sent in batches arrives as the same feed, so a request to a remote store does to the store behind it
what the request would do there. What is too long for a frame breaks the connection; a feed that fails is sent with an
error at its end, and discarded.
-/

namespace ReplicatedStore

variable {κ σ ν ρ : Type}

namespace Inbound

theorem ofSent_eq {frames : List Frame} (h : ∀ frame ∈ frames, frame.Fits) :
    ofSent frames = ⟨frames, .closed⟩ := by
  rw [ofSent, ofBytes, Frame.parse_flatMap_bytes h]

theorem ofSent_message {m : Message} (h : m.frame.Fits) : ofSent [m.frame] = ⟨[m.frame], .closed⟩ :=
  ofSent_eq (List.forall_mem_singleton.mpr h)

/-- An error at the end of what is sent is read as an error, or breaks the connection. -/
theorem frames_ofSent_error {frames : List Frame} (h : ∀ frame ∈ frames, frame.Fits) (status : Status) :
    (ofSent (frames ++ [.error status])).frames = frames ∨
      ∃ read more, (ofSent (frames ++ [.error status])).frames = frames ++ .error read :: more := by
  have hbytes : (frames ++ [Frame.error status]).flatMap Frame.bytes =
      frames.flatMap Frame.bytes ++ ((Frame.error status).bytes ++ []) := by
    rw [List.flatMap_append, List.flatMap_singleton, List.append_nil]
  have hparse : (ofSent (frames ++ [.error status])).frames =
      frames ++ (Frame.parse ((Frame.error status).bytes ++ [])).1 := by
    rw [ofSent, ofBytes, hbytes, Frame.parse_flatMap_append h]
  rw [hparse]
  rcases Frame.parse_error_append status [] with hnone | ⟨read, more, hread⟩
  · rw [hnone]
    exact .inl (List.append_nil frames)
  · rw [hread]
    exact .inr ⟨read, more, rfl⟩

theorem frames_ofSent_fail {φ : Type} (status : Status) (state : ν) :
    let sent := (Service.settled ((⟨[], .fail status⟩ : Reply φ), state)).1
    (ofSent sent).frames = [] ∨ ∃ read more, (ofSent sent).frames = .error read :: more := by
  intro sent
  by_cases hconnection : status.isConnectionError
  · have hsent : sent = [] := by
      simp only [sent, Service.settled, Service.settle, if_pos hconnection]
    rw [hsent]
    exact .inl (congrArg Inbound.frames (ofSent_eq (List.forall_mem_nil _)))
  · have hsent : sent = [.error status] := by
      simp only [sent, Service.settled, Service.settle, if_neg hconnection, List.nil_append]
    rw [hsent]
    exact frames_ofSent_error (List.forall_mem_nil _) status

end Inbound

theorem leadingBatches_batches {batches : List (List Bytes)}
    (h : ∀ frame ∈ Frame.ofBatches batches, frame.Fits) (rest : List Frame) :
    leadingBatches (Frame.ofBatches batches ++ Message.endOfStream.frame :: rest) =
      (batches, Message.endOfStream.frame :: rest) := by
  induction batches with
  | nil => rfl
  | cons batch batches ih =>
    obtain ⟨hfirst, hrest⟩ := List.forall_mem_cons.mp h
    rw [Frame.ofBatches_cons, List.cons_append, leadingBatches, Frame.entryBatch?_entryBatch hfirst]
    simp only [ih hrest]

namespace Client

/-- Batches that are sent with their end are read back whole. -/
theorem entries_ofSent (codec : EntryCodec κ σ) {batches : List (List Bytes)}
    (h : ∀ frame ∈ Frame.ofBatches batches, frame.Fits) :
    entries codec (.ofSent (Frame.ofBatches batches ++ [Message.endOfStream.frame])) =
      ⟨Feed.ofBatch codec batches.flatten, some []⟩ := by
  have hfits : ∀ frame ∈ Frame.ofBatches batches ++ [Message.endOfStream.frame],
      frame.Fits := List.forall_mem_append.mpr ⟨h, by decide⟩
  rw [Inbound.ofSent_eq hfits, entries, readEntries_eq, leadingBatches_batches h]
  simp [breach, Message.frame, Message.kind]

theorem isOk_acknowledged {inbound : Inbound} :
    (acknowledged inbound).isOk = true ↔ Frame.Opens .ack inbound.frames := by
  rw [← acknowledged_iff]
  cases acknowledged inbound with
  | ok _ => exact ⟨fun _ => rfl, fun _ => rfl⟩
  | error cause => exact ⟨nofun, nofun⟩

/-- The peer concludes that a request was carried out if and only if it was. -/
theorem isOk_acknowledged_answered (result : Except StoreError Unit × ν) :
    let answer : List Frame × Connection (PartitionPhase ρ κ σ) × ν := PartitionService.answered result
    (acknowledged (.ofSent answer.1)).isOk = result.1.isOk := by
  obtain ⟨result, state⟩ := result
  cases result with
  | ok _ =>
    have hopens : Frame.Opens .ack (Inbound.ofSent [Message.ack.frame]).frames := by
      rw [Inbound.ofSent_message (by decide)]
      exact ⟨_, _, rfl⟩
    exact isOk_acknowledged.mpr hopens
  | error cause =>
    refine Bool.eq_false_iff.mpr fun h => ?_
    obtain ⟨payload, rest, hframes⟩ := isOk_acknowledged.mp h
    have hsent := Inbound.frames_ofSent_fail (φ := PartitionPhase ρ κ σ) cause.status state
    rcases hsent with hnone | ⟨read, more, hread⟩
    · cases hnone.symm.trans hframes
    · cases hread.symm.trans hframes

theorem entries_ofSent_fail {φ : Type} (codec : EntryCodec κ σ) (status : Status) (state : ν) :
    ∃ cause, entries codec (.ofSent (Service.settled ((⟨[], .fail status⟩ : Reply φ), state)).1) =
      ⟨[.error cause], none⟩ := by
  rw [entries]
  rcases Inbound.frames_ofSent_fail (φ := φ) status state with hnone | ⟨read, more, hread⟩
  · rw [hnone]
    exact ⟨_, rfl⟩
  · rw [hread]
    exact ⟨_, rfl⟩

end Client

namespace PartitionService

variable {store : Store ν ρ κ σ} (codec : EntryCodec κ σ)

theorem receiveAll_batches (hstore : store.Collects) {batches : List (List Bytes)}
    (h : ∀ frame ∈ Frame.ofBatches batches, frame.Fits) {entries : List (Entry κ σ)}
    (hentries : Feed.ofBatch codec batches.flatten = .ofEntries entries) (earlier : List (Entry κ σ))
    (rest : List Frame) (state : ν) :
    (service store codec).receiveAll (Frame.ofBatches batches ++ rest)
        (.within (.receiving (.ofEntries earlier))) state =
      (service store codec).receiveAll rest (.within (.receiving (.ofEntries (earlier ++ entries)))) state := by
  induction batches generalizing earlier entries with
  | nil =>
    obtain rfl := List.map_eq_nil_iff.mp hentries.symm
    rw [List.append_nil]
    rfl
  | cons batch batches ih =>
    obtain ⟨hfirst, hrest⟩ := List.forall_mem_cons.mp h
    have hsplit : Feed.ofBatch codec batch ++ Feed.ofBatch codec batches.flatten = .ofEntries entries := by
      rw [← hentries, List.flatten_cons, Feed.ofBatch, Feed.ofBatch, Feed.ofBatch, List.map_append]
    obtain ⟨part, later, rfl, hpart, hlater⟩ := List.map_eq_append_iff.mp hsplit.symm
    have hitems : Feed.ofEntries earlier ++ Feed.ofBatch codec batch = .ofEntries (earlier ++ part) := by
      rw [← hpart, Feed.ofEntries, Feed.ofEntries, List.map_append]
    have hreceive := receive_batch codec hstore (Frame.entryBatch?_entryBatch hfirst) hitems state
    rw [Frame.ofBatches_cons, List.cons_append, Service.receiveAll, hreceive]
    simp only [List.nil_append]
    rw [ih hrest hlater.symm, List.append_assoc]

section Upload

variable (hstore : store.Collects) {batches : List (List Bytes)}
  (h : ∀ frame ∈ Frame.ofBatches batches, frame.Fits) {entries : List (Entry κ σ)}
  (hentries : Feed.ofBatch codec batches.flatten = .ofEntries entries) (state : ν)

include hstore h hentries

theorem receiveAll_upload (rest : List Frame) :
    (service store codec).receiveAll
        (Message.upload.frame :: (Frame.ofBatches batches ++ rest)) .idle state =
      (service store codec).receiveAll rest (.within (.receiving (.ofEntries entries))) state := by
  have hreceive : (service store codec).receive Message.upload.frame .idle state =
      ([], .within (.receiving (.ofEntries [])), state) := receive_upload store codec _ state
  rw [Service.receiveAll, hreceive]
  simp only [List.nil_append]
  exact receiveAll_batches codec hstore h hentries [] rest state

theorem serve_upload (ending : Ending) :
    let answer : List Frame × Connection (PartitionPhase ρ κ σ) × ν :=
      answered (store.upload (.ofEntries entries) state)
    (service store codec).serve (Message.upload.frame ::
        (Frame.ofBatches batches ++ [Message.endOfStream.frame])) ending state =
      (answer.1, answer.2.2) := by
  refine Service.serve_of_ends ?_ (acknowledge_ends _) ending
  rw [receiveAll_upload codec hstore h hentries state, Service.receiveAll_singleton]
  exact receive_end codec _ _ state

/-- An upload that breaks off after some batches, or fails there, is discarded. -/
theorem serve_upload_broken {rest : List Frame} (hrest : rest = [] ∨ ∃ status more, rest = .error status :: more)
    (ending : Ending) :
    ((service store codec).serve (Message.upload.frame ::
      (Frame.ofBatches batches ++ rest)) ending state).2 = state := by
  rw [Service.serve, receiveAll_upload codec hstore h hentries state]
  rcases hrest with rfl | ⟨status, more, rfl⟩
  · exact abortUpload_eq hstore _ _ state
  · rw [Service.receiveAll, receive_error codec hstore]
    simp only [Service.receiveAll_ended]
    rfl

end Upload

section Reading

variable {feed : Feed κ σ} {frames : List Frame} {cause : StoreError} {state after : ν}

theorem sendAll_whole (hbatches : feed.batches codec defaultBatchSize = (frames, none)) :
    sendAll codec feed = (frames ++ [Message.endOfStream.frame], none) := by
  rw [sendAll, hbatches]

theorem serve_download (hstore : store.Collects) {horizon : UInt64}
    (h : store.download horizon state = (.ok feed, after))
    (hbatches : feed.batches codec defaultBatchSize = (frames, none)) (ending : Ending) :
    (service store codec).serve [(Message.download horizon).frame] ending state =
      (frames ++ [Message.endOfStream.frame], after) := by
  have hdownload : download store codec horizon state =
      (⟨frames ++ [Message.endOfStream.frame], .done⟩, after) := by
    simp only [download, h, Store.polledOut, hstore.interruption_eq, Feed.interrupted_never,
      sendAll_whole codec hbatches]
  have hreceive := receive_download store codec state horizon
  rw [hdownload, ← Service.receiveAll_singleton] at hreceive
  exact Service.serve_of_ends hreceive (Reply.ends_done _) ending

theorem serve_download_failed {horizon : UInt64} (h : store.download horizon state = (.error cause, after))
    (ending : Ending) :
    (service store codec).serve [(Message.download horizon).frame] ending state =
      ((Service.settled ((failed cause.status : Reply (PartitionPhase ρ κ σ)), after)).1, after) := by
  have hdownload : download store codec horizon state = (failed cause.status, after) := by
    simp only [download, h]
  have hreceive := receive_download store codec state horizon
  rw [hdownload, ← Service.receiveAll_singleton] at hreceive
  exact Service.serve_of_ends hreceive (Reply.ends_fail _ _) ending

theorem receiveAll_take (hstore : store.Collects) {receipt : ρ} (h : store.take state = (.ok (feed, receipt), after))
    (hbatches : feed.batches codec defaultBatchSize = (frames, none)) :
    (service store codec).receiveAll [Message.takeSnapshot.frame] .idle state =
      (frames ++ [Message.endOfStream.frame], .within (.offered receipt), after) := by
  have htake : takeSnapshot store codec state =
      (⟨frames ++ [Message.endOfStream.frame], .wait (.offered receipt)⟩, after) := by
    simp only [takeSnapshot, h, Store.polledOut, hstore.interruption_eq, Feed.interrupted_never,
      sendAll_whole codec hbatches]
  have hreceive := receive_takeSnapshot store codec Message.takeSnapshot.payload state
  rw [htake] at hreceive
  rw [Service.receiveAll_singleton]
  exact hreceive

theorem receiveAll_take_failed (h : store.take state = (.error cause, after)) :
    (service store codec).receiveAll [Message.takeSnapshot.frame] .idle state =
      Service.settled (failed cause.status, after) := by
  have htake : takeSnapshot store codec state = (failed cause.status, after) := by
    simp only [takeSnapshot, h]
  have hreceive := receive_takeSnapshot store codec Message.takeSnapshot.payload state
  rw [htake] at hreceive
  rw [Service.receiveAll_singleton]
  exact hreceive

end Reading

end PartitionService

namespace RemoteClient

variable (client : RemoteClient κ σ) {store : Store ν ρ κ σ} (hstore : store.Collects)
  (hcodec : client.codec.Undoes) {entries : List (Entry κ σ)}
  (hentries : ∀ entry ∈ entries, ∃ bytes, client.codec.encode entry = .ok bytes) (state : ν)

include hstore hcodec hentries

theorem upload_whole
    (hfits : ∀ frame ∈ ((Feed.ofEntries entries).batches client.codec client.options.batchSize).1, frame.Fits) :
    let answer := (client.requests store client.codec).upload (.ofEntries entries) ⟨.up, state⟩
    let result := store.upload (.ofEntries entries) state
    answer.2 = ⟨.up, result.2⟩ ∧ answer.1.isOk = result.1.isOk := by
  intro answer result
  obtain ⟨batches, hbatches, hread⟩ := Feed.batches_ofEntries hcodec hentries client.options.batchSize
  rw [hbatches] at hfits
  let frames := Message.upload.frame ::
    (Frame.ofBatches batches ++ [Message.endOfStream.frame])
  have hupload : Client.uploadFrames client.codec client.options.batchSize (.ofEntries entries) = (frames, none) := by
    rw [Client.uploadFrames, hbatches]
    rfl
  have hframes : ∀ frame ∈ frames, frame.Fits :=
    List.forall_mem_cons.mpr ⟨by decide, List.forall_mem_append.mpr ⟨hfits, by decide⟩⟩
  have hserve := PartitionService.serve_upload client.codec hstore hfits hread state .closed
  have hanswer : answer = (Client.acknowledged (.ofSent (PartitionService.answered result :
      List Frame × Connection (PartitionPhase ρ κ σ) × ν).1), ⟨.up, result.2⟩) := by
    simp only [answer, requests, upload, hupload, exchange, Inbound.ofSent_eq hframes, frames, hserve]
    rfl
  rw [hanswer]
  exact ⟨rfl, Client.isOk_acknowledged_answered result⟩

theorem upload_refused {item : Except StoreError (Entry κ σ)} {cause : StoreError}
    (hitem : client.codec.Refuses item cause) (rest : Feed κ σ)
    (hfits : ∀ frame ∈ ((Feed.ofEntries entries ++ item :: rest).batches client.codec client.options.batchSize).1,
      frame.Fits) :
    (client.requests store client.codec).upload (Feed.ofEntries entries ++ item :: rest) ⟨.up, state⟩ =
      (.error cause, ⟨.up, state⟩) := by
  obtain ⟨batches, sent, hbatches, hread⟩ :=
    Feed.batches_refused hcodec hentries hitem rest client.options.batchSize
  rw [hbatches] at hfits
  let whole := Message.upload.frame :: Frame.ofBatches batches
  obtain ⟨status, hupload⟩ : ∃ status, Client.uploadFrames client.codec client.options.batchSize
      (Feed.ofEntries entries ++ item :: rest) = (whole ++ [.error status], some cause) := by
    rw [Client.uploadFrames, hbatches]
    exact ⟨_, rfl⟩
  have hwhole : ∀ frame ∈ whole, frame.Fits := List.forall_mem_cons.mpr ⟨by decide, hfits⟩
  obtain ⟨more, hframes, hmore⟩ : ∃ more, (Inbound.ofSent (whole ++ [.error status])).frames = whole ++ more ∧
      (more = [] ∨ ∃ read later, more = .error read :: later) := by
    rcases Inbound.frames_ofSent_error hwhole status with hnone | ⟨read, later, hread⟩
    · exact ⟨[], hnone.trans (List.append_nil whole).symm, .inl rfl⟩
    · exact ⟨_, hread, .inr ⟨read, later, rfl⟩⟩
  have hserve := PartitionService.serve_upload_broken client.codec hstore hfits hread state hmore
    (Inbound.ofSent (whole ++ [.error status])).ending
  rw [← List.cons_append, ← hframes] at hserve
  simp only [requests, upload, hupload, exchange]
  exact Prod.ext rfl (congrArg (Served.mk .up) hserve)

theorem download_whole {horizon : UInt64} {after : ν}
    (h : store.download horizon state = (.ok (.ofEntries entries), after))
    (hfits : ∀ frame ∈ ((Feed.ofEntries entries).batches client.codec defaultBatchSize).1, frame.Fits) :
    (client.requests store client.codec).download horizon ⟨.up, state⟩ =
      (.ok (.ofEntries entries), ⟨.up, after⟩) := by
  obtain ⟨batches, hbatches, hread⟩ := Feed.batches_ofEntries hcodec hentries defaultBatchSize
  rw [hbatches] at hfits
  have hsent := Inbound.ofSent_message (Frame.fits_download horizon)
  have hserve := PartitionService.serve_download client.codec hstore h hbatches .closed
  have hanswer := Client.entries_ofSent client.codec hfits
  simp only [requests, download, exchange, hsent, hserve, Except.map, hanswer, hread]

theorem take_whole {receipt : ρ} {after : ν} (h : store.take state = (.ok (.ofEntries entries, receipt), after))
    (hfits : ∀ frame ∈ ((Feed.ofEntries entries).batches client.codec defaultBatchSize).1, frame.Fits) :
    (client.requests store client.codec).take ⟨.up, state⟩ =
      (.ok (.ofEntries entries, ⟨.within (.offered receipt), some []⟩), ⟨.up, after⟩) := by
  obtain ⟨batches, hbatches, hread⟩ := Feed.batches_ofEntries hcodec hentries defaultBatchSize
  rw [hbatches] at hfits
  have hsent := Inbound.ofSent_message (show Message.takeSnapshot.frame.Fits by decide)
  have hserve := PartitionService.receiveAll_take client.codec hstore h hbatches
  have hanswer := Client.entries_ofSent client.codec hfits
  simp only [requests, take, hsent, hserve, hanswer, hread]

omit hstore hcodec hentries

theorem download_failed {horizon : UInt64} {cause : StoreError} {after : ν}
    (h : store.download horizon state = (.error cause, after)) :
    ∃ reason, (client.requests store client.codec).download horizon ⟨.up, state⟩ =
      (.ok [.error reason], ⟨.up, after⟩) := by
  have hsent := Inbound.ofSent_message (Frame.fits_download horizon)
  have hserve := PartitionService.serve_download_failed client.codec h .closed
  obtain ⟨reason, hreason⟩ :=
    Client.entries_ofSent_fail (φ := PartitionPhase ρ κ σ) client.codec cause.status after
  refine ⟨reason, ?_⟩
  simp only [requests, download, exchange, hsent, hserve, Except.map, PartitionService.failed, hreason]

theorem take_failed {cause : StoreError} {after : ν} (h : store.take state = (.error cause, after)) :
    ∃ reason receipt, (client.requests store client.codec).take ⟨.up, state⟩ =
      (.ok ([.error reason], receipt), ⟨.up, after⟩) := by
  have hsent := Inbound.ofSent_message (show Message.takeSnapshot.frame.Fits by decide)
  have hreceive := PartitionService.receiveAll_take_failed client.codec h
  obtain ⟨reason, hreason⟩ :=
    Client.entries_ofSent_fail (φ := PartitionPhase ρ κ σ) client.codec cause.status after
  refine ⟨reason, ⟨(Service.settled (PartitionService.failed cause.status, after)).2.1, none⟩, ?_⟩
  simp only [requests, take, hsent, hreceive, PartitionService.failed, hreason]
  rfl

theorem commit_offered (receipt : ρ) :
    let answer :=
      (client.requests store client.codec).commit ⟨.within (.offered receipt), some []⟩ true ⟨.up, state⟩
    let result := store.commit receipt true state
    answer.2 = ⟨.up, result.2⟩ ∧ answer.1.isOk = result.1.isOk := by
  intro answer result
  let served : List Frame × Connection (PartitionPhase ρ κ σ) × ν := PartitionService.answered result
  have hsent := Inbound.ofSent_message (show Message.ack.frame.Fits by decide)
  have hreceive : (PartitionService.service store client.codec).receiveAll [Message.ack.frame]
      (.within (.offered receipt)) state = served := by
    rw [Service.receiveAll_singleton]
    exact PartitionService.receive_ack store client.codec receipt state _
  have hclose : (PartitionService.service store client.codec).close .closed served.2.1 served.2.2 = result.2 :=
    Service.close_of_ne_within (Service.settled_ne_within (PartitionService.acknowledge_ends _)) .closed result.2
  have hanswer : answer = (Client.acknowledged (.ofSent served.1), ⟨.up, result.2⟩) := by
    simp only [answer, requests, commit, hsent, hreceive, hclose, List.nil_append]
  rw [hanswer]
  exact ⟨rfl, Client.isOk_acknowledged_answered result⟩

end RemoteClient

/-- The stores that keep what they hold themselves. -/
inductive Store.IsLocal [Ord κ] : {ν ρ : Type} → Store ν ρ κ σ → Prop
  | map (f : MergeFunction σ) : IsLocal (MapStore.requests f)
  | file (f : MergeFunction σ) (codec : EntryCodec κ σ) : IsLocal (FileStore.requests f codec)

namespace Store.IsLocal

variable [Ord κ] {store : Store ν ρ κ σ} (h : store.IsLocal)

include h

theorem collects : store.Collects := by
  cases h with
  | map f => exact MapStore.collects f
  | file f codec => exact FileStore.collects f codec

theorem download_eq {horizon : UInt64} {state after : ν} {feed : Feed κ σ}
    (hdownload : store.download horizon state = (.ok feed, after)) : ∃ entries, feed = .ofEntries entries := by
  cases h with
  | map f =>
    cases hdownload
    exact ⟨_, rfl⟩
  | file f codec =>
    have hsince : (FileStore.since f codec state horizon).map Feed.ofEntries = .ok feed := congrArg Prod.fst hdownload
    cases hentries : FileStore.since f codec state horizon with
    | error cause =>
      rw [hentries] at hsince
      cases hsince
    | ok entries =>
      rw [hentries] at hsince
      cases hsince
      exact ⟨entries, rfl⟩

theorem take_eq {state after : ν} {feed : Feed κ σ} {receipt : ρ}
    (htake : store.take state = (.ok (feed, receipt), after)) : ∃ entries, feed = .ofEntries entries := by
  cases h with
  | map f =>
    cases htake
    exact ⟨_, rfl⟩
  | file f codec =>
    have hresult : (FileStore.take f codec state).1.map (fun taken => (Feed.ofEntries taken.1, taken.2)) =
        .ok (feed, receipt) := congrArg Prod.fst htake
    cases htaken : (FileStore.take f codec state).1 with
    | error cause =>
      rw [htaken] at hresult
      cases hresult
    | ok taken =>
      rw [htaken] at hresult
      cases hresult
      exact ⟨taken.1, rfl⟩

end Store.IsLocal

namespace Feed

def Encodes (codec : EntryCodec κ σ) (feed : Feed κ σ) : Prop :=
  ∀ entry, .ok entry ∈ feed → ∃ bytes, codec.encode entry = .ok bytes

def Fits (codec : EntryCodec κ σ) (size : Nat) (feed : Feed κ σ) : Prop :=
  ∀ frame ∈ (feed.batches codec size).1, frame.Fits

theorem fits_of_short {codec : EntryCodec κ σ} {size bound : Nat} {feed : Feed κ σ}
    (hbound : max 1 size * (bound + 8) + 11 ≤ Frame.maxPayload)
    (h : ∀ bytes ∈ (feed.encodeItems codec).1, bytes.length ≤ bound) : feed.Fits codec size := by
  intro frame hframe
  rw [batches_eq] at hframe
  obtain ⟨batch, hbatch, rfl⟩ := List.mem_map.mp hframe
  exact (length_encode_of_mem_sentBatches h hbatch).trans hbound

theorem encodes_ofEntries {codec : EntryCodec κ σ} {entries : List (Entry κ σ)}
    (h : (ofEntries entries).Encodes codec) :
    ∀ entry ∈ entries, ∃ bytes, codec.encode entry = .ok bytes :=
  fun entry hentry => h entry (mem_ofEntries.mpr hentry)

end Feed

/-- A remote store agrees with the store in memory or in files that is behind it, with any number of entries in a
batch. An upload does to the store what the same feed does there, and a feed that fails is refused with its first
error. Downloads and takes yield the same entries in the same order, and an error if there are none. A take that
was read to its end is committed as the take of the store would be, whatever has happened to it since. -/
theorem RemoteClient.requests_agree [Ord κ] (client : RemoteClient κ σ) {store : Store ν ρ κ σ}
    (hstore : store.IsLocal) (hcodec : client.codec.Undoes) (state : ν) :
    let remote := client.requests store client.codec
    (∀ feed : Feed κ σ, feed.Encodes client.codec → feed.Fits client.codec client.options.batchSize →
      (remote.upload feed ⟨.up, state⟩).2 = ⟨.up, (store.upload feed state).2⟩ ∧
        (remote.upload feed ⟨.up, state⟩).1.isOk = (store.upload feed state).1.isOk) ∧
    (∀ before item rest cause, (Feed.ofEntries before).Encodes client.codec → client.codec.Refuses item cause →
      (Feed.ofEntries before ++ item :: rest).Fits client.codec client.options.batchSize →
        remote.upload (Feed.ofEntries before ++ item :: rest) ⟨.up, state⟩ = (.error cause, ⟨.up, state⟩)) ∧
    (∀ horizon feed after, store.download horizon state = (.ok feed, after) →
      feed.Encodes client.codec → feed.Fits client.codec defaultBatchSize →
        remote.download horizon ⟨.up, state⟩ = (.ok feed, ⟨.up, after⟩)) ∧
    (∀ horizon cause after, store.download horizon state = (.error cause, after) →
      ∃ reason, remote.download horizon ⟨.up, state⟩ = (.ok [.error reason], ⟨.up, after⟩)) ∧
    (∀ feed receipt after, store.take state = (.ok (feed, receipt), after) →
      feed.Encodes client.codec → feed.Fits client.codec defaultBatchSize →
        ∃ own, remote.take ⟨.up, state⟩ = (.ok (feed, own), ⟨.up, after⟩) ∧
          ∀ later, (remote.commit own true ⟨.up, later⟩).2 = ⟨.up, (store.commit receipt true later).2⟩ ∧
            (remote.commit own true ⟨.up, later⟩).1.isOk = (store.commit receipt true later).1.isOk) ∧
    ∀ cause after, store.take state = (.error cause, after) →
      ∃ reason own, remote.take ⟨.up, state⟩ = (.ok ([.error reason], own), ⟨.up, after⟩) := by
  intro remote
  have hcollects := hstore.collects
  refine ⟨fun feed hencodes hfits => ?_, fun before item rest cause hencodes hitem hfits => ?_,
    fun horizon feed after hdownload hencodes hfits => ?_, fun horizon cause after hdownload => ?_,
    fun feed receipt after htake hencodes hfits => ?_, fun cause after htake => ?_⟩
  · cases hcollect : feed.collect with
    | ok entries =>
      obtain rfl := Feed.eq_ofEntries_of_collect hcollect
      exact client.upload_whole hcollects hcodec (Feed.encodes_ofEntries hencodes) state hfits
    | error cause =>
      have hlocal := hcollects.upload_of_error hcollect state
      obtain ⟨before, rest, rfl⟩ := Feed.exists_of_collect_error hcollect
      have hbefore : ∀ entry ∈ before, ∃ bytes, client.codec.encode entry = .ok bytes :=
        fun entry hentry => hencodes entry (List.mem_append_left _ (Feed.mem_ofEntries.mpr hentry))
      have hremote := client.upload_refused hcollects hcodec hbefore state (.error cause) rest hfits
      rw [hremote, hlocal]
      exact ⟨rfl, rfl⟩
  · exact client.upload_refused hcollects hcodec (Feed.encodes_ofEntries hencodes) state hitem rest hfits
  · obtain ⟨entries, rfl⟩ := hstore.download_eq hdownload
    exact client.download_whole hcollects hcodec (Feed.encodes_ofEntries hencodes) state hdownload hfits
  · exact client.download_failed state hdownload
  · obtain ⟨entries, rfl⟩ := hstore.take_eq htake
    exact ⟨_, client.take_whole hcollects hcodec (Feed.encodes_ofEntries hencodes) state htake hfits,
      fun later => client.commit_offered later receipt⟩
  · exact client.take_failed state htake

/-- Three entries go in two batches to a remote store that holds two. A feed that fails after them changes nothing.
What is then taken is removed by the commit, but for an entry that was written again. -/
theorem RemoteClient.requests_agree_two_batches :
    let f : MergeFunction UInt64 := .ignoringTime (· + ·)
    let client : RemoteClient UInt64 UInt64 :=
      ⟨"replica", .archived UInt64 UInt64, RemoteOptions.standard.withBatchSize 2⟩
    let remote := client.requests (MapStore.requests f) client.codec
    let stored : MapStore UInt64 UInt64 := .putAll f .empty [⟨1, 2, 3⟩, ⟨4, 1, 9⟩]
    let feed := Feed.ofEntries [⟨1, 5, 1⟩, ⟨2, 5, 2⟩, ⟨3, 5, 3⟩]
    ∃ uploaded own, (remote.upload feed ⟨.up, stored⟩).2 = ⟨.up, uploaded⟩ ∧
      remote.upload (feed ++ [.error (.aborted "source lost")]) ⟨.up, stored⟩ =
        (.error (.aborted "source lost"), ⟨.up, stored⟩) ∧
      remote.take ⟨.up, uploaded⟩ =
        (.ok (.ofEntries [⟨1, 5, 4⟩, ⟨2, 5, 2⟩, ⟨3, 5, 3⟩, ⟨4, 1, 9⟩], own), ⟨.up, uploaded⟩) ∧
      (remote.commit own true ⟨.up, uploaded.putAll f [⟨4, 2, 1⟩]⟩).2.state.entries = [⟨4, 2, 10⟩] := by
  intro f client remote stored feed
  let store : Store (MapStore UInt64 UInt64) _ UInt64 UInt64 := MapStore.requests f
  let uploaded := stored.putAll f [⟨1, 5, 1⟩, ⟨2, 5, 2⟩, ⟨3, 5, 3⟩]
  have hlocal : store.IsLocal := .map f
  have hencodes : ∀ feed : Feed UInt64 UInt64, feed.Encodes client.codec := fun _ _ _ => ⟨_, rfl⟩
  have hshort : ∀ feed : Feed UInt64 UInt64, ∀ bytes ∈ (feed.encodeItems client.codec).1, bytes.length ≤ 24 :=
    fun _ => (Feed.encodeItems_encoded fun entry _ => ⟨_, rfl, (EntryCodec.length_encode_words entry).le⟩).1
  have hpair : ∀ feed : Feed UInt64 UInt64, feed.Fits client.codec client.options.batchSize :=
    fun feed => Feed.fits_of_short (by decide) (hshort feed)
  have hfull : ∀ feed : Feed UInt64 UInt64, feed.Fits client.codec defaultBatchSize :=
    fun feed => Feed.fits_of_short (by decide) (hshort feed)
  have hentries : uploaded.entries = [⟨1, 5, 4⟩, ⟨2, 5, 2⟩, ⟨3, 5, 3⟩, ⟨4, 1, 9⟩] := by decide +kernel
  obtain ⟨hupload, hrefused, -⟩ := client.requests_agree hlocal EntryCodec.archived_undoes stored
  obtain ⟨-, -, -, -, htake, -⟩ := client.requests_agree hlocal EntryCodec.archived_undoes uploaded
  obtain ⟨own, hown, hcommit⟩ := htake _ _ _ rfl (hencodes _) (hfull _)
  refine ⟨uploaded, own, (hupload feed (hencodes _) (hpair _)).1, ?_, ?_, ?_⟩
  · exact hrefused _ _ _ _ (hencodes _) (.error _) (hpair _)
  · rw [← hentries]
    exact hown
  · rw [(hcommit _).1]
    decide +kernel

end ReplicatedStore
