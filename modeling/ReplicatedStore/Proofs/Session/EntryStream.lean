import ReplicatedStore.Codec.Archived
import ReplicatedStore.Proofs.Wire.Message
import ReplicatedStore.Session.EntryStream
/-!
# What a stream of entries yields

`leadingBatches` takes the frames received apart: the batches of entries before anything else arrives, and
what follows them. A stream yields the items of these batches, and one error more unless the end of the
entries follows. Only then is there a connection on which the take can be committed.
-/

namespace ReplicatedStore

variable {κ σ : Type}

/-- The batches of entries that arrive before any other frame, and the frames after them. -/
def leadingBatches : List Frame → List (List Bytes) × List Frame
  | [] => ([], [])
  | frame :: frames =>
    match frame.entryBatch? with
    | some entries => (entries :: (leadingBatches frames).1, (leadingBatches frames).2)
    | none => ([], frame :: frames)

/-- Why the entries break off, when the given frames follow the last batch; they do not at their end. -/
def breach (ending : Ending) : List Frame → Option Status
  | [] => some ending.status
  | .error status :: _ => some status
  | .message kind _ :: _ =>
    if kind = MessageKind.endOfStream.number then none
    else if kind = MessageKind.entryBatch.number then some .malformed
    else some (.unexpected kind)

theorem breach_eq_none {ending : Ending} {frames : List Frame} :
    breach ending frames = none ↔ Frame.Opens .endOfStream frames := by
  cases frames with
  | nil => exact ⟨nofun, nofun⟩
  | cons frame rest =>
    cases frame with
    | error status => exact ⟨nofun, nofun⟩
    | message kind payload =>
      by_cases hkind : kind = MessageKind.endOfStream.number
      · rw [breach, if_pos hkind, hkind]
        exact ⟨fun _ => ⟨payload, rest, rfl⟩, fun _ => rfl⟩
      · rw [breach, if_neg hkind]
        refine ⟨fun h => ?_, fun ⟨_, _, h⟩ => ?_⟩
        · split at h <;> cases h
        · cases h
          exact absurd rfl hkind

namespace Frame

inductive Arrives (frame : Frame) : Arrival → Prop
  | batch {entries : List Bytes} (hentries : frame.entryBatch? = some entries) : Arrives frame (.batch entries)
  | ended (hentries : frame.entryBatch? = none)
    (hbreach : ∀ ending rest, breach ending (frame :: rest) = none) : Arrives frame .ended
  | broken {status : Status} (hentries : frame.entryBatch? = none)
    (hbreach : ∀ ending rest, breach ending (frame :: rest) = some status) : Arrives frame (.broken status)

theorem arrival_arrives (frame : Frame) : frame.Arrives frame.arrival := by
  cases frame with
  | error status => exact .broken rfl fun _ _ => rfl
  | message kind payload =>
    by_cases hbatch : kind = MessageKind.entryBatch.number
    · subst hbatch
      cases hread : (Archive.decode payload : Option (List Bytes)) with
      | some entries =>
        have harrival : (message MessageKind.entryBatch.number payload).arrival = .batch entries := by
          simp only [arrival, if_true, Message.decode, Message.decode?, hread, Option.map_some]
        rw [harrival]
        exact .batch hread
      | none =>
        have harrival : (message MessageKind.entryBatch.number payload).arrival = .broken .malformed := by
          simp only [arrival, if_true, Message.decode, Message.decode?, hread, Option.map_none]
        rw [harrival]
        exact .broken hread fun _ _ => rfl
    · by_cases hend : kind = MessageKind.endOfStream.number
      · rw [arrival, if_neg hbatch, if_pos hend]
        exact .ended (if_neg hbatch) fun _ _ => if_pos hend
      · rw [arrival, if_neg hbatch, if_neg hend]
        refine .broken (if_neg hbatch) fun _ _ => ?_
        rw [breach, if_neg hend, if_neg hbatch]

end Frame

namespace Client

/-- What is received as entries are the items of the leading batches, and the error after them. -/
theorem readEntries_eq (codec : EntryCodec κ σ) (ending : Ending) (frames : List Frame) :
    readEntries codec ending frames =
      ⟨Feed.ofBatch codec (leadingBatches frames).1.flatten ++
          (breach ending (leadingBatches frames).2).toList.map fun status => .error (.ofStatus status),
        if breach ending (leadingBatches frames).2 = none then some (leadingBatches frames).2.tail else none⟩ := by
  induction frames with
  | nil => rfl
  | cons frame frames ih =>
    have harrives := frame.arrival_arrives
    unfold readEntries leadingBatches
    generalize frame.arrival = arrival at harrives ⊢
    cases harrives with
    | batch hentries =>
      rw [hentries, ih]
      simp [Feed.ofBatch]
    | ended hentries hbreach =>
      rw [hentries]
      simp [hbreach, Feed.ofBatch]
    | broken hentries hbreach =>
      rw [hentries]
      simp [hbreach, Feed.ofBatch, broken]

theorem acknowledged_iff {inbound : Inbound} : acknowledged inbound = .ok () ↔ Frame.Opens .ack inbound.frames := by
  obtain ⟨frames, ending⟩ := inbound
  cases frames with
  | nil => exact ⟨nofun, nofun⟩
  | cons frame rest =>
    simp only [acknowledged, Inbound.expect, ← frame.expect_ack rest]
    cases frame.expect .ack with
    | ok m => exact ⟨fun _ => ⟨m, rfl⟩, fun _ => rfl⟩
    | error status => exact ⟨nofun, nofun⟩

section Answered

variable (codec : EntryCodec κ σ) (batchSize : Nat) {inbound : Inbound}

theorem opens_of_upload_ok {feed : Feed κ σ} (h : ((answered codec batchSize inbound).upload feed ()).1 = .ok ()) :
    Frame.Opens .ack inbound.frames := by
  simp only [answered] at h
  cases hfailure : (uploadFrames codec batchSize feed).2 with
  | none =>
    rw [hfailure] at h
    exact acknowledged_iff.mp h
  | some cause =>
    rw [hfailure] at h
    cases h

theorem commit_ok_iff (drained : Bool) :
    let rest := (leadingBatches inbound.frames).2
    ((answered codec batchSize inbound).commit (entries codec inbound).rest drained ()).1 = .ok () ↔
      drained = true ∧ Frame.Opens .endOfStream rest ∧ Frame.Opens .ack rest.tail := by
  intro rest
  have hopens : breach inbound.ending rest = none ↔ Frame.Opens .endOfStream rest := breach_eq_none
  have hrest : (entries codec inbound).rest =
      if breach inbound.ending rest = none then some rest.tail else none :=
    congrArg Received.rest (readEntries_eq codec inbound.ending inbound.frames)
  simp only [answered, hrest, ← hopens]
  split
  case isTrue hclean =>
    cases drained with
    | true => simp only [commitResult, acknowledged_iff, hclean, true_and]
    | false => exact ⟨nofun, fun h => nomatch h.1⟩
  case isFalse hclean =>
    refine ⟨fun h => ?_, fun h => absurd h.2.1 hclean⟩
    cases drained <;> cases h

end Answered

end Client

namespace EntryStream

variable (codec : EntryCodec κ σ)

/-- What a client that reads a connection to its end receives as entries. -/
def received (receiver : Receiver) : Received κ σ := Client.entries codec (.ofBytes receiver.unread)

def remaining (stream : EntryStream) : Feed κ σ :=
  Feed.ofBatch codec stream.queued ++ stream.connection.elim [] fun receiver => (received codec receiver).feed

/-- What arrives after the entries, if they have not ended yet but will end cleanly. -/
def following (stream : EntryStream) : Option Inbound :=
  stream.connection.bind fun receiver =>
    (received codec receiver).rest.map fun frames => ⟨frames, (Frame.parse receiver.unread).2⟩

inductive Polling (stream : EntryStream) : Option (Except StoreError (Entry κ σ)) × EntryStream → Prop
  | item {item : Except StoreError (Entry κ σ)} {next : EntryStream}
    (hremaining : stream.remaining codec = item :: next.remaining codec)
    (hfollowing : next.following codec = stream.following codec)
    (hcompleted : next.completed = stream.completed) : Polling stream (some item, next)
  | ended {receiver : Receiver} (hremaining : stream.remaining codec = [])
    (hfollowing : stream.following codec = some (.ofBytes receiver.unread)) :
    Polling stream (none, ⟨none, [], some receiver⟩)
  | finished (hconnection : stream.connection = none) (hqueued : stream.queued = []) : Polling stream (none, stream)

theorem received_of_next (receiver : Receiver) :
    (∀ ending after, receiver.next = (.error ending, after) →
      received codec receiver = Client.broken ending.status) ∧
    ∀ frame after, receiver.next = (.ok frame, after) →
      (Frame.parse receiver.unread).2 = (Frame.parse after.unread).2 ∧
      received codec receiver =
        match frame.arrival with
        | .batch entries =>
          ⟨Feed.ofBatch codec entries ++ (received codec after).feed, (received codec after).rest⟩
        | .ended => ⟨[], some (Frame.parse after.unread).1⟩
        | .broken status => Client.broken status := by
  obtain ⟨hframe, hending⟩ := receiver.parse_unread
  refine ⟨fun ending after hnext => ?_, fun frame after hnext => ?_⟩
  · rw [received, Client.entries, Inbound.ofBytes, hending ending after hnext]
    rfl
  · have hparse := hframe frame after hnext
    refine ⟨by rw [hparse], ?_⟩
    rw [received, Client.entries, Inbound.ofBytes, hparse]
    rfl

theorem poll_polling (stream : EntryStream) : stream.Polling codec (stream.poll codec) := by
  fun_induction poll codec stream with
  | case1 connection bytes queued completed => exact .item rfl rfl rfl
  | case2 completed => exact .finished rfl rfl
  | case3 receiver completed ending after hnext =>
    have hreceived := (received_of_next codec receiver).1 ending after hnext
    refine .item ?_ ?_ rfl
    · simp [remaining, hreceived, Client.broken, Feed.ofBatch]
    · simp [following, hreceived, Client.broken]
  | case4 receiver completed frame after hnext entries harrival ih =>
    obtain ⟨hending, hreceived⟩ := (received_of_next codec receiver).2 frame after hnext
    rw [harrival] at hreceived
    have hremaining : remaining codec ⟨some after, entries, completed⟩ =
        remaining codec ⟨some receiver, [], completed⟩ := by
      simp [remaining, hreceived, Feed.ofBatch]
    have hfollowing : following codec ⟨some after, entries, completed⟩ =
        following codec ⟨some receiver, [], completed⟩ := by
      simp [following, hreceived, hending]
    generalize poll codec ⟨some after, entries, completed⟩ = result at ih ⊢
    cases ih with
    | item hitem hnext hcompleted => exact .item (hremaining ▸ hitem) (hnext.trans hfollowing) hcompleted
    | ended hnone hnext => exact .ended (hremaining ▸ hnone) (hfollowing ▸ hnext)
    | finished hconnection => cases hconnection
  | case5 receiver completed frame after hnext harrival =>
    obtain ⟨hending, hreceived⟩ := (received_of_next codec receiver).2 frame after hnext
    rw [harrival] at hreceived
    refine .ended ?_ ?_
    · simp [remaining, hreceived, Feed.ofBatch]
    · simp [following, hreceived, hending, Inbound.ofBytes]
  | case6 receiver completed frame after hnext status harrival =>
    obtain ⟨-, hreceived⟩ := (received_of_next codec receiver).2 frame after hnext
    rw [harrival] at hreceived
    refine .item ?_ ?_ rfl
    · simp [remaining, hreceived, Client.broken, Feed.ofBatch]
    · simp [following, hreceived, Client.broken]

theorem after_over {stream : EntryStream} (hconnection : stream.connection = none) (hqueued : stream.queued = [])
    (polls : Nat) : stream.after codec polls = stream := by
  obtain ⟨connection, queued, completed⟩ := stream
  subst hconnection hqueued
  induction polls with
  | zero => rfl
  | succ polls ih =>
    rw [after, poll]
    exact ih

theorem poll_after (stream : EntryStream) (polls : Nat) :
    ((stream.after codec polls).poll codec).1 = (stream.remaining codec)[polls]? := by
  have hpolling := stream.poll_polling codec
  induction polls generalizing stream with
  | zero =>
    generalize hresult : stream.poll codec = result at hpolling
    cases hpolling with
    | item hremaining => simp only [after, hresult, hremaining, List.getElem?_cons_zero]
    | ended hremaining => simp only [after, hresult, hremaining, List.getElem?_nil]
    | finished hconnection hqueued =>
      simp only [after, hresult, remaining, hconnection, hqueued, Feed.ofBatch, List.map_nil, Option.elim_none,
        List.append_nil, List.getElem?_nil]
  | succ polls ih =>
    rw [after, ih _ (poll_polling codec _)]
    generalize stream.poll codec = result at hpolling
    cases hpolling with
    | item hremaining => rw [hremaining, List.getElem?_cons_succ]
    | ended hremaining => rw [hremaining]; rfl
    | finished hconnection hqueued =>
      simp only [remaining, hconnection, hqueued, Feed.ofBatch, List.map_nil, Option.elim_none, List.append_nil,
        List.getElem?_nil]

/-- A stream hands its connection on at the poll that finds the end of the entries, and then keeps it. -/
theorem completed_after {stream : EntryStream} (h : stream.completed = none) (polls : Nat) :
    (stream.after codec polls).completed.map (fun receiver => Inbound.ofBytes receiver.unread) =
      if (stream.remaining codec).length < polls then stream.following codec else none := by
  induction polls generalizing stream with
  | zero => rw [if_neg (Nat.not_lt_zero _), after, h, Option.map_none]
  | succ polls ih =>
    have hpolling := stream.poll_polling codec
    rw [after]
    generalize stream.poll codec = result at hpolling
    cases hpolling with
    | item hremaining hfollowing hcompleted =>
      rw [ih (hcompleted.trans h), hremaining, hfollowing, List.length_cons]
      simp only [Nat.succ_lt_succ_iff]
    | ended hremaining hfollowing =>
      rw [after_over codec rfl rfl, hremaining, hfollowing, List.length_nil, if_pos (Nat.succ_pos polls)]
      rfl
    | finished hconnection hqueued =>
      have hfollowing : stream.following codec = none := by rw [following, hconnection, Option.bind_none]
      rw [ih h, hfollowing, ite_self, ite_self]

theorem following_ofReceiver (chunks : List Bytes) :
    let inbound := Inbound.ofBytes chunks.flatten
    let rest := (leadingBatches inbound.frames).2
    (ofReceiver ⟨[], chunks⟩).following codec =
      if breach inbound.ending rest = none then some ⟨rest.tail, inbound.ending⟩ else none := by
  intro inbound rest
  have hentries := Client.readEntries_eq codec inbound.ending inbound.frames
  have hrest := congrArg (fun received => received.rest.map fun frames => Inbound.mk frames inbound.ending) hentries
  rw [apply_ite (Option.map _)] at hrest
  exact hrest

theorem completed_ofReceiver (chunks : List Bytes) (polls : Nat) :
    let inbound := Inbound.ofBytes chunks.flatten
    let items := Feed.ofBatch codec (leadingBatches inbound.frames).1.flatten
    let rest := (leadingBatches inbound.frames).2
    ((ofReceiver ⟨[], chunks⟩).after codec polls).completed.map (fun receiver => Inbound.ofBytes receiver.unread) =
      if breach inbound.ending rest = none ∧ items.length < polls then some ⟨rest.tail, inbound.ending⟩
      else none := by
  intro inbound items rest
  have hremaining : (ofReceiver ⟨[], chunks⟩).remaining codec =
      items ++ (breach inbound.ending rest).toList.map fun status => .error (.ofStatus status) :=
    congrArg Received.feed (Client.readEntries_eq codec inbound.ending inbound.frames)
  have hfollowing : (ofReceiver ⟨[], chunks⟩).following codec =
      if breach inbound.ending rest = none then some ⟨rest.tail, inbound.ending⟩ else none :=
    following_ofReceiver codec chunks
  rw [completed_after codec rfl, hremaining, hfollowing]
  cases hbreach : breach inbound.ending rest with
  | none => simp only [Option.toList_none, List.map_nil, List.append_nil, true_and, if_true]
  | some status => simp only [reduceCtorEq, false_and, if_false, ite_self]

theorem commit_of_none {stream : EntryStream} (h : stream.completed = none) :
    stream.commit = ([], .error Client.notRead) := by
  rw [commit, h]

theorem commit_of_some {stream : EntryStream} {receiver : Receiver} (h : stream.completed = some receiver) :
    stream.commit.1 = [Message.ack.frame] ∧
      (stream.commit.2 = .ok () ↔ Frame.Opens .ack (Frame.parse receiver.unread).1) := by
  simp only [commit, h, ← receiver.expect_ack]
  cases (receiver.expect .ack).1 with
  | ok m => exact ⟨rfl, fun _ => ⟨m, rfl⟩, fun _ => rfl⟩
  | error status => exact ⟨rfl, nofun, nofun⟩

end EntryStream

/-- However bytes arrive, the polls of a stream find the items of the leading batches in order. They find nothing
more at the end of the entries, and one error more after anything else. Just the poll that consumes the end of the
entries makes the take ready to be committed, and without it nothing is sent. Uploads, pings and commits succeed
only if the first frame that they read is an acknowledgement. -/
theorem EntryStream.polls_of_chunks (codec : EntryCodec κ σ) (batchSize : Nat) (chunks : List Bytes) :
    let inbound := Inbound.ofBytes chunks.flatten
    let batches := (leadingBatches inbound.frames).1
    let rest := (leadingBatches inbound.frames).2
    let items : Feed κ σ := Feed.ofBatch codec batches.flatten
    let error : Feed κ σ := (breach inbound.ending rest).toList.map fun status => .error (.ofStatus status)
    let stream := fun polls => (ofReceiver ⟨[], chunks⟩).after codec polls
    (∀ polls, ((stream polls).poll codec).1 = (items ++ error)[polls]?) ∧
      (error = [] ↔ Frame.Opens .endOfStream rest) ∧
      (Client.entries codec inbound).feed = items ++ error ∧
      (∀ polls, ((stream polls).completed.isSome ↔ Frame.Opens .endOfStream rest ∧ items.length < polls) ∧
        ((stream polls).completed = none → (stream polls).commit = ([], .error Client.notRead)) ∧
        ((stream polls).completed.isSome → (stream polls).commit.1 = [Message.ack.frame] ∧
          ((stream polls).commit.2 = .ok () ↔ Frame.Opens .ack rest.tail))) ∧
      (∀ feed, ((Client.answered codec batchSize inbound).upload feed ()).1 = .ok () →
        Frame.Opens .ack inbound.frames) ∧
      (((Client.answered codec batchSize inbound).ping ()).1 = .ok () ↔ Frame.Opens .ack inbound.frames) ∧
      ∀ drained, ((Client.answered codec batchSize inbound).commit
          (Client.entries codec inbound).rest drained ()).1 = .ok () ↔
        drained = true ∧ Frame.Opens .endOfStream rest ∧ Frame.Opens .ack rest.tail := by
  intro inbound batches rest items error stream
  have hbreach : breach inbound.ending rest = none ↔ error = [] := by
    rw [List.map_eq_nil_iff, Option.toList_eq_nil_iff]
  have hopens : breach inbound.ending rest = none ↔ Frame.Opens .endOfStream rest := breach_eq_none
  have hfeed : (Client.entries codec inbound).feed = items ++ error :=
    congrArg Received.feed (Client.readEntries_eq codec inbound.ending inbound.frames)
  have hcompleted (polls : Nat) : (stream polls).completed.map (fun receiver => Inbound.ofBytes receiver.unread) =
      if breach inbound.ending rest = none ∧ items.length < polls then some ⟨rest.tail, inbound.ending⟩
      else none := completed_ofReceiver codec chunks polls
  refine ⟨fun polls => ?_, hbreach.symm.trans hopens, hfeed, fun polls => ⟨?_, commit_of_none, fun hsome => ?_⟩,
    fun _ => Client.opens_of_upload_ok codec batchSize, Client.acknowledged_iff,
    Client.commit_ok_iff codec batchSize⟩
  · rw [← hfeed]
    exact poll_after codec _ polls
  · rw [← hopens, ← Option.isSome_map (f := fun receiver : Receiver => Inbound.ofBytes receiver.unread),
      hcompleted]
    simp only [Option.isSome_ite]
  · obtain ⟨receiver, hreceiver⟩ := Option.isSome_iff_exists.mp hsome
    have hrest := hcompleted polls
    rw [hreceiver, Option.map_some] at hrest
    split at hrest
    · have hframes : (Frame.parse receiver.unread).1 = rest.tail := congrArg Inbound.frames (Option.some.inj hrest)
      rw [← hframes]
      exact commit_of_some hreceiver
    · cases hrest

/-- Before the end of the entries is polled nothing is committed, and after it the take is. -/
theorem EntryStream.polls_of_chunks_committed :
    let sent := ([.entryBatch [[7]], .endOfStream, .ack] : List Message).map Message.frame
    let bytes := sent.flatMap Frame.bytes
    let stream := fun polls => (ofReceiver ⟨[], [bytes.take 5, bytes.drop 5]⟩).after (.archived UInt64 UInt64) polls
    (stream 1).completed = none ∧ (stream 1).commit = ([], .error Client.notRead) ∧
      (stream 2).completed.isSome ∧ (stream 2).commit = ([Message.ack.frame], .ok ()) := by
  intro sent bytes stream
  obtain ⟨-, -, -, hpolls, -⟩ := polls_of_chunks (.archived UInt64 UInt64) 1 [bytes.take 5, bytes.drop 5]
  have hframes : (Inbound.ofBytes [bytes.take 5, bytes.drop 5].flatten).frames = sent := by
    rw [List.flatten_cons, List.flatten_singleton, List.take_append_drop]
    exact congrArg Prod.fst (Frame.parse_flatMap_bytes (by decide +kernel))
  have hleading : leadingBatches sent = ([[[7]]], [Message.endOfStream.frame, Message.ack.frame]) := by decide +kernel
  simp only [hframes, hleading] at hpolls
  have hopens : Frame.Opens .endOfStream [Message.endOfStream.frame, Message.ack.frame] := ⟨_, _, rfl⟩
  have hfirst : (stream 1).completed = none :=
    Option.not_isSome_iff_eq_none.mp fun h => absurd ((hpolls 1).1.mp h).2 (by decide)
  have hsecond : (stream 2).completed.isSome := (hpolls 2).1.mpr ⟨hopens, by decide⟩
  obtain ⟨hsent, hresult⟩ := (hpolls 2).2.2 hsecond
  exact ⟨hfirst, (hpolls 1).2.1 hfirst, hsecond, Prod.ext hsent (hresult.mpr ⟨_, _, rfl⟩)⟩

end ReplicatedStore
