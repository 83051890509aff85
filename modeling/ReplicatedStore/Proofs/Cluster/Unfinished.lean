import ReplicatedStore.Proofs.Cluster.Durability
import ReplicatedStore.Proofs.Cluster.Fleet
import ReplicatedStore.Proofs.Cluster.Replay
import ReplicatedStore.Proofs.Session.Unfinished
/-!
# Uploads that end before their source

An upload whose source fails, that loses a quorum on the way or is dropped tells no session that it is complete.
Every store is then fed an error after some of the entries sent to it, and takes nothing of that: stores in memory
and in files do not, and neither do the remote stores that are served from these, whatever part of an upload
reaches them.
-/

namespace ReplicatedStore

variable {μ ν ρ κ σ η : Type}

/-! ### Stores -/

theorem Store.Collects.discards {store : Store ν ρ κ σ} (h : store.Collects) : store.Discards id fun _ => True := by
  intro entries _ state
  obtain ⟨first, hfirst⟩ := (Feed.ofEntries entries).collect_append_error SessionStream.cancelled []
  have hupload := h.upload_of_error hfirst state
  exact congrArg Prod.snd hupload

/-- A remote store discards what the store that is served would, as long as its frames can be told apart. -/
theorem RemoteClient.discards (client : RemoteClient κ σ) (codec : EntryCodec κ σ) {store : Store ν ρ κ σ}
    (h : store.Collects) {admits : Entry κ σ → Prop}
    (hdeclares : ∀ entries, (∀ entry ∈ entries, admits entry) →
      ∀ frame ∈ (Client.uploadFrames client.codec client.options.batchSize (.cancelled entries)).1, frame.Declares) :
    (client.requests store codec).Discards id admits := fun entries hentries served =>
  client.upload_of_error_mem codec h (Feed.error_mem_cancelled entries) (hdeclares entries hentries) served

theorem RemoteClient.declares_cancelled (client : RemoteClient κ σ) {admits : Entry κ σ → Prop} (bound : Nat)
    (hencode : ∀ entry, admits entry → ∃ bytes, client.codec.encode entry = .ok bytes ∧ bytes.length ≤ bound)
    (hbound : max 1 client.options.batchSize * (bound + 8) + 14 < Bytes.capacity 4) (entries : List (Entry κ σ))
    (hentries : ∀ entry ∈ entries, admits entry) :
    ∀ frame ∈ (Client.uploadFrames client.codec client.options.batchSize (.cancelled entries)).1,
      frame.Declares := by
  refine Client.uploadFrames_declares (fun entry hentry => ?_) (fun cause hcause => ?_) hbound
  · have hmem : entry ∈ entries :=
      (List.mem_append.mp hentry).elim Feed.mem_ofEntries.mp fun h => by cases List.mem_singleton.mp h
    exact hencode entry (hentries entry hmem)
  · rcases List.mem_append.mp hcause with h | h
    · obtain ⟨entry, -, heq⟩ := List.mem_map.mp h
      cases heq
    · cases List.mem_singleton.mp h
      decide +kernel

theorem Fleet.member_discards {store : Store ν ρ κ σ} {admits : Entry κ σ → Prop} (h : store.Discards id admits)
    (name : String) : (Fleet.member store name).Discards Fleet.get admits := by
  intro entries hentries fleet
  funext other
  show (fleet.set name (store.upload (.cancelled entries) (fleet.get name)).2).get other = fleet.get other
  have hstate : (store.upload (.cancelled entries) (fleet.get name)).2 = fleet.get name := h entries hentries _
  rw [hstate]
  by_cases hother : other = name
  · subst hother
    exact fleet.get_set_self other _
  · exact fleet.get_set_of_ne hother _

/-! ### Uploads that are given up -/

namespace UploadSessions

variable {client : Nat → Option (Store μ ρ κ σ)} {held : μ → η} {admits : Entry κ σ → Prop}

theorem held_cancelAll (hstores : ∀ index store, client index = some store → store.Discards held admits)
    (interleaving : Interleaving) (failed : IndexSet) {sessions : List (Nat × List (Entry κ σ))}
    (hsessions : ∀ session ∈ sessions, ∀ entry ∈ session.2, admits entry) (world : μ) :
    held (cancelAll Store.upload client interleaving failed sessions world) = held world := by
  induction sessions generalizing world with
  | nil => rfl
  | cons session rest ih =>
    obtain ⟨index, sent⟩ := session
    obtain ⟨hsent, hrest⟩ := List.forall_mem_cons.mp hsessions
    rw [cancelAll]
    cases hclient : client index with
    | none => exact ih hrest world
    | some store =>
      have hfed {part : List (Entry κ σ)} (hpart : part ⊆ sent) :
          held (store.upload (feedOf part false) world).2 = held world :=
        hstores index store hclient part.reverse
          (fun entry hentry => hsent entry (hpart (List.mem_reverse.mp hentry))) world
      dsimp only
      rw [ih hrest]
      split
      next => exact hfed (List.drop_subset _ _)
      next =>
        split
        next => exact hfed (List.Subset.refl sent)
        next => rfl

end UploadSessions

namespace Cluster

variable [Fingerprint κ] (cluster : Cluster μ ρ κ σ) {source : Feed κ σ} {held : μ → η}
  (hstores : ∀ index store, cluster.topology.scheme.clientAt? index = some store →
    store.Discards held fun entry => .ok entry ∈ source)

include hstores

theorem held_cancelUpload {sharder : SchemeSharder} {quorum : Quorum} {interleaving : Interleaving}
    {stop : UploadStop} {sessions : UploadSessions κ σ}
    (hsend : UploadSessions.empty.sendAll cluster.topology sharder quorum interleaving source = (stop, sessions)) :
    held (cluster.cancelUpload interleaving sessions).world = held cluster.world := by
  obtain ⟨read, hbegins, hholds, -⟩ := (UploadSessions.Holds.empty sharder).sendAll_begins hsend
  refine UploadSessions.held_cancelAll hstores interleaving sessions.failed (fun session hsession entry hentry => ?_)
    cluster.world
  have hsent := Std.TreeMap.mem_toList_iff_getElem?_eq_some.mp hsession
  have hread : entry ∈ read := by
    refine hholds.mem_read session.1 entry ?_
    rwa [Std.TreeMap.getD_eq_getD_getElem?, hsent, Option.getD_some]
  exact hbegins.subset (Feed.mem_ofEntries.mpr hread)

/-- An upload that does not reach the end of its source leaves the stores as they are, whatever it would have done
with its sessions then. -/
theorem held_uploadUntil (interleaving : Interleaving)
    {finish : SchemeSharder → UploadSessions κ σ → Cluster μ ρ κ σ → Except ClusterError Unit × Cluster μ ρ κ σ}
    (hfinish : ∀ sharder sessions, cluster.topology.sharder = some sharder →
      UploadSessions.empty.sendAll cluster.topology sharder cluster.options.uploadQuorum interleaving source =
          (.ended, sessions) →
        held (finish sharder sessions cluster.countUpload).2.world = held cluster.world) :
    held (cluster.uploadUntil interleaving finish source).2.world = held cluster.world := by
  unfold uploadUntil
  cases hsharder : cluster.topology.sharder with
  | none =>
    have hnone : cluster.countUpload.topology.sharder = none := hsharder
    simp only [hnone]
    rfl
  | some sharder =>
    have hsome : cluster.countUpload.topology.sharder = some sharder := hsharder
    simp only [hsome]
    split
    next cause sessions hsend => exact cluster.countUpload.held_cancelUpload hstores hsend
    next sessions hsend => exact cluster.countUpload.held_cancelUpload hstores hsend
    next sessions hsend => exact hfinish sharder sessions hsharder hsend

theorem after_of_source_error {interleaving : Interleaving} {cause : StoreError} {after : Cluster μ ρ κ σ}
    (h : cluster.uploadWith interleaving source = (.error (.source cause), after)) :
    after = { cluster.countUpload with world := after.world } ∧ held after.world = held cluster.world := by
  unfold uploadWith uploadUntil at h
  cases hsharder : cluster.countUpload.topology.sharder with
  | none =>
    simp only [hsharder] at h
    cases h
  | some sharder =>
    simp only [hsharder] at h
    split at h
    next sessions hsend =>
      cases h
      exact ⟨rfl, cluster.countUpload.held_cancelUpload hstores hsend⟩
    next => cases h
    next =>
      unfold finishUpload at h
      dsimp only at h
      split at h
      next => split at h <;> cases h
      next => cases h

theorem uploadWith_of_quorumLost {sharder : SchemeSharder} (hsharder : cluster.topology.sharder = some sharder)
    {interleaving : Interleaving} {sessions : UploadSessions κ σ}
    (hsend : UploadSessions.empty.sendAll cluster.topology sharder cluster.options.uploadQuorum interleaving source =
      (.quorumLost, sessions)) :
    (∃ partitions, (cluster.uploadWith interleaving source).1 = .error (.uploadFailed partitions)) ∧
      held (cluster.uploadWith interleaving source).2.world = held cluster.world := by
  constructor
  · have hsome : cluster.countUpload.topology.sharder = some sharder := hsharder
    have hlost : UploadSessions.empty.sendAll cluster.countUpload.topology sharder
      cluster.countUpload.options.uploadQuorum interleaving source = (.quorumLost, sessions) := hsend
    unfold uploadWith uploadUntil
    simp only [hsome, hlost]
    exact ⟨_, rfl⟩
  · refine cluster.held_uploadUntil hstores interleaving fun other ended hother hended => ?_
    obtain rfl := Option.some.inj (hsharder.symm.trans hother)
    cases hsend.symm.trans hended

theorem held_uploadDroppedWith (interleaving : Interleaving) :
    held (cluster.uploadDroppedWith interleaving source).2.world = held cluster.world :=
  cluster.held_uploadUntil hstores interleaving fun _ _ _ hended => cluster.held_cancelUpload hstores hended

end Cluster

/-- An upload that does not reach the end of its source changes no partition. The stream of a session ends cleanly if
and only if its channel brought the message that the upload is complete. However the tasks of an upload are
scheduled, a session is told so only once the source was read to its end, after which the upload is not given up.
Before that, a store has polled some of the entries sent to its session, in order, and an error after all of them at
most, and every store holds what it held. If the upload was given up, each session that is not stopped goes on to
that error. So nothing is stored by an upload that returns the error of its source, in which case no partition is
marked as dead either, by one that loses a quorum between two entries, or by one that is dropped, if all stores
discard feeds that end with an error. Stores in memory and in files do. As long as the headers of its frames have room
for their lengths, so does a remote store that is served from one of these, whatever part of an upload arrives there. -/
theorem Cluster.unfinished_upload [Fingerprint κ] [Ord κ] (cluster : Cluster μ ρ κ σ) (source : Feed κ σ)
    (held : μ → η) (hstores : ∀ index store, cluster.topology.scheme.clientAt? index = some store →
      store.Discards held fun entry => .ok entry ∈ source) :
    (∀ (frames : List (SessionFrame κ σ)) (running : Bool) (polls : Nat), frames.length + 1 < polls →
      ((SessionTask.poll^[polls] ⟨.receiving ⟨frames, false⟩, [], running⟩).EndedCleanly ↔ .complete ∈ frames)) ∧
    (∀ (sharder : SchemeSharder) (schedule : List UploadEvent),
      let run := (UploadRun.start source cluster.world).follow cluster.topology sharder cluster.options schedule
      (run.phase.Completes → (∃ entries, source = .ofEntries entries) ∧
        ∀ more, (run.follow cluster.topology sharder cluster.options more).phase.Completes) ∧
      (¬ run.phase.Completes → held run.world = held cluster.world ∧
        ∀ index (task : SessionTask κ σ), run.tasks[index]? = some task →
          ¬ task.EndedCleanly ∧ ¬ task.Told ∧ task.polled <+: Feed.cancelled (run.sent index)) ∧
      ∀ reason, run.phase = .givenUp reason →
        (∀ index (task : SessionTask κ σ) polls, run.tasks[index]? = some task → task.running = true →
          (run.sent index).length + 1 < polls →
            (run.follow cluster.topology sharder cluster.options
                (.disconnect index :: List.replicate polls (.poll index))).tasks[index]? =
              some ⟨.finished, .cancelled (run.sent index), true⟩) ∧
        ∀ stop, reason = some stop → ∃ interleaving,
          UploadSessions.empty.sendAll cluster.topology sharder cluster.options.uploadQuorum interleaving source =
            (stop, run.sessions)) ∧
    (∀ interleaving : Interleaving,
      (∀ cause after, cluster.uploadWith interleaving source = (.error (.source cause), after) →
        after = { cluster.countUpload with world := after.world } ∧ held after.world = held cluster.world) ∧
      (∀ sharder sessions, cluster.topology.sharder = some sharder →
        UploadSessions.empty.sendAll cluster.topology sharder cluster.options.uploadQuorum interleaving source =
            (.quorumLost, sessions) →
          (∃ partitions, (cluster.uploadWith interleaving source).1 = .error (.uploadFailed partitions)) ∧
            held (cluster.uploadWith interleaving source).2.world = held cluster.world) ∧
      held (cluster.uploadDroppedWith interleaving source).2.world = held cluster.world) ∧
    (∀ (ν ρ : Type) (store : Store ν ρ κ σ), store.IsLocal →
      store.Discards id (fun _ => True) ∧
      ∀ (client : RemoteClient κ σ) (codec : EntryCodec κ σ) (admits : Entry κ σ → Prop),
        (∀ entries, (∀ entry ∈ entries, admits entry) →
          ∀ frame ∈ (Client.uploadFrames client.codec client.options.batchSize (.cancelled entries)).1,
            frame.Declares) →
        (client.requests store codec).Discards id admits ∧
        ∀ entries, (∀ entry ∈ entries, admits entry) → ∀ bytes,
          bytes <+: (Client.uploadFrames client.codec client.options.batchSize
              (.cancelled entries)).1.flatMap Frame.bytes →
            ∀ ending room state, ((PartitionService.service store codec).serveWithin ending room
              (Inbound.ofBytes bytes).frames .idle state).2 = state) ∧
    ∀ (ν ρ : Type) (store : Store ν ρ κ σ) (admits : Entry κ σ → Prop), store.Discards id admits →
      ∀ name, (Fleet.member store name).Discards Fleet.get admits := by
  refine ⟨fun frames running polls hpolls => SessionTask.endedCleanly_iff running hpolls,
    fun sharder schedule => ?_, fun interleaving => ⟨fun cause after => cluster.after_of_source_error hstores,
      fun sharder sessions hsharder => cluster.uploadWith_of_quorumLost hstores hsharder,
      cluster.held_uploadDroppedWith hstores interleaving⟩,
    fun ν ρ store hlocal => ⟨hlocal.collects.discards, fun client codec admits hdeclares => ?_⟩,
    fun ν ρ store admits hstore name => Fleet.member_discards hstore name⟩
  · intro run
    have hsound : run.Sound cluster.topology source held (held cluster.world) :=
      (UploadRun.Sound.start cluster.topology source held cluster.world).follow sharder cluster.options hstores
        schedule
    refine ⟨fun hcompletes => ?_, fun hphase => ⟨hsound.held_eq hphase, fun index task htask => ?_⟩,
      fun reason hphase => ⟨fun index task polls htask hrunning hpolls => ?_, fun stop hstop => ?_⟩⟩
    · refine ⟨?_, fun more => UploadRun.completes_follow cluster.topology sharder cluster.options more hcompletes⟩
      obtain ⟨sessions, hsessions⟩ := hcompletes
      have hreads := hsound.reads
      rw [hsessions] at hreads
      exact hreads
    · obtain ⟨-, hfollows⟩ := (hsound.linked hphase index).task htask
      exact ⟨hfollows.not_endedCleanly, hfollows.not_told, hfollows.polled_begins⟩
    · exact hsound.drained sharder cluster.options hphase htask hrunning hpolls
    · subst hstop
      exact UploadRun.sendAll_of_givenUp source cluster.world schedule hphase
  · refine ⟨client.discards codec hlocal.collects hdeclares,
      fun entries hentries bytes hbytes ending room state => ?_⟩
    exact client.serveWithin_part codec hlocal.collects (Feed.error_mem_cancelled entries)
      (hdeclares entries hentries) hbytes ending room state

namespace Cluster.Trio

def words : RemoteClient UInt64 UInt64 := ⟨"replica", .archived UInt64 UInt64, .standard⟩

def served (partition : Partition) : Store (Fleet (Served (MapStore UInt64 UInt64)))
    (RemoteReceipt (List (UInt64 × Nat)) UInt64 UInt64) UInt64 UInt64 :=
  Fleet.member (words.requests (MapStore.requests (.ignoringTime max)) words.codec) partition.identity.name

def remoteCluster : Cluster (Fleet (Served (MapStore UInt64 UInt64)))
    (RemoteReceipt (List (UInt64 × Nat)) UInt64 UInt64) UInt64 UInt64 where
  membership := .start ⟨[group], group.partitions, fun partition => some (served partition), [sharder]⟩ .zero
  function := .ignoringTime max
  options := .standard
  world := .ofInitial fun _ => ⟨.up, .empty⟩

def cutSource : Feed UInt64 UInt64 := [.ok ⟨1, 5, 7⟩, .error (.aborted "cut")]

/-- An upload of the source that fails after its first entry, which one of three stores has polled by then. -/
def cutRun : UploadRun (Fleet (Served (MapStore UInt64 UInt64))) UInt64 UInt64 :=
  (UploadRun.start cutSource remoteCluster.world).follow remoteCluster.topology ⟨[sharder]⟩ remoteCluster.options
    (List.replicate 9 .proceed ++ [.poll 1, .finish 1])

theorem served_discards (partition : Partition) (admits : Entry UInt64 UInt64 → Prop) :
    (served partition).Discards Fleet.get admits := by
  refine Fleet.member_discards (words.discards words.codec (MapStore.collects _) fun entries hentries => ?_) _
  refine words.declares_cancelled 24 (fun entry _ => ⟨Archive.encode entry, rfl, ?_⟩) (by decide) entries hentries
  exact Nat.le_of_eq (EntryCodec.length_encode_words entry)

end Cluster.Trio

/-- Three remote stores hold what they held after an upload whose source fails, and the two that have not polled
yet find an entry and an error. -/
theorem Cluster.unfinished_upload_trio :
    let cluster := Trio.remoteCluster
    let run := Trio.cutRun
    let answer := cluster.uploadWith .patient Trio.cutSource
    run.phase = .givenUp (some (.sourceFailed (.aborted "cut"))) ∧
      Fleet.get run.world = Fleet.get cluster.world ∧
      (run.follow cluster.topology ⟨[Trio.sharder]⟩ cluster.options
          (.disconnect 0 :: List.replicate 3 (.poll 0))).tasks[0]? =
        some ⟨.finished, .cancelled [⟨1, 5, 7⟩], true⟩ ∧
      answer.2 = { cluster.countUpload with world := answer.2.world } ∧
      Fleet.get answer.2.world = Fleet.get cluster.world := by
  intro cluster run answer
  have hstores : ∀ index store, cluster.topology.scheme.clientAt? index = some store →
      store.Discards Fleet.get fun entry => .ok entry ∈ Trio.cutSource := by
    intro index store hstore
    obtain ⟨partition, -, hclient⟩ := Option.bind_eq_some_iff.mp hstore
    obtain rfl := Option.some.inj hclient
    exact Trio.served_discards partition _
  have hphase : Trio.cutRun.phase = .givenUp (some (.sourceFailed (.aborted "cut"))) := rfl
  have hopened : Trio.cutRun.tasks[0]?.map SessionTask.running = some true := by decide +kernel
  obtain ⟨task, htask, hrunning⟩ := Option.map_eq_some_iff.mp hopened
  have hsent : Trio.cutRun.sent 0 = [⟨1, 5, 7⟩] := by decide +kernel
  have hanswer : answer = (.error (.source (.aborted "cut")), answer.2) := Prod.ext rfl rfl
  obtain ⟨-, hruns, hanswers, -⟩ := cluster.unfinished_upload Trio.cutSource Fleet.get hstores
  obtain ⟨-, hheld, hgiven⟩ := hruns ⟨[Trio.sharder]⟩ (List.replicate 9 .proceed ++ [.poll 1, .finish 1])
  have hnot : ¬ Trio.cutRun.phase.Completes := hphase ▸ UploadPhase.not_completes_givenUp _
  have hpolled := (hgiven _ hphase).1 0 task 3 htask hrunning (Nat.le_of_eq (by rw [← Trio.cutRun, hsent]; rfl))
  obtain ⟨hsame, hkept⟩ := (hanswers .patient).1 _ _ hanswer
  exact ⟨hphase, (hheld hnot).1, hsent ▸ hpolled, hsame, hkept⟩

end ReplicatedStore
