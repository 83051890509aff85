import ReplicatedStore.Proofs.Cluster.Membership
/-!
# Verdicts of uploads

An upload gives up early only when its verdict is decided: partitions that failed stay failed, and buckets that
are written stay written, so a write that is not satisfied by then never is. What an upload returns is therefore
what it would return if it read its whole source before it looked at the quorum.
-/

namespace ReplicatedStore

variable {μ ρ κ σ γ : Type} [Fingerprint κ]

namespace UploadSessions

section Sending

variable (topology : Topology γ) (sharder : SchemeSharder) (interleaving : Interleaving)
  (sessions : UploadSessions κ σ)

def sendEach (entries : List (Entry κ σ)) : UploadSessions κ σ :=
  entries.foldl (send topology sharder interleaving) sessions

theorem mem_failed_sendEach (entries : List (Entry κ σ)) {index : Nat} (h : index ∈ sessions.failed) :
    index ∈ (sessions.sendEach topology sharder interleaving entries).failed := by
  induction entries generalizing sessions with
  | nil => exact h
  | cons entry rest ih =>
    apply ih
    exact mem_failed_send topology sharder interleaving entry h

theorem contains_buckets_sendEach (entries : List (Entry κ σ)) (bucket : Bucket) :
    (sessions.sendEach topology sharder interleaving entries).buckets.contains bucket = true ↔
      sessions.buckets.contains bucket = true ∨ ∃ entry ∈ entries, bucket = Bucket.ofHash (hash32 entry.key) := by
  induction entries generalizing sessions with
  | nil => simp [sendEach]
  | cons entry rest ih =>
    rw [sendEach, List.foldl_cons, ← sendEach, ih, contains_buckets_send, Bool.or_eq_true, decide_eq_true_eq, or_assoc]
    simp only [List.mem_cons, exists_eq_or_imp]

variable (quorum : Quorum)

theorem sendAll_cases (entries : List (Entry κ σ)) :
    ∃ read rest, entries = read ++ rest ∧
      (sessions.sendAll topology sharder quorum interleaving (.ofEntries entries)).2 =
        sessions.sendEach topology sharder interleaving read ∧
      ((sessions.sendAll topology sharder quorum interleaving (.ofEntries entries)).1 = .ended ∧ rest = [] ∨
        (sessions.sendAll topology sharder quorum interleaving (.ofEntries entries)).1 = .quorumLost ∧
          sharder.isWriteSatisfied (sessions.sendEach topology sharder interleaving read).failed
            (sessions.sendEach topology sharder interleaving read).buckets quorum = false) := by
  induction entries generalizing sessions with
  | nil => exact ⟨[], [], rfl, rfl, .inl ⟨rfl, rfl⟩⟩
  | cons entry rest ih =>
    have hstep : Feed.ofEntries (entry :: rest) = .ok entry :: Feed.ofEntries rest := rfl
    rw [hstep, sendAll]
    split
    next hlost => exact ⟨[entry], rest, rfl, rfl, .inr ⟨rfl, hlost.2⟩⟩
    next =>
      obtain ⟨read, remaining, hsplit, hsent, hstop⟩ := ih (sessions.send topology sharder interleaving entry)
      exact ⟨entry :: read, remaining, by rw [hsplit, List.cons_append], hsent, hstop⟩

variable {topology sharder sessions quorum} in
/-- Whatever is sent afterwards and whoever fails, a write that is not satisfied stays so. -/
theorem unsatisfied_sendEach (h : sharder.isWriteSatisfied sessions.failed sessions.buckets quorum = false)
    (more : List (Entry κ σ)) {failed : IndexSet}
    (hfailed : ∀ index, index ∈ (sessions.sendEach topology sharder interleaving more).failed → index ∈ failed) :
    sharder.isWriteSatisfied failed (sessions.sendEach topology sharder interleaving more).buckets quorum =
      false := by
  rw [Bool.eq_false_iff] at h ⊢
  intro hsatisfied
  apply h
  refine SchemeSharder.isWriteSatisfied_anti (fun index hmem => ?_) (fun bucket hmem => ?_) hsatisfied
  · apply hfailed
    exact mem_failed_sendEach topology sharder interleaving sessions more hmem
  · rw [contains_buckets_sendEach]
    exact .inl hmem

end Sending

end UploadSessions

namespace Cluster

variable (cluster : Cluster μ ρ κ σ) (interleaving : Interleaving)

/-- The partitions that have failed when an upload returns: once its source has ended, these are also the ones
that refuse to complete. -/
def failedAt : UploadStop × UploadSessions κ σ → IndexSet
  | (.ended, sessions) =>
    (UploadSessions.completeAll Store.upload cluster.topology.scheme.clientAt? interleaving sessions.sent.toList
      sessions.failed cluster.world).1
  | (_, sessions) => sessions.failed

omit [Fingerprint κ] in
theorem mem_failedAt (stop : UploadStop) {sessions : UploadSessions κ σ} {index : Nat}
    (h : index ∈ sessions.failed) : index ∈ cluster.failedAt interleaving (stop, sessions) := by
  cases stop with
  | ended =>
    have hnodup : (sessions.sent.toList.map Prod.fst).Nodup := by
      rw [Std.TreeMap.map_fst_toList_eq_keys]
      exact Std.TreeMap.nodup_keys
    exact (UploadSessions.completeAll_completion hnodup rfl).1 index h
  | sourceFailed => exact h
  | quorumLost => exact h

variable {cluster} {sharder : SchemeSharder} {sessions : UploadSessions κ σ}

/-- What an upload returns that has sent some entries, once some partitions have failed: whether the buckets written
keep their quorum without them. They are recorded in either case. -/
structure Judges (cluster : Cluster μ ρ κ σ) (sharder : SchemeSharder) (sessions : UploadSessions κ σ)
    (failed : IndexSet) (outcome : Except ClusterError Unit × Cluster μ ρ κ σ) : Prop where
  accepted : sharder.isWriteSatisfied failed sessions.buckets cluster.options.uploadQuorum = true →
    outcome.1 = .ok ()
  refused : sharder.isWriteSatisfied failed sessions.buckets cluster.options.uploadQuorum = false →
    outcome.1 = .error (.uploadFailed
      (.ofList (cluster.topology.identitiesAt failed) (sessions.targeted failed).size))
  recorded : outcome.2.topology = (cluster.membership.recordFailures cluster.topology failed).2.topology

namespace Judges

variable {failed : IndexSet} {outcome : Except ClusterError Unit × Cluster μ ρ κ σ}

omit [Fingerprint κ] in
theorem ok_iff (h : cluster.Judges sharder sessions failed outcome) :
    outcome.1 = .ok () ↔
      sharder.isWriteSatisfied failed sessions.buckets cluster.options.uploadQuorum = true := by
  constructor
  · intro hok
    by_contra hunsatisfied
    have hrefused := h.refused (Bool.eq_false_iff.mpr hunsatisfied)
    rw [hok] at hrefused
    contradiction
  · exact h.accepted

omit [Fingerprint κ] in
theorem failed_iff (h : cluster.Judges sharder sessions failed outcome) :
    (∃ partitions, outcome.1 = .error (.uploadFailed partitions)) ↔
      sharder.isWriteSatisfied failed sessions.buckets cluster.options.uploadQuorum = false := by
  constructor
  · rintro ⟨partitions, herror⟩
    rw [Bool.eq_false_iff]
    intro hsatisfied
    rw [h.accepted hsatisfied] at herror
    contradiction
  · intro hunsatisfied
    exact ⟨_, h.refused hunsatisfied⟩

end Judges

omit [Fingerprint κ] in
theorem topology_uploadFailed (cluster : Cluster μ ρ κ σ) (started : Topology (Store μ ρ κ σ)) (failed : IndexSet)
    (total : Nat) : (cluster.uploadFailed started failed total).2.topology =
      (cluster.membership.recordFailures started failed).2.topology := by
  let counted := cluster.count fun s => { s with failedUploads := s.failedUploads + 1 }
  have htopology : counted.membership.topology = cluster.membership.topology := rfl
  exact Membership.topology_recordFailures htopology started failed

omit [Fingerprint κ] in
theorem finishUpload_judges (cluster : Cluster μ ρ κ σ) (interleaving : Interleaving) (sharder : SchemeSharder)
    (sessions : UploadSessions κ σ) :
    cluster.Judges sharder sessions (cluster.failedAt interleaving (.ended, sessions))
      (cluster.finishUpload interleaving sharder sessions) := by
  unfold finishUpload failedAt
  dsimp only
  generalize UploadSessions.completeAll Store.upload cluster.topology.scheme.clientAt? interleaving
    sessions.sent.toList sessions.failed cluster.world = completed
  obtain ⟨failed, world⟩ := completed
  dsimp only
  split
  next hsatisfied =>
    have hcontra : ∀ {P : Prop}, sharder.isWriteSatisfied failed sessions.buckets cluster.options.uploadQuorum =
        false → P := fun hfalse => absurd (hsatisfied.symm.trans hfalse) (by decide)
    split
    next hempty =>
      refine ⟨fun _ => rfl, hcontra, ?_⟩
      rw [recordFailures_of_isEmpty cluster cluster.topology hempty]
      rfl
    next => exact ⟨fun _ => rfl, hcontra, rfl⟩
  next hunsatisfied =>
    refine ⟨fun hsatisfied => absurd hsatisfied hunsatisfied, fun _ => rfl, ?_⟩
    exact topology_uploadFailed { cluster with world } cluster.topology failed (sessions.targeted failed).size

omit [Fingerprint κ] in
theorem uploadFailed_judges (cluster : Cluster μ ρ κ σ) (interleaving : Interleaving) {sharder : SchemeSharder}
    {sessions : UploadSessions κ σ}
    (h : sharder.isWriteSatisfied sessions.failed sessions.buckets cluster.options.uploadQuorum = false) :
    let given := (cluster.cancelUpload interleaving sessions).uploadFailed cluster.topology sessions.failed
      (sessions.targeted sessions.failed).size
    cluster.Judges sharder sessions sessions.failed (.error given.1, given.2) := by
  intro given
  refine ⟨fun hsatisfied => ?_, fun _ => rfl, ?_⟩
  · rw [h] at hsatisfied
    contradiction
  · exact topology_uploadFailed (cluster.cancelUpload interleaving sessions) cluster.topology sessions.failed
      (sessions.targeted sessions.failed).size

/-- An upload of entries judges what it sent until it stopped, by the partitions that have failed by then. -/
theorem uploadWith_judges {cluster : Cluster μ ρ κ σ} {sharder : SchemeSharder}
    (hsharder : cluster.topology.sharder = some sharder) (interleaving : Interleaving) (entries : List (Entry κ σ)) :
    let sent := UploadSessions.empty.sendAll cluster.topology sharder cluster.options.uploadQuorum interleaving
      (.ofEntries entries)
    cluster.countUpload.Judges sharder sent.2 (cluster.failedAt interleaving sent)
      (cluster.uploadWith interleaving (.ofEntries entries)) := by
  intro sent
  have hstarted : cluster.countUpload.topology.sharder = some sharder := hsharder
  obtain ⟨read, rest, -, hsent, hstop⟩ := UploadSessions.sendAll_cases cluster.topology sharder interleaving
    UploadSessions.empty cluster.options.uploadQuorum entries
  rw [← hsent] at hstop
  have hrun : UploadSessions.empty.sendAll cluster.countUpload.topology sharder
    cluster.countUpload.options.uploadQuorum interleaving (.ofEntries entries) = sent := rfl
  change sent.1 = .ended ∧ rest = [] ∨ sent.1 = .quorumLost ∧
    sharder.isWriteSatisfied sent.2.failed sent.2.buckets cluster.options.uploadQuorum = false at hstop
  unfold uploadWith uploadUntil
  simp only [hstarted, hrun]
  clear_value sent
  obtain ⟨stop, sessions⟩ := sent
  rcases hstop with ⟨rfl, -⟩ | ⟨rfl, hunsatisfied⟩
  · exact cluster.countUpload.finishUpload_judges interleaving sharder sessions
  · exact cluster.countUpload.uploadFailed_judges interleaving hunsatisfied

theorem finishUpload_of_unsatisfied (cluster : Cluster μ ρ κ σ) (topology : Topology γ) (interleaving : Interleaving)
    {sharder : SchemeSharder} {sessions : UploadSessions κ σ} (rest : List (Entry κ σ))
    (h : sharder.isWriteSatisfied sessions.failed sessions.buckets cluster.options.uploadQuorum = false) :
    (cluster.finishUpload interleaving sharder (sessions.sendEach topology sharder interleaving rest)).1 ≠ .ok () := by
  let sent := sessions.sendEach topology sharder interleaving rest
  have hunsatisfied : sharder.isWriteSatisfied (cluster.failedAt interleaving (.ended, sent)) sent.buckets
      cluster.options.uploadQuorum = false := by
    apply UploadSessions.unsatisfied_sendEach interleaving h rest
    intro index hmem
    exact cluster.mem_failedAt interleaving .ended hmem
  intro hok
  have hsatisfied := (cluster.finishUpload_judges interleaving sharder sent).ok_iff.mp hok
  rw [hunsatisfied] at hsatisfied
  contradiction

/-- More failures and more buckets never make a write satisfied, so whatever follows a failed check fails it too. An
upload returns what the check says of the entries it read and of the partitions that it records as failed, and
succeeds exactly if it would when it read all entries first. -/
theorem early_abort_decided {cluster : Cluster μ ρ κ σ} {sharder : SchemeSharder}
    (hsharder : cluster.topology.sharder = some sharder) (interleaving : Interleaving) (entries : List (Entry κ σ)) :
    let sent := UploadSessions.empty.sendAll cluster.topology sharder cluster.options.uploadQuorum interleaving
      (.ofEntries entries)
    let failed := cluster.failedAt interleaving sent
    let satisfied := sharder.isWriteSatisfied failed sent.2.buckets cluster.options.uploadQuorum
    let outcome := cluster.uploadWith interleaving (.ofEntries entries)
    (∀ (sharder : SchemeSharder) (quorum : Quorum) {fewer more : IndexSet} {smaller larger : BucketSet},
      (∀ index, index ∈ fewer → index ∈ more) →
      (∀ bucket, smaller.contains bucket = true → larger.contains bucket = true) →
      sharder.isWriteSatisfied more larger quorum = true → sharder.isWriteSatisfied fewer smaller quorum = true) ∧
    (∀ (topology : Topology γ) (sharder : SchemeSharder) (quorum : Quorum) (sessions : UploadSessions κ σ),
      sharder.isWriteSatisfied sessions.failed sessions.buckets quorum = false →
      ∀ (later : Interleaving) (more : List (Entry κ σ)) (failed : IndexSet),
        (∀ index, index ∈ (sessions.sendEach topology sharder later more).failed → index ∈ failed) →
        sharder.isWriteSatisfied failed (sessions.sendEach topology sharder later more).buckets quorum = false) ∧
    (∃ read rest, entries = read ++ rest ∧
      sent.2 = UploadSessions.empty.sendEach cluster.topology sharder interleaving read ∧
      (∀ bucket, sent.2.buckets.contains bucket = true ↔
        ∃ entry ∈ read, bucket = Bucket.ofHash (hash32 entry.key)) ∧
      (outcome.1 = .ok () ↔ rest = [] ∧ satisfied = true) ∧
      (outcome.1 = .error (.uploadFailed
        (.ofList (cluster.topology.identitiesAt failed) (sent.2.targeted failed).size)) ↔ satisfied = false) ∧
      ((∃ partitions, outcome.1 = .error (.uploadFailed partitions)) ↔ satisfied = false)) ∧
    outcome.2.topology = (cluster.membership.recordFailures cluster.topology failed).2.topology ∧
    (outcome.1 = .ok () ↔ (cluster.countUpload.finishUpload interleaving sharder
      (UploadSessions.empty.sendEach cluster.topology sharder interleaving entries)).1 = .ok ()) := by
  intro sent failed satisfied outcome
  have hjudges : cluster.countUpload.Judges sharder sent.2 failed outcome :=
    uploadWith_judges hsharder interleaving entries
  have hok : outcome.1 = .ok () ↔ satisfied = true := hjudges.ok_iff
  have hfailed : (∃ partitions, outcome.1 = .error (.uploadFailed partitions)) ↔ satisfied = false :=
    hjudges.failed_iff
  have hrecorded : outcome.2.topology = (cluster.membership.recordFailures cluster.topology failed).2.topology := by
    have htopology : cluster.countUpload.membership.topology = cluster.membership.topology := rfl
    exact hjudges.recorded.trans (Membership.topology_recordFailures htopology cluster.topology failed)
  obtain ⟨read, rest, hentries, hsent, hstop⟩ := UploadSessions.sendAll_cases cluster.topology sharder interleaving
    UploadSessions.empty cluster.options.uploadQuorum entries
  have hread : sent.2 = UploadSessions.empty.sendEach cluster.topology sharder interleaving read := hsent
  rw [← hsent] at hstop
  have hsplit : UploadSessions.empty.sendEach cluster.topology sharder interleaving entries =
      sent.2.sendEach cluster.topology sharder interleaving rest := by
    rw [hread, hentries]
    exact List.foldl_append
  have hlost : sharder.isWriteSatisfied sent.2.failed sent.2.buckets cluster.options.uploadQuorum = false →
      satisfied = false := by
    intro hunsatisfied
    rw [Bool.eq_false_iff] at hunsatisfied ⊢
    intro hsatisfied
    apply hunsatisfied
    exact SchemeSharder.isWriteSatisfied_anti (fun index => cluster.mem_failedAt interleaving sent.1) (fun _ => id)
      hsatisfied
  refine ⟨fun _ _ _ _ _ _ => SchemeSharder.isWriteSatisfied_anti,
    fun _ _ _ _ hunsatisfied later more _ => UploadSessions.unsatisfied_sendEach later hunsatisfied more,
    ⟨read, rest, hentries, hread, ?_, ?_, ⟨?_, hjudges.refused⟩, hfailed⟩, hrecorded, ?_⟩
  · intro bucket
    rw [hread, UploadSessions.contains_buckets_sendEach]
    simp [UploadSessions.empty]
  · rw [hok]
    constructor
    · intro hsatisfied
      rcases hstop with ⟨-, hrest⟩ | ⟨-, hunsatisfied⟩
      · exact ⟨hrest, hsatisfied⟩
      · exact absurd ((hlost hunsatisfied).symm.trans hsatisfied) (by decide)
    · exact And.right
  · intro herror
    exact hfailed.mp ⟨_, herror⟩
  · rw [hsplit]
    rcases hstop with ⟨hended, hrest⟩ | ⟨-, hunsatisfied⟩
    · -- Nothing is left to send, and the sessions are completed.
      have hsame : failed = cluster.failedAt interleaving (.ended, sent.2) :=
        congrArg (cluster.failedAt interleaving) (Prod.ext hended rfl)
      have hfinish := (cluster.countUpload.finishUpload_judges interleaving sharder sent.2).ok_iff
      rw [hok, hrest]
      refine Iff.trans ?_ hfinish.symm
      show sharder.isWriteSatisfied failed _ _ = true ↔ _
      rw [hsame]
      rfl
    · rw [hok, hlost hunsatisfied]
      exact iff_of_false (by decide) (finishUpload_of_unsatisfied _ _ interleaving rest hunsatisfied)

/-- Two of three partitions refuse the second entry, so the third is not read. -/
theorem early_abort_decided_trio :
    let cluster := Trio.cluster .healthy
    let interleaving : Interleaving := ⟨fun index taken => index < 2 && taken == 1, fun _ => 0, fun _ => false⟩
    let entries : List (Entry UInt64 Nat) := [⟨1, 5, 7⟩, ⟨2, 5, 8⟩, ⟨3, 5, 9⟩]
    let outcome := cluster.uploadWith interleaving (.ofEntries entries)
    cluster.topology.sharder = some ⟨[Trio.sharder]⟩ ∧
      (∃ partitions, outcome.1 = .error (.uploadFailed partitions)) ∧
      outcome.2.topology.alive = [⟨"g", "c"⟩] ∧
      (cluster.countUpload.finishUpload interleaving ⟨[Trio.sharder]⟩
        (UploadSessions.empty.sendEach cluster.topology ⟨[Trio.sharder]⟩ interleaving entries)).1 ≠ .ok () := by
  intro cluster interleaving entries outcome
  have hsharder : cluster.topology.sharder = some ⟨[Trio.sharder]⟩ := rfl
  obtain ⟨-, -, ⟨_, _, -, -, -, hok, -, hfailed⟩, hrecorded, hwhole⟩ :=
    early_abort_decided (γ := Unit) hsharder interleaving entries
  have hunsatisfied : SchemeSharder.isWriteSatisfied ⟨[Trio.sharder]⟩
      (cluster.failedAt interleaving (UploadSessions.empty.sendAll cluster.topology ⟨[Trio.sharder]⟩
        cluster.options.uploadQuorum interleaving (.ofEntries entries)))
      (UploadSessions.empty.sendAll cluster.topology ⟨[Trio.sharder]⟩ cluster.options.uploadQuorum interleaving
        (.ofEntries entries)).2.buckets cluster.options.uploadQuorum = false := by
    decide +kernel
  have hnot : outcome.1 ≠ .ok () := fun hsucceeds =>
    absurd ((hok.mp hsucceeds).2.symm.trans hunsatisfied) (by decide)
  refine ⟨hsharder, hfailed.mpr hunsatisfied, ?_, fun hsucceeds => hnot (hwhole.mpr hsucceeds)⟩
  rw [hrecorded]
  decide +kernel

end Cluster

end ReplicatedStore
