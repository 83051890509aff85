import ReplicatedStore.Proofs.Cluster.Aggregates
import ReplicatedStore.Proofs.Cluster.Evolution
/-!
# What operations show of their failures

Each operation of a cluster shows an aggregate failure, another error, or none. Aggregate failures are truthful,
and those of uploads and downloads are counted. The partitions that one names are dead when it is shown, unless
it is the failure of a commit, which records nothing.
-/

namespace ReplicatedStore

variable {μ ρ κ σ ω γ : Type}

def errorOf {ε α : Type} : Except ε α → Option ε
  | .ok _ => none
  | .error e => some e

namespace ClusterError

def isUploadFailed : ClusterError → Bool
  | uploadFailed _ => true
  | _ => false

def isDownloadFailed : ClusterError → Bool
  | downloadFailed _ => true
  | _ => false

/-- All partitions that an aggregate failure names are dead. -/
def Buried (e : ClusterError) (topology : Topology γ) : Prop :=
  ∀ failure, e.failedPartitions = some failure → ∀ partition ∈ failure.failed, partition ∈ topology.dead

end ClusterError

namespace Membership

structure Steady (scheme : PartitionScheme γ) (before after : Membership γ) : Prop where
  follows : before.Follows scheme → after.Follows scheme
  failedUploads : after.statistics.failedUploads = before.statistics.failedUploads
  failedDownloads : after.statistics.failedDownloads = before.statistics.failedDownloads

/-- What an operation leaves of membership that shows an error, or none: an aggregate failure is truthful, and
counted once. -/
structure Surfaces (scheme : PartitionScheme γ) (before : Membership γ) (error : Option ClusterError)
    (total : Nat) (after : Membership γ) : Prop where
  follows : after.Follows scheme
  truthful : ∀ e, error = some e → ∀ failure, e.failedPartitions = some failure → failure.Truthful scheme total
  failedUploads : after.statistics.failedUploads =
    before.statistics.failedUploads + error.toList.countP ClusterError.isUploadFailed
  failedDownloads : after.statistics.failedDownloads =
    before.statistics.failedDownloads + error.toList.countP ClusterError.isDownloadFailed

variable {scheme : PartitionScheme γ} {before between after current : Membership γ}

namespace Steady

theorem refl (scheme : PartitionScheme γ) (current : Membership γ) : Steady scheme current current :=
  ⟨id, rfl, rfl⟩

theorem trans (hfirst : Steady scheme before between) (hsecond : Steady scheme between after) :
    Steady scheme before after :=
  ⟨hsecond.follows ∘ hfirst.follows, hsecond.failedUploads.trans hfirst.failedUploads,
    hsecond.failedDownloads.trans hfirst.failedDownloads⟩

private theorem statistics_update (current : Membership γ) (alive : List PartitionId) :
    (current.update alive).2.statistics.failedUploads = current.statistics.failedUploads ∧
      (current.update alive).2.statistics.failedDownloads = current.statistics.failedDownloads := by
  unfold update
  split
  next => exact ⟨rfl, rfl⟩
  next => exact ⟨rfl, rfl⟩

theorem markAlive (scheme : PartitionScheme γ) (current : Membership γ) (partitions : List PartitionId) :
    Steady scheme current (current.markAlive partitions).2 := by
  obtain ⟨huploads, hdownloads⟩ := statistics_update current
    (current.topology.scheme.identities.filter fun partition =>
      current.topology.alive.contains partition || partitions.contains partition)
  exact ⟨fun h => h.markAlive partitions, huploads, hdownloads⟩

theorem markDead (scheme : PartitionScheme γ) (current : Membership γ) (partitions : List PartitionId) :
    Steady scheme current (current.markDead partitions).2 := by
  obtain ⟨huploads, hdownloads⟩ := statistics_update current
    (current.topology.alive.filter fun partition => !partitions.contains partition)
  exact ⟨fun h => h.markDead partitions, huploads, hdownloads⟩

theorem countFailures (scheme : PartitionScheme γ) (current : Membership γ) (count : Nat) :
    Steady scheme current (current.countFailures count) :=
  ⟨id, rfl, rfl⟩

theorem recordFailures (scheme : PartitionScheme γ) (current : Membership γ) (started : Topology γ)
    (failed : IndexSet) : Steady scheme current (current.recordFailures started failed).2 :=
  (countFailures scheme current _).trans (markDead scheme _ _)

theorem surfaces (h : Steady scheme before after) (hfollows : before.Follows scheme)
    {error : Option ClusterError} (herror : ∀ e, error = some e → e.failedPartitions = none) (total : Nat) :
    Surfaces scheme before error total after := by
  refine ⟨h.follows hfollows, ?_, ?_, ?_⟩
  · intro e he failure hfailure
    rw [herror e he] at hfailure
    contradiction
  · rw [h.failedUploads]
    cases error with
    | none => rfl
    | some e =>
      have hnone := herror e rfl
      cases e <;> first | rfl | contradiction
  · rw [h.failedDownloads]
    cases error with
    | none => rfl
    | some e =>
      have hnone := herror e rfl
      cases e <;> first | rfl | contradiction

theorem then_surfaces {error : Option ClusterError} {total : Nat} (h : Steady scheme before between)
    (hsurfaces : Surfaces scheme between error total after) : Surfaces scheme before error total after := by
  refine ⟨hsurfaces.follows, hsurfaces.truthful, ?_, ?_⟩
  · rw [hsurfaces.failedUploads, h.failedUploads]
  · rw [hsurfaces.failedDownloads, h.failedDownloads]

end Steady

theorem scheme_recordFailures (current : Membership γ) (started : Topology γ) (failed : IndexSet) :
    (current.recordFailures started failed).2.topology.scheme = current.topology.scheme := by
  rw [recordFailures, markDead, topology_update]
  split <;> rfl

theorem mem_dead_recordFailures {started : Topology γ} {failed : IndexSet} {partition : PartitionId} :
    partition ∈ (current.recordFailures started failed).2.topology.dead ↔
      partition ∈ current.topology.dead ∨
        partition ∈ current.topology.scheme.identities ∧ partition ∈ started.identitiesAt failed := by
  simp only [Topology.dead, List.mem_filter, scheme_recordFailures, Bool.not_eq_true', ← Bool.not_eq_true,
    List.contains_iff_mem, mem_alive_recordFailures, not_and_or, not_not, and_or_left]

end Membership

namespace Topology

variable {topology started : Topology γ}

theorem mem_dead_of_mem_deadIndices {partition : PartitionId}
    (h : partition ∈ topology.identitiesAt topology.deadIndices) : partition ∈ topology.dead := by
  obtain ⟨index, hdead, hindex⟩ := Membership.mem_identitiesAt.mp h
  rw [dead, List.mem_filter]
  refine ⟨List.mem_of_getElem? hindex, ?_⟩
  have hmem := List.contains_iff_mem.mp (Std.TreeSet.mem_ofList.mp hdead)
  obtain ⟨-, hnot⟩ := List.mem_filter.mp hmem
  rw [isAliveAt, hindex, Option.any_some] at hnot
  exact hnot

theorem lt_size_of_mem_deadIndices {index : Nat} (h : index ∈ topology.deadIndices) :
    index < topology.scheme.size := by
  have hmem := List.contains_iff_mem.mp (Std.TreeSet.mem_ofList.mp h)
  exact List.mem_range.mp (List.mem_of_mem_filter hmem)

theorem dead_recordFailures {current : Membership γ} (hscheme : started.scheme = current.topology.scheme)
    {lost failed after : IndexSet} (hlost : ∀ partition ∈ started.identitiesAt lost, partition ∈ current.topology.dead)
    (hafter : ∀ index ∈ after, index ∈ failed ∨ index ∈ lost) :
    ∀ partition ∈ started.identitiesAt after,
      partition ∈ (current.recordFailures started failed).2.topology.dead := by
  intro partition hmem
  obtain ⟨index, hindex, hpartition⟩ := Membership.mem_identitiesAt.mp hmem
  rw [Membership.mem_dead_recordFailures]
  rcases hafter index hindex with hfailed | hbefore
  · right
    refine ⟨?_, Membership.mem_identitiesAt.mpr ⟨index, hfailed, hpartition⟩⟩
    rw [← hscheme]
    exact List.mem_of_getElem? hpartition
  · left
    apply hlost
    exact Membership.mem_identitiesAt.mpr ⟨index, hbefore, hpartition⟩

end Topology

namespace UploadSessions

variable {sessions : UploadSessions κ σ} {failed : IndexSet} {bound : Nat}

private theorem mem_targeted {index : Nat} :
    index ∈ sessions.targeted failed ↔ index ∈ sessions.sent ∨ index ∈ failed := by
  rw [targeted, IndexSet.mem_insertAll, Std.TreeMap.mem_keys]

private theorem size_targeted (h : ∀ index, index ∈ failed ∨ index ∈ sessions.sent → index < bound) :
    (sessions.targeted failed).size =
      (List.range bound).countP fun index => sessions.sent.contains index || failed.contains index := by
  rw [size_eq_countP fun index hmem => h index (mem_targeted.mp hmem).symm]
  refine List.countP_congr fun index _ => ?_
  rw [Bool.or_eq_true, ← Std.TreeSet.mem_iff_contains, mem_targeted, Std.TreeMap.mem_iff_contains,
    Std.TreeSet.mem_iff_contains]

private theorem size_le_targeted (h : ∀ index, index ∈ failed ∨ index ∈ sessions.sent → index < bound) :
    failed.size ≤ (sessions.targeted failed).size := by
  rw [size_targeted h, size_eq_countP fun index hmem => h index (.inl hmem)]
  refine List.countP_mono_left fun index _ hfailed => ?_
  rw [hfailed, Bool.or_true]

end UploadSessions

namespace Cluster

variable {hash : PartitionId → UInt32} {scheme : PartitionScheme (Store μ ρ κ σ)} {cluster : Cluster μ ρ κ σ}
  {started : Topology (Store μ ρ κ σ)}

structure Shows {α : Type} (scheme : PartitionScheme (Store μ ρ κ σ)) (cluster : Cluster μ ρ κ σ) (total : Nat)
    (outcome : Except ClusterError α × Cluster μ ρ κ σ) : Prop where
  surfaces : cluster.membership.Surfaces scheme (errorOf outcome.1) total outcome.2.membership
  buried : ∀ e, outcome.1 = .error e → e.Buried outcome.2.topology

namespace Shows

variable {α : Type} {total : Nat} {after : Cluster μ ρ κ σ}

theorem ok {value : α} (h : cluster.membership.Steady scheme after.membership)
    (hfollows : cluster.membership.Follows scheme) : cluster.Shows scheme total (.ok value, after) :=
  ⟨h.surfaces hfollows (by simp [errorOf]) total, by simp⟩

private theorem error {e : ClusterError} (h : cluster.membership.Steady scheme after.membership)
    (hfollows : cluster.membership.Follows scheme) (he : e.failedPartitions = none) :
    cluster.Shows scheme total ((.error e : Except ClusterError α), after) := by
  refine ⟨h.surfaces hfollows ?_ total, ?_⟩
  · rintro _ ⟨⟩
    exact he
  · rintro _ ⟨⟩ failure hfailure
    rw [he] at hfailure
    contradiction

theorem of_steady {outcome : Except ClusterError α × Cluster μ ρ κ σ} {between : Cluster μ ρ κ σ}
    (hsteady : cluster.membership.Steady scheme between.membership) (h : between.Shows scheme total outcome) :
    cluster.Shows scheme total outcome :=
  ⟨hsteady.then_surfaces h.surfaces, h.buried⟩

theorem map {β : Type} {outcome : Except ClusterError α × Cluster μ ρ κ σ} (h : cluster.Shows scheme total outcome)
    (f : α → β) : cluster.Shows scheme total (outcome.1.map f, outcome.2) := by
  obtain ⟨result, after⟩ := outcome
  cases result with
  | ok => exact ⟨h.surfaces, by simp [Except.map]⟩
  | error e =>
    refine ⟨h.surfaces, ?_⟩
    rintro _ ⟨⟩
    exact h.buried e rfl

end Shows

section Uploads

/-- The partitions that take part in an upload: those that have a session in the end, and those that have failed. -/
def takingPart [Fingerprint κ] (cluster : Cluster μ ρ κ σ) (interleaving : Interleaving) (source : Feed κ σ) :
    Nat :=
  match cluster.topology.sharder with
  | none => 0
  | some sharder =>
    let sent := UploadSessions.empty.sendAll cluster.topology sharder cluster.options.uploadQuorum interleaving source
    let failed := cluster.failedAt interleaving sent
    (List.range cluster.topology.scheme.size).countP fun index =>
      sent.2.sent.contains index || failed.contains index

private theorem uploadFailed_shows (hfollows : cluster.membership.Follows scheme)
    (hstarted : started = cluster.topology) {sessions : UploadSessions κ σ} {failed : IndexSet}
    (hwithin : ∀ index, index ∈ failed ∨ index ∈ sessions.sent → index < scheme.size)
    (hsome : ∃ index, index ∈ failed) :
    let given := cluster.uploadFailed started failed (sessions.targeted failed).size
    cluster.Shows scheme ((List.range scheme.size).countP fun index =>
      sessions.sent.contains index || failed.contains index) ((.error given.1 : Except ClusterError Unit), given.2) := by
  intro given
  subst hstarted
  have hscheme : cluster.topology.scheme = scheme := scheme_of_follows hfollows
  let counted := cluster.count fun s => { s with failedUploads := s.failedUploads + 1 }
  have hcounted : counted.membership.Follows scheme := hfollows
  have hsteady := Membership.Steady.recordFailures scheme counted.membership cluster.topology failed
  constructor
  · refine ⟨hsteady.follows hcounted, ?_, hsteady.failedUploads, hsteady.failedDownloads⟩
    rintro _ ⟨⟩ _ ⟨⟩
    rw [← UploadSessions.size_targeted hwithin]
    obtain ⟨index, hindex⟩ := hsome
    refine FailedPartitions.truthful_ofList ?_ ?_ ?_
    · exact Topology.identitiesAt_ne_nil hindex (hscheme ▸ hwithin index (.inl hindex))
    · intro partition hmem
      rw [← hscheme]
      exact Topology.mem_identities_of_mem_identitiesAt hmem
    · exact Nat.le_trans Topology.length_sortedDistinct_identitiesAt_le (UploadSessions.size_le_targeted hwithin)
  · rintro _ ⟨⟩ _ ⟨⟩ partition hmem
    have hfailed : partition ∈ cluster.topology.identitiesAt failed := mem_of_mem_sortedDistinct hmem
    exact Membership.mem_dead_recordFailures.mpr
      (.inr ⟨Topology.mem_identities_of_mem_identitiesAt hfailed, hfailed⟩)

variable [Fingerprint κ]

private theorem uploadUntil_shows (hwell : scheme.WellFormed hash) (hfollows : cluster.membership.Follows scheme)
    (interleaving : Interleaving)
    {finish : SchemeSharder → UploadSessions κ σ → Cluster μ ρ κ σ → Except ClusterError Unit × Cluster μ ρ κ σ}
    {source : Feed κ σ}
    (hfinish : ∀ sharder (sessions : UploadSessions κ σ), sessions.Within scheme.size →
      cluster.countUpload.Shows scheme
        ((List.range scheme.size).countP fun index => sessions.sent.contains index ||
          (cluster.failedAt interleaving (.ended, sessions)).contains index)
        (finish sharder sessions cluster.countUpload)) :
    cluster.Shows scheme (cluster.takingPart interleaving source) (cluster.uploadUntil interleaving finish source) := by
  have hscheme : cluster.topology.scheme = scheme := scheme_of_follows hfollows
  have hcounted : cluster.membership.Steady scheme cluster.countUpload.membership := ⟨id, rfl, rfl⟩
  have hstill : cluster.countUpload.membership.Follows scheme := hfollows
  have hstarted : cluster.countUpload.topology = cluster.topology := rfl
  have hquorum : cluster.countUpload.options = cluster.options := rfl
  refine Shows.of_steady hcounted ?_
  unfold uploadUntil takingPart
  dsimp only
  rw [hstarted, hquorum]
  cases hsharder : cluster.topology.sharder with
  | none =>
    refine Shows.error ?_ hstill rfl
    exact .refl scheme _
  | some sharder =>
    have hbelow : ∀ keyHash, ∀ index ∈ sharder.shard keyHash, index < scheme.size := by
      intro keyHash index hmem
      obtain ⟨alive, htopology⟩ := hfollows
      have hcreate : scheme.createSharder alive.contains = some sharder := by
        rw [topology, htopology] at hsharder
        exact hsharder
      exact PartitionScheme.lt_size_of_mem_shard hwell hcreate hmem
    have hwithin := (UploadSessions.within_empty scheme.size).sendAll cluster.topology hbelow
      cluster.options.uploadQuorum interleaving source
    dsimp only
    rw [hscheme]
    cases hsent : UploadSessions.empty.sendAll cluster.topology sharder cluster.options.uploadQuorum interleaving
      source with
    | mk stop sessions =>
      rw [hsent] at hwithin
      cases stop with
      | sourceFailed cause =>
        refine Shows.error ?_ hstill rfl
        exact .refl scheme _
      | quorumLost =>
        let cancelled := cluster.countUpload.cancelUpload interleaving sessions
        have hcancelled : cancelled.membership.Follows scheme := hfollows
        have hsame : cluster.countUpload.membership.Steady scheme cancelled.membership := .refl scheme _
        apply Shows.of_steady hsame
        apply uploadFailed_shows hcancelled rfl hwithin
        exact SchemeSharder.exists_failed (UploadSessions.unsatisfied_of_quorumLost hsent)
      | ended => exact hfinish sharder sessions hwithin

omit [Fingerprint κ] in
private theorem finishUpload_shows (hfollows : cluster.membership.Follows scheme) (interleaving : Interleaving)
    (sharder : SchemeSharder) {sessions : UploadSessions κ σ} (hwithin : sessions.Within scheme.size) :
    cluster.Shows scheme
      ((List.range scheme.size).countP fun index => sessions.sent.contains index ||
        (cluster.failedAt interleaving (.ended, sessions)).contains index)
      (cluster.finishUpload interleaving sharder sessions) := by
  have hcompleted : ∀ index, index ∈ cluster.failedAt interleaving (.ended, sessions) ∨ index ∈ sessions.sent →
      index < scheme.size := by
    intro index hmem
    apply hwithin
    rcases hmem with hfailed | hsent
    · refine (UploadSessions.mem_of_mem_completeAll hfailed).imp_right fun hkey => ?_
      rwa [Std.TreeMap.map_fst_toList_eq_keys, Std.TreeMap.mem_keys] at hkey
    · exact .inr hsent
  unfold finishUpload
  unfold failedAt at hcompleted ⊢
  dsimp only at hcompleted ⊢
  generalize UploadSessions.completeAll Store.upload cluster.topology.scheme.clientAt? interleaving
    sessions.sent.toList sessions.failed cluster.world = completed at hcompleted
  obtain ⟨failed, world⟩ := completed
  dsimp only at hcompleted ⊢
  split
  next =>
    split
    next =>
      refine Shows.ok ?_ hfollows
      exact .refl scheme _
    next =>
      refine Shows.ok ?_ hfollows
      exact .recordFailures scheme _ _ _
  next hunsatisfied =>
    let left : Cluster μ ρ κ σ := { cluster with world }
    have hleft : left.membership.Follows scheme := hfollows
    have hsame : cluster.membership.Steady scheme left.membership := .refl scheme _
    apply Shows.of_steady hsame
    apply uploadFailed_shows hleft rfl hcompleted
    rw [Bool.not_eq_true] at hunsatisfied
    exact SchemeSharder.exists_failed hunsatisfied

theorem uploadWith_shows (hwell : scheme.WellFormed hash) (hfollows : cluster.membership.Follows scheme)
    (interleaving : Interleaving) (source : Feed κ σ) :
    cluster.Shows scheme (cluster.takingPart interleaving source) (cluster.uploadWith interleaving source) := by
  apply uploadUntil_shows hwell hfollows
  intro sharder sessions hwithin
  have hcounted : cluster.countUpload.membership.Follows scheme := hfollows
  exact finishUpload_shows hcounted interleaving sharder hwithin

theorem uploadDroppedWith_shows (hwell : scheme.WellFormed hash) (hfollows : cluster.membership.Follows scheme)
    (interleaving : Interleaving) (source : Feed κ σ) :
    cluster.Shows scheme (cluster.takingPart interleaving source) (cluster.uploadDroppedWith interleaving source) := by
  apply uploadUntil_shows hwell hfollows
  intro sharder sessions _
  have hcounted : cluster.countUpload.membership.Follows scheme := hfollows
  refine Shows.ok ?_ hcounted
  exact .refl scheme _

end Uploads

section Pings

variable {answers : List (PartitionId × Bool)}

private theorem silent_truthful (hanswers : answers.map Prod.fst = scheme.identities) {quorum : Quorum}
    (h : scheme.isHealthy (.ofList ((silentOf answers).filterMap scheme.indexOf?)) quorum = false) :
    (FailedPartitions.ofList (silentOf answers) scheme.size).Truthful scheme scheme.size := by
  obtain ⟨index, hindex⟩ := PartitionScheme.exists_unhealthy h
  rw [Std.TreeSet.mem_ofList, List.contains_iff_mem] at hindex
  obtain ⟨partition, hsilent, -⟩ := List.mem_filterMap.mp hindex
  apply FailedPartitions.truthful_ofList_size
  · exact List.ne_nil_of_mem hsilent
  · intro other hmem
    exact hanswers ▸ silentOf_sublist.subset hmem

private theorem silent_dead (hnodup : scheme.identities.Nodup) (hanswers : answers.map Prod.fst = scheme.identities)
    {partition : PartitionId} (h : partition ∈ silentOf answers) :
    partition ∈ (Topology.ofAlive scheme (answeredOf answers)).dead := by
  have hmem : partition ∈ answers.map Prod.fst := silentOf_sublist.subset h
  have hnot := (mem_silentOf_iff (hanswers ▸ hnodup) hmem).mp h
  have hscheme : partition ∈ scheme.identities := hanswers ▸ hmem
  simp [Topology.dead, Topology.ofAlive, hscheme, hnot]

theorem ping_shows (hwell : scheme.WellFormed hash) (hfollows : cluster.membership.Follows scheme) :
    cluster.Shows scheme scheme.size cluster.ping := by
  have hscheme : cluster.topology.scheme = scheme := scheme_of_follows hfollows
  obtain ⟨alive, htopology⟩ := hfollows
  obtain ⟨answers, world, hpings, hall⟩ := exists_pings scheme scheme.partitions cluster.world
  have hanswers : answers.map Prod.fst = scheme.identities := hpings.map_fst
  obtain ⟨hanswer, -, hmembership⟩ := ping_eq (hscheme ▸ hall)
  have hprobed : cluster.ping.2.topology = .ofAlive scheme (answeredOf answers) := by
    rw [topology, hmembership]
    exact Membership.topology_probed hwell.nodup_identities hanswers htopology
  have hsteady : cluster.membership.Steady scheme cluster.ping.2.membership := by
    rw [hmembership]
    refine .trans ?_ (.trans (.markAlive scheme _ _) (.markDead scheme _ _))
    exact ⟨id, rfl, rfl⟩
  rw [hscheme] at hanswer
  constructor
  · refine ⟨⟨_, hprobed⟩, ?_, ?_, ?_⟩
    · intro e he failure hfailure
      rw [hanswer] at he
      split at he
      next => contradiction
      next hunhealthy =>
        cases he
        cases hfailure
        rw [Bool.not_eq_true] at hunhealthy
        exact silent_truthful hanswers hunhealthy
    · rw [hsteady.failedUploads, hanswer]
      split <;> rfl
    · rw [hsteady.failedDownloads, hanswer]
      split <;> rfl
  · intro e he failure hfailure partition hmem
    rw [hanswer] at he
    split at he
    next => contradiction
    next =>
      cases he
      cases hfailure
      rw [hprobed]
      exact silent_dead hwell.nodup_identities hanswers (mem_of_mem_sortedDistinct hmem)

end Pings

end Cluster

end ReplicatedStore
