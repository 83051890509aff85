import ReplicatedStore.Proofs.Cluster.Failures
import ReplicatedStore.Proofs.Cluster.Takes
/-!
# Failures of reads

A read fails when it is opened or when it is polled, for the partitions that it does without. These are dead when
it is opened, and the ones that fail later are recorded then. A commit that fails records nothing.
-/

namespace ReplicatedStore.Cluster

variable {μ ρ κ σ ω : Type} {hash : PartitionId → UInt32} {scheme : PartitionScheme (Store μ ρ κ σ)}
  {cluster : Cluster μ ρ κ σ} {started : Topology (Store μ ρ κ σ)} {kind : ReadKind} {unhealthy : IndexSet}
  {order : List Nat → List Nat}

theorem topology_countFailedRead (kind : ReadKind) (cluster : Cluster μ ρ κ σ) :
    (cluster.countFailedRead kind).topology = cluster.topology := by
  cases kind <;> rfl

private theorem failedPartitions_readFailed (kind : ReadKind) (started : Topology (Store μ ρ κ σ))
    (unhealthy : IndexSet) : (readFailed kind started unhealthy).failedPartitions =
      some (.ofList (started.identitiesAt unhealthy) started.scheme.size) := by
  cases kind <;> rfl

private theorem readFailed_buried {topology : Topology (Store μ ρ κ σ)} (kind : ReadKind)
    (hdead : ∀ partition ∈ started.identitiesAt unhealthy, partition ∈ topology.dead) :
    (readFailed kind started unhealthy).Buried topology := by
  intro failure hfailure partition hmem
  rw [failedPartitions_readFailed] at hfailure
  cases hfailure
  exact hdead partition (mem_of_mem_sortedDistinct hmem)

private theorem failedRead_surfaces (hwell : scheme.WellFormed hash) (hfollows : cluster.membership.Follows scheme)
    (hstarted : started.scheme = scheme) (hbelow : ∀ index ∈ unhealthy, index < scheme.size)
    (hinvalid : cluster.isValidWithout started unhealthy = false) (kind : ReadKind) :
    cluster.membership.Surfaces scheme (some (readFailed kind started unhealthy)) scheme.size
      (cluster.countFailedRead kind).membership := by
  subst hstarted
  constructor
  case follows =>
    cases kind with
    | download => exact hfollows
    | take => exact hfollows
  case truthful =>
    rintro _ ⟨⟩ failure hfailure
    rw [failedPartitions_readFailed] at hfailure
    cases hfailure
    obtain ⟨index, hindex⟩ := PartitionScheme.exists_unhealthy_of_read hwell hinvalid
    apply FailedPartitions.truthful_ofList_size
    · exact Topology.identitiesAt_ne_nil hindex (hbelow index hindex)
    · intro partition hmem
      exact Topology.mem_identities_of_mem_identitiesAt hmem
  case failedUploads => cases kind <;> rfl
  case failedDownloads => cases kind <;> rfl

section Opening

variable {request : Store μ ρ κ σ → μ → Except StoreError (Feed κ σ × ω) × μ}
  {giveUp : PartitionScheme (Store μ ρ κ σ) → List (Nat × ω) → μ → μ}

private theorem lt_size_of_asked (horder : ∀ indices, (order indices).Perm indices) {index : Nat}
    (h : index ∈ order cluster.topology.aliveIndices) : index < cluster.topology.scheme.size :=
  List.mem_range.mp (List.mem_of_mem_filter ((horder _).mem_iff.mp h))

private theorem lt_size_of_missing (horder : ∀ indices, (order indices).Perm indices) {index : Nat}
    (h : index ∈ missing cluster.topology (cluster.opening request order).1) :
    index < cluster.topology.scheme.size := by
  rcases IndexSet.mem_insertAll.mp h with hfailed | hdead
  · have hopening := openPartitions_opening request cluster.topology.scheme
      (order cluster.topology.aliveIndices) cluster.world
    exact lt_size_of_asked horder (hopening.mem_of_mem_failed (Std.TreeSet.mem_toList.mp hfailed))
  · exact Topology.lt_size_of_mem_deadIndices hdead

private theorem lt_size_of_source (horder : ∀ indices, (order indices).Perm indices) {index : Nat}
    (h : index ∈ (cluster.opening request order).1.sources.map Prod.fst) :
    index < cluster.topology.scheme.size := by
  have hopening := openPartitions_opening request cluster.topology.scheme
    (order cluster.topology.aliveIndices) cluster.world
  exact lt_size_of_asked horder (hopening.positions.subset h)

private theorem dead_of_missing :
    ∀ partition ∈ cluster.topology.identitiesAt (missing cluster.topology (cluster.opening request order).1),
      partition ∈ (cluster.afterOpening request order).topology.dead := by
  have hdead : ∀ partition ∈ cluster.topology.identitiesAt cluster.topology.deadIndices,
      partition ∈ cluster.membership.topology.dead :=
    fun _ hmem => Topology.mem_dead_of_mem_deadIndices hmem
  apply Topology.dead_recordFailures rfl hdead
  intro index hmem
  exact (IndexSet.mem_insertAll.mp hmem).imp_left Std.TreeSet.mem_toList.mp

private theorem afterOpening_steady (cluster : Cluster μ ρ κ σ) :
    cluster.membership.Steady scheme (cluster.afterOpening request order).membership :=
  .recordFailures scheme _ _ _

theorem openRead_shows (hwell : scheme.WellFormed hash) (hfollows : cluster.membership.Follows scheme)
    (horder : ∀ indices, (order indices).Perm indices) (kind : ReadKind)
    (request : Store μ ρ κ σ → μ → Except StoreError (Feed κ σ × ω) × μ)
    (giveUp : PartitionScheme (Store μ ρ κ σ) → List (Nat × ω) → μ → μ) :
    cluster.Shows scheme scheme.size (openRead order kind request giveUp cluster) := by
  have hscheme : cluster.topology.scheme = scheme := scheme_of_follows hfollows
  have houtcome := openRead_outcome order kind request giveUp cluster
  generalize openRead order kind request giveUp cluster = outcome at houtcome
  cases houtcome with
  | dead hinvalid =>
    constructor
    · apply failedRead_surfaces hwell hfollows hscheme _ hinvalid
      intro index hmem
      exact hscheme ▸ Topology.lt_size_of_mem_deadIndices hmem
    · rintro _ ⟨⟩
      apply readFailed_buried
      intro partition hmem
      rw [topology_countFailedRead]
      exact Topology.mem_dead_of_mem_deadIndices hmem
  | @refused world hinvalid =>
    let left : Cluster μ ρ κ σ := { cluster.afterOpening request order with world }
    have hleft : cluster.membership.Steady scheme left.membership := afterOpening_steady cluster
    constructor
    · apply hleft.then_surfaces
      apply failedRead_surfaces hwell (hleft.follows hfollows) hscheme _ hinvalid
      intro index hmem
      exact hscheme ▸ lt_size_of_missing horder hmem
    · rintro _ ⟨⟩
      apply readFailed_buried
      intro partition hmem
      rw [topology_countFailedRead]
      exact dead_of_missing partition hmem
  | opened =>
    refine Shows.ok ?_ hfollows
    exact afterOpening_steady cluster

theorem downloadIn_shows (hwell : scheme.WellFormed hash) (hfollows : cluster.membership.Follows scheme)
    (horder : ∀ indices, (order indices).Perm indices) (horizon : UInt64) :
    cluster.Shows scheme scheme.size (cluster.downloadIn order horizon) := by
  let counted := cluster.count fun s => { s with downloads := s.downloads + 1 }
  have hcounted : cluster.membership.Steady scheme counted.membership := ⟨id, rfl, rfl⟩
  have hstill : counted.membership.Follows scheme := hfollows
  have hopen := openRead_shows hwell hstill horder .download (requestDownload horizon) fun _ _ world => world
  exact Shows.of_steady hcounted (hopen.map Prod.fst)

theorem takeIn_shows (hwell : scheme.WellFormed hash) (hfollows : cluster.membership.Follows scheme)
    (horder : ∀ indices, (order indices).Perm indices) :
    cluster.Shows scheme scheme.size (cluster.takeIn order) := by
  let counted := cluster.count fun s => { s with takes := s.takes + 1 }
  have hcounted : cluster.membership.Steady scheme counted.membership := ⟨id, rfl, rfl⟩
  have hstill : counted.membership.Follows scheme := hfollows
  exact Shows.of_steady hcounted (openRead_shows hwell hstill horder .take Store.take releaseAll)

end Opening

structure ReadWithin (scheme : PartitionScheme (Store μ ρ κ σ)) (read : ClusterRead μ ρ κ σ)
    (receipts : ClusterReceipt ρ) : Prop where
  started : read.started.scheme = scheme
  unhealthy : ∀ index ∈ read.merge.unhealthy, index < scheme.size
  sources : ∀ index ∈ read.merge.sources.map MergeSource.index, index < scheme.size
  receipts : ∀ index ∈ receipts.map Prod.fst, index < scheme.size

def WithoutDead (read : ClusterRead μ ρ κ σ) (cluster : Cluster μ ρ κ σ) : Prop :=
  ∀ partition ∈ read.started.identitiesAt read.merge.unhealthy, partition ∈ cluster.topology.dead

section Opened

variable {read : ClusterRead μ ρ κ σ} {receipts : ClusterReceipt ρ} {after : Cluster μ ρ κ σ}

private theorem openRead_opened {request : Store μ ρ κ σ → μ → Except StoreError (Feed κ σ × ω) × μ}
    {giveUp : PartitionScheme (Store μ ρ κ σ) → List (Nat × ω) → μ → μ} {opened : List (Nat × ω)}
    (horder : ∀ indices, (order indices).Perm indices)
    (h : openRead order kind request giveUp cluster = (.ok (read, opened), after)) :
    ReadWithin cluster.topology.scheme read ([] : ClusterReceipt ρ) ∧
      (∀ index ∈ opened.map Prod.fst, index < cluster.topology.scheme.size) ∧ WithoutDead read after := by
  have houtcome := openRead_outcome order kind request giveUp cluster
  rw [h] at houtcome
  cases houtcome with
  | opened =>
    refine ⟨⟨rfl, fun _ hmem => lt_size_of_missing horder hmem, ?sources, by simp⟩, ?receipts, dead_of_missing⟩
    case sources =>
      intro index hmem
      rw [Merge.ofFeeds, List.map_map] at hmem
      obtain ⟨⟨position, feed⟩, hsource, rfl⟩ := List.mem_map.mp hmem
      obtain ⟨receipt, hopened⟩ := mem_feedsOf.mp hsource
      exact lt_size_of_source horder (List.mem_map_of_mem hopened)
    case receipts =>
      intro index hmem
      simp only [receiptsOf, byPosition, List.map_map, List.mem_map, List.mem_mergeSort] at hmem
      obtain ⟨source, hsource, rfl⟩ := hmem
      exact lt_size_of_source horder (List.mem_map_of_mem hsource)

theorem downloadIn_opened (hfollows : cluster.membership.Follows scheme)
    (horder : ∀ indices, (order indices).Perm indices) {horizon : UInt64}
    (h : cluster.downloadIn order horizon = (.ok read, after)) :
    ReadWithin scheme read ([] : ClusterReceipt ρ) ∧ WithoutDead read after := by
  let counted := cluster.count fun s => { s with downloads := s.downloads + 1 }
  obtain rfl : counted.topology.scheme = scheme := scheme_of_follows hfollows
  unfold downloadIn at h
  rcases hopen : openRead order .download (requestDownload horizon) (fun _ _ world => world) counted with
    ⟨_ | ⟨opened, receipts⟩, left⟩
  · rw [hopen] at h
    cases h
  · rw [hopen] at h
    cases h
    obtain ⟨hwithin, -, hdead⟩ := openRead_opened horder hopen
    exact ⟨hwithin, hdead⟩

theorem takeIn_opened (hfollows : cluster.membership.Follows scheme)
    (horder : ∀ indices, (order indices).Perm indices)
    (h : cluster.takeIn order = (.ok (read, receipts), after)) :
    ReadWithin scheme read receipts ∧ WithoutDead read after := by
  let counted := cluster.count fun s => { s with takes := s.takes + 1 }
  obtain rfl : counted.topology.scheme = scheme := scheme_of_follows hfollows
  obtain ⟨hwithin, hreceipts, hdead⟩ := openRead_opened horder h
  exact ⟨⟨hwithin.started, hwithin.unhealthy, hwithin.sources, hreceipts⟩, hdead⟩

end Opened

section Polls

variable [Ord κ] {read : ClusterRead μ ρ κ σ} {receipts : ClusterReceipt ρ}

inductive PollOutcome (read : ClusterRead μ ρ κ σ) (cluster : Cluster μ ρ κ σ) :
    Option (Except ClusterError (Entry κ σ)) × ClusterRead μ ρ κ σ × Cluster μ ρ κ σ → Prop
  | goes {item : Option (Except ClusterError (Entry κ σ))} {step : MergeStep κ σ} {failures : IndexSet}
    {merge : Merge κ σ}
    (hrecorded : read.merge.Recorded (cluster.isValidWithout read.started) step failures merge)
    (hitem : item.bind errorOf = none) :
    PollOutcome read cluster
      (item, { read with merge }, (cluster.recordFailures read.started failures).2)
  | lost {step : MergeStep κ σ} {failures : IndexSet} {merge : Merge κ σ}
    (hrecorded : read.merge.Recorded (cluster.isValidWithout read.started) step failures merge)
    (hinvalid : cluster.isValidWithout read.started merge.unhealthy = false) :
    PollOutcome read cluster
      (some (.error (readFailed read.kind read.started merge.unhealthy)), { read with merge },
        (cluster.recordFailures read.started failures).2.countFailedRead read.kind)

theorem next_outcome (read : ClusterRead μ ρ κ σ) (cluster : Cluster μ ρ κ σ) :
    PollOutcome read cluster (next read cluster) := by
  have hrecorded := Merge.next_recorded cluster.function (cluster.isValidWithout read.started)
    (interruptionAt read.started cluster.world) read.merge
  unfold next
  generalize read.merge.next cluster.function (cluster.isValidWithout read.started)
    (interruptionAt read.started cluster.world) = result at hrecorded
  obtain ⟨step, failures, merge⟩ := result
  cases step with
  | entry => exact .goes hrecorded rfl
  | ended => exact .goes hrecorded rfl
  | invalid => exact .lost hrecorded (hrecorded.invalid rfl)

omit [Ord κ] in
private theorem ReadWithin.recorded (h : ReadWithin scheme read receipts) {valid : IndexSet → Bool}
    {step : MergeStep κ σ} {failures : IndexSet} {merge : Merge κ σ}
    (hrecorded : read.merge.Recorded valid step failures merge) :
    ReadWithin scheme { read with merge } receipts := by
  refine ⟨h.started, ?_, ?_, h.receipts⟩
  · intro index hmem
    rcases (hrecorded.unhealthy index).mp hmem with hfailed | hbefore
    · exact h.sources index (hrecorded.asked index hfailed)
    · exact h.unhealthy index hbefore
  · intro index hmem
    rw [hrecorded.sources] at hmem
    exact h.sources index hmem

theorem ReadWithin.next (h : ReadWithin scheme read receipts) (cluster : Cluster μ ρ κ σ) :
    ReadWithin scheme (next read cluster).2.1 receipts := by
  have houtcome := next_outcome read cluster
  generalize Cluster.next read cluster = outcome at houtcome
  cases houtcome with
  | goes hrecorded => exact h.recorded hrecorded
  | lost hrecorded => exact h.recorded hrecorded

theorem next_surfaces (hwell : scheme.WellFormed hash) (hfollows : cluster.membership.Follows scheme)
    (h : ReadWithin scheme read receipts) :
    cluster.membership.Surfaces scheme ((next read cluster).1.bind errorOf) scheme.size
      (next read cluster).2.2.membership := by
  have houtcome := next_outcome read cluster
  generalize next read cluster = outcome at houtcome
  cases houtcome with
  | @goes item step failures merge hrecorded hitem =>
    rw [hitem]
    exact Membership.Steady.surfaces (.recordFailures scheme _ _ _) hfollows (by simp) _
  | @lost step failures merge hrecorded hinvalid =>
    have hsteady := Membership.Steady.recordFailures scheme cluster.membership read.started failures
    let left := (cluster.recordFailures read.started failures).2
    have hleft : left.membership.Follows scheme := hsteady.follows hfollows
    have hwithin := h.recorded hrecorded
    apply hsteady.then_surfaces
    exact failedRead_surfaces hwell hleft h.started hwithin.unhealthy hinvalid read.kind

theorem WithoutDead.next (h : WithoutDead read cluster) (hfollows : cluster.membership.Follows scheme)
    (hstarted : read.started.scheme = scheme) :
    WithoutDead (Cluster.next read cluster).2.1 (Cluster.next read cluster).2.2 ∧
      ∀ e, (Cluster.next read cluster).1 = some (.error e) → e.Buried (Cluster.next read cluster).2.2.topology := by
  have hscheme : read.started.scheme = cluster.membership.topology.scheme :=
    hstarted.trans (scheme_of_follows hfollows).symm
  have houtcome := next_outcome read cluster
  generalize Cluster.next read cluster = outcome at houtcome
  cases houtcome with
  | @goes item step failures merge hrecorded hitem =>
    have hdead := Topology.dead_recordFailures hscheme h fun index hmem => (hrecorded.unhealthy index).mp hmem
    refine ⟨hdead, ?_⟩
    rintro e rfl
    contradiction
  | @lost step failures merge hrecorded hinvalid =>
    have hdead := Topology.dead_recordFailures hscheme h fun index hmem => (hrecorded.unhealthy index).mp hmem
    rw [WithoutDead, topology_countFailedRead]
    refine ⟨hdead, ?_⟩
    rintro _ ⟨⟩
    exact readFailed_buried read.kind hdead

end Polls

section Commits

variable {read : ClusterRead μ ρ κ σ} {receipts : ClusterReceipt ρ}

private theorem commitAll_sublist (scheme : PartitionScheme (Store μ ρ κ σ)) (receipts : ClusterReceipt ρ)
    (world : μ) : (commitAll scheme receipts world).1.Sublist (receipts.map Prod.fst) := by
  induction receipts generalizing world with
  | nil => exact .slnil
  | cons item rest ih =>
    obtain ⟨index, receipt⟩ := item
    unfold commitAll
    cases hclient : scheme.clientAt? index with
    | none => exact (ih world).cons_cons index
    | some store =>
      dsimp only
      split
      next => exact (ih _).cons index
      next => exact (ih _).cons_cons index

/-- A commit that fails names partitions whose takes it was to commit. It records nothing. -/
theorem commit_surfaces (hfollows : cluster.membership.Follows scheme) (h : ReadWithin scheme read receipts) :
    cluster.membership.Surfaces scheme (errorOf (cluster.commit receipts read).1) (committed receipts read).length
        (cluster.commit receipts read).2.membership ∧
      (cluster.commit receipts read).2.membership = cluster.membership := by
  have hcommit : ∃ failed : List Nat, failed.Sublist ((committed receipts read).map Prod.fst) ∧
      (cluster.commit receipts read).1 = if failed.isEmpty then .ok (committed receipts read).length
        else .error (.takeFailed (.ofList (read.started.identitiesAt (.ofList failed))
          (committed receipts read).length)) := by
    refine ⟨_, commitAll_sublist read.started.scheme (committed receipts read)
      (releaseAll read.started.scheme (givenUp receipts read) cluster.world), ?_⟩
    unfold commit
    rw [List.partition_eq_filter_filter]
    rfl
  obtain ⟨failed, hsub, hanswer⟩ := hcommit
  refine ⟨?_, rfl⟩
  rw [hanswer]
  split
  next => exact Membership.Steady.surfaces (.refl scheme _) hfollows (by simp [errorOf]) _
  next hfailed =>
    refine ⟨hfollows, ?_, rfl, rfl⟩
    rintro _ ⟨⟩ _ ⟨⟩
    obtain ⟨index, hindex⟩ := List.exists_mem_of_ne_nil failed (by simpa using hfailed)
    have hbelow : index < read.started.scheme.size := by
      rw [h.started]
      apply h.receipts
      exact (List.filter_sublist.map Prod.fst).subset (hsub.subset hindex)
    have hset : index ∈ (Std.TreeSet.ofList failed : IndexSet) :=
      Std.TreeSet.mem_ofList.mpr (List.contains_iff_mem.mpr hindex)
    refine FailedPartitions.truthful_ofList ?_ ?_ ?_
    · exact Topology.identitiesAt_ne_nil hset hbelow
    · intro partition hmem
      rw [← h.started]
      exact Topology.mem_identities_of_mem_identitiesAt hmem
    · calc
        _ ≤ (Std.TreeSet.ofList failed : IndexSet).size := Topology.length_sortedDistinct_identitiesAt_le
        _ ≤ failed.length := Std.TreeSet.size_ofList_le
        _ ≤ ((committed receipts read).map Prod.fst).length := hsub.length_le
        _ = (committed receipts read).length := List.length_map _

end Commits

end ReplicatedStore.Cluster
