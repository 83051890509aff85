import ReplicatedStore.Proofs.Cluster.ReadFailures
/-!
# The account a cluster keeps of its failures

In a run of operations on one scheme each aggregate failure that is shown is truthful, and the failed uploads and
downloads are counted as often as they are shown. An operation that runs alone leaves the partitions dead that
its failure names.
-/

namespace ReplicatedStore.Cluster

variable {μ ρ κ σ : Type} [Ord κ]

/-- A read that may be open on clusters that follow a scheme: it was opened on one of them and polled some times,
whatever else was done to the cluster. A download has no receipts. -/
inductive OpenRead (scheme : PartitionScheme (Store μ ρ κ σ)) :
    ClusterRead μ ρ κ σ → ClusterReceipt ρ → Prop
  | download {cluster after : Cluster μ ρ κ σ} {order : List Nat → List Nat} {horizon : UInt64}
    {read : ClusterRead μ ρ κ σ} (hfollows : cluster.membership.Follows scheme)
    (horder : ∀ indices, (order indices).Perm indices)
    (h : cluster.downloadIn order horizon = (.ok read, after)) : OpenRead scheme read []
  | take {cluster after : Cluster μ ρ κ σ} {order : List Nat → List Nat} {read : ClusterRead μ ρ κ σ}
    {receipts : ClusterReceipt ρ} (hfollows : cluster.membership.Follows scheme)
    (horder : ∀ indices, (order indices).Perm indices)
    (h : cluster.takeIn order = (.ok (read, receipts), after)) : OpenRead scheme read receipts
  | polled {read : ClusterRead μ ρ κ σ} {receipts : ClusterReceipt ρ} (h : OpenRead scheme read receipts)
    (cluster : Cluster μ ρ κ σ) : OpenRead scheme (next read cluster).2.1 receipts

variable {scheme : PartitionScheme (Store μ ρ κ σ)} {hash : PartitionId → UInt32}
  {read : ClusterRead μ ρ κ σ} {receipts : ClusterReceipt ρ} {start cluster now after : Cluster μ ρ κ σ}

theorem OpenRead.within (h : OpenRead scheme read receipts) : ReadWithin scheme read receipts := by
  induction h with
  | download hfollows horder h => exact (downloadIn_opened hfollows horder h).1
  | take hfollows horder h => exact (takeIn_opened hfollows horder h).1
  | polled _ cluster ih => exact ih.next cluster

variable [Fingerprint κ]

/-- What can be done to a cluster, with the error that it shows, if any, and the number of partitions that take
part: in an upload those with a session and those that failed, in a commit those whose takes are committed, and
otherwise all of the scheme. What happens `beside` the cluster changes the world in any way. -/
inductive Operation (scheme : PartitionScheme (Store μ ρ κ σ)) (cluster : Cluster μ ρ κ σ) :
    Option ClusterError → Nat → Cluster μ ρ κ σ → Prop
  | upload (interleaving : Interleaving) (source : Feed κ σ) :
    Operation scheme cluster (errorOf (cluster.uploadWith interleaving source).1)
      (cluster.takingPart interleaving source) (cluster.uploadWith interleaving source).2
  | dropped (interleaving : Interleaving) (source : Feed κ σ) :
    Operation scheme cluster (errorOf (cluster.uploadDroppedWith interleaving source).1)
      (cluster.takingPart interleaving source) (cluster.uploadDroppedWith interleaving source).2
  | download {order : List Nat → List Nat} (horder : ∀ indices, (order indices).Perm indices) (horizon : UInt64) :
    Operation scheme cluster (errorOf (cluster.downloadIn order horizon).1) scheme.size
      (cluster.downloadIn order horizon).2
  | take {order : List Nat → List Nat} (horder : ∀ indices, (order indices).Perm indices) :
    Operation scheme cluster (errorOf (cluster.takeIn order).1) scheme.size (cluster.takeIn order).2
  | poll {read : ClusterRead μ ρ κ σ} {receipts : ClusterReceipt ρ} (h : OpenRead scheme read receipts) :
    Operation scheme cluster ((next read cluster).1.bind errorOf) scheme.size (next read cluster).2.2
  | commit {read : ClusterRead μ ρ κ σ} {receipts : ClusterReceipt ρ} (h : OpenRead scheme read receipts) :
    Operation scheme cluster (errorOf (cluster.commit receipts read).1) (committed receipts read).length
      (cluster.commit receipts read).2
  | release (read : ClusterRead μ ρ κ σ) (receipts : ClusterReceipt ρ) :
    Operation scheme cluster none 0 (cluster.release receipts read)
  | ping : Operation scheme cluster (errorOf cluster.ping.1) scheme.size cluster.ping.2
  | probe : Operation scheme cluster none 0 cluster.probe.2
  | revive : Operation scheme cluster none 0 cluster.reviveDead.2
  | beside (world : μ) : Operation scheme cluster none 0 { cluster with world }

omit [Ord κ] [Fingerprint κ] in
private theorem probe_steady (cluster : Cluster μ ρ κ σ) :
    cluster.membership.Steady scheme cluster.probe.2.membership := by
  unfold probe
  generalize pingAll cluster.topology.scheme cluster.topology.scheme.partitions cluster.world = result
  obtain ⟨⟨answered, silent⟩, world⟩ := result
  exact .trans (.countFailures scheme _ _) (.trans (.markAlive scheme _ _) (.markDead scheme _ _))

theorem Operation.surfaces (hwell : scheme.WellFormed hash) (hfollows : cluster.membership.Follows scheme)
    {error : Option ClusterError} {total : Nat} (h : Operation scheme cluster error total after) :
    cluster.membership.Surfaces scheme error total after.membership := by
  cases h with
  | upload interleaving source => exact (uploadWith_shows hwell hfollows interleaving source).surfaces
  | dropped interleaving source => exact (uploadDroppedWith_shows hwell hfollows interleaving source).surfaces
  | download horder horizon => exact (downloadIn_shows hwell hfollows horder horizon).surfaces
  | take horder => exact (takeIn_shows hwell hfollows horder).surfaces
  | poll hread => exact next_surfaces hwell hfollows hread.within
  | commit hread => exact (commit_surfaces hfollows hread.within).1
  | release => exact Membership.Steady.surfaces (.refl scheme _) hfollows (by simp) 0
  | ping => exact (ping_shows hwell hfollows).surfaces
  | probe => exact (probe_steady cluster).surfaces hfollows (by simp) 0
  | revive => exact Membership.Steady.surfaces (.markAlive scheme _ _) hfollows (by simp) 0
  | beside => exact Membership.Steady.surfaces (.refl scheme _) hfollows (by simp) 0

inductive Ran (scheme : PartitionScheme (Store μ ρ κ σ)) (start : Cluster μ ρ κ σ) :
    List (ClusterError × Nat) → Cluster μ ρ κ σ → Prop
  | start : Ran scheme start [] start
  | step {shown : List (ClusterError × Nat)} {cluster after : Cluster μ ρ κ σ} {error : Option ClusterError}
    {total : Nat} (h : Ran scheme start shown cluster) (hoperation : Operation scheme cluster error total after) :
    Ran scheme start (shown ++ error.toList.map fun e => (e, total)) after

/-- What a cluster accounts for after it has shown some errors since its start. -/
structure Account (scheme : PartitionScheme (Store μ ρ κ σ)) (start : Cluster μ ρ κ σ)
    (shown : List (ClusterError × Nat)) (cluster : Cluster μ ρ κ σ) : Prop where
  follows : cluster.membership.Follows scheme
  truthful : ∀ e total, (e, total) ∈ shown → ∀ failure, e.failedPartitions = some failure →
    failure.Truthful scheme total
  failedUploads : cluster.membership.statistics.failedUploads =
    start.membership.statistics.failedUploads + shown.countP fun item => item.1.isUploadFailed
  failedDownloads : cluster.membership.statistics.failedDownloads =
    start.membership.statistics.failedDownloads + shown.countP fun item => item.1.isDownloadFailed

theorem Ran.account (hwell : scheme.WellFormed hash) (hfollows : start.membership.Follows scheme)
    {shown : List (ClusterError × Nat)} (h : Ran scheme start shown cluster) :
    Account scheme start shown cluster := by
  induction h with
  | start => exact ⟨hfollows, by simp, rfl, rfl⟩
  | @step shown cluster after error total _ hoperation ih =>
    have hsurfaces := hoperation.surfaces hwell ih.follows
    refine ⟨hsurfaces.follows, ?_, ?_, ?_⟩
    · intro e count hmem failure hfailure
      rcases List.mem_append.mp hmem with hbefore | hlast
      · exact ih.truthful e count hbefore failure hfailure
      · obtain ⟨_, herror, heq⟩ := List.mem_map.mp hlast
        cases heq
        exact hsurfaces.truthful e (Option.mem_toList.mp herror) failure hfailure
    · rw [hsurfaces.failedUploads, ih.failedUploads, List.countP_append, List.countP_map, Nat.add_assoc]
      rfl
    · rw [hsurfaces.failedDownloads, ih.failedDownloads, List.countP_append, List.countP_map, Nat.add_assoc]
      rfl

/-- A read that was opened on a cluster, beside which no other operation has run since. -/
inductive Undisturbed (cluster : Cluster μ ρ κ σ) :
    ClusterRead μ ρ κ σ → ClusterReceipt ρ → Cluster μ ρ κ σ → Prop
  | download {order : List Nat → List Nat} {horizon : UInt64} {read : ClusterRead μ ρ κ σ}
    {after : Cluster μ ρ κ σ} (horder : ∀ indices, (order indices).Perm indices)
    (h : cluster.downloadIn order horizon = (.ok read, after)) : Undisturbed cluster read [] after
  | take {order : List Nat → List Nat} {read : ClusterRead μ ρ κ σ} {receipts : ClusterReceipt ρ}
    {after : Cluster μ ρ κ σ} (horder : ∀ indices, (order indices).Perm indices)
    (h : cluster.takeIn order = (.ok (read, receipts), after)) : Undisturbed cluster read receipts after
  | polled {read : ClusterRead μ ρ κ σ} {receipts : ClusterReceipt ρ} {now : Cluster μ ρ κ σ}
    (h : Undisturbed cluster read receipts now) :
    Undisturbed cluster (next read now).2.1 receipts (next read now).2.2
  | beside {read : ClusterRead μ ρ κ σ} {receipts : ClusterReceipt ρ} {now : Cluster μ ρ κ σ}
    (h : Undisturbed cluster read receipts now) (world : μ) : Undisturbed cluster read receipts { now with world }

/-- An operation that started on a cluster shows an error, and no other operation has run since. -/
inductive FailsAlone (cluster : Cluster μ ρ κ σ) : ClusterError → Cluster μ ρ κ σ → Prop
  | upload {interleaving : Interleaving} {source : Feed κ σ} {e : ClusterError} {after : Cluster μ ρ κ σ}
    (h : cluster.uploadWith interleaving source = (.error e, after)) : FailsAlone cluster e after
  | dropped {interleaving : Interleaving} {source : Feed κ σ} {e : ClusterError} {after : Cluster μ ρ κ σ}
    (h : cluster.uploadDroppedWith interleaving source = (.error e, after)) : FailsAlone cluster e after
  | download {order : List Nat → List Nat} {horizon : UInt64} {e : ClusterError} {after : Cluster μ ρ κ σ}
    (horder : ∀ indices, (order indices).Perm indices)
    (h : cluster.downloadIn order horizon = (.error e, after)) : FailsAlone cluster e after
  | take {order : List Nat → List Nat} {e : ClusterError} {after : Cluster μ ρ κ σ}
    (horder : ∀ indices, (order indices).Perm indices)
    (h : cluster.takeIn order = (.error e, after)) : FailsAlone cluster e after
  | poll {read later : ClusterRead μ ρ κ σ} {receipts : ClusterReceipt ρ} {e : ClusterError}
    {now after : Cluster μ ρ κ σ} (hread : Undisturbed cluster read receipts now)
    (h : next read now = (some (.error e), later, after)) : FailsAlone cluster e after
  | ping {e : ClusterError} {after : Cluster μ ρ κ σ} (h : cluster.ping = (.error e, after)) :
    FailsAlone cluster e after

omit [Fingerprint κ] in
theorem Undisturbed.openRead (hfollows : cluster.membership.Follows scheme)
    (h : Undisturbed cluster read receipts now) : OpenRead scheme read receipts := by
  induction h with
  | download horder h => exact .download hfollows horder h
  | take horder h => exact .take hfollows horder h
  | @polled read receipts now _ ih => exact ih.polled now
  | beside _ _ ih => exact ih

theorem Undisturbed.ran (hfollows : cluster.membership.Follows scheme) {shown : List (ClusterError × Nat)}
    (hran : Ran scheme start shown cluster) (h : Undisturbed cluster read receipts now) :
    ∃ later, shown <+: later ∧ Ran scheme start later now := by
  induction h with
  | @download order horizon read after horder h =>
    have hstep := hran.step (.download horder horizon)
    rw [h] at hstep
    exact ⟨_, List.prefix_append .., hstep⟩
  | @take order read receipts after horder h =>
    have hstep := hran.step (.take horder)
    rw [h] at hstep
    exact ⟨_, List.prefix_append .., hstep⟩
  | polled hread ih =>
    obtain ⟨later, hprefix, hlater⟩ := ih
    exact ⟨_, hprefix.trans (List.prefix_append ..), hlater.step (.poll (hread.openRead hfollows))⟩
  | beside _ world ih =>
    obtain ⟨later, hprefix, hlater⟩ := ih
    exact ⟨_, hprefix.trans (List.prefix_append ..), hlater.step (.beside world)⟩

omit [Fingerprint κ] in
theorem Undisturbed.withoutDead (hwell : scheme.WellFormed hash) (hfollows : cluster.membership.Follows scheme)
    (h : Undisturbed cluster read receipts now) : now.membership.Follows scheme ∧ WithoutDead read now := by
  induction h with
  | @download order horizon read after horder h =>
    have hsurfaces := (downloadIn_shows hwell hfollows horder horizon).surfaces
    rw [h] at hsurfaces
    exact ⟨hsurfaces.follows, (downloadIn_opened hfollows horder h).2⟩
  | @take order read receipts after horder h =>
    have hsurfaces := (takeIn_shows hwell hfollows horder).surfaces
    rw [h] at hsurfaces
    exact ⟨hsurfaces.follows, (takeIn_opened hfollows horder h).2⟩
  | polled hread ih =>
    have hwithin := (hread.openRead hfollows).within
    exact ⟨(next_surfaces hwell ih.1 hwithin).follows, (ih.2.next ih.1 hwithin.started).1⟩
  | beside _ _ ih => exact ih

theorem FailsAlone.buried (hwell : scheme.WellFormed hash) (hfollows : cluster.membership.Follows scheme)
    {shown : List (ClusterError × Nat)} (hran : Ran scheme start shown cluster) {e : ClusterError}
    (h : FailsAlone cluster e after) :
    (∃ later total, shown <+: later ∧ Ran scheme start (later ++ [(e, total)]) after) ∧
      e.Buried after.topology := by
  cases h with
  | @upload interleaving source _ _ h =>
    have hstep := hran.step (.upload interleaving source)
    have hburied := (uploadWith_shows hwell hfollows interleaving source).buried
    rw [h] at hstep hburied
    exact ⟨⟨shown, _, List.prefix_rfl, hstep⟩, hburied e rfl⟩
  | @dropped interleaving source _ _ h =>
    have hstep := hran.step (.dropped interleaving source)
    have hburied := (uploadDroppedWith_shows hwell hfollows interleaving source).buried
    rw [h] at hstep hburied
    exact ⟨⟨shown, _, List.prefix_rfl, hstep⟩, hburied e rfl⟩
  | @download order horizon _ _ horder h =>
    have hstep := hran.step (.download horder horizon)
    have hburied := (downloadIn_shows hwell hfollows horder horizon).buried
    rw [h] at hstep hburied
    exact ⟨⟨shown, _, List.prefix_rfl, hstep⟩, hburied e rfl⟩
  | @take order _ _ horder h =>
    have hstep := hran.step (.take horder)
    have hburied := (takeIn_shows hwell hfollows horder).buried
    rw [h] at hstep hburied
    exact ⟨⟨shown, _, List.prefix_rfl, hstep⟩, hburied e rfl⟩
  | poll hread h =>
    obtain ⟨hnow, hdead⟩ := hread.withoutDead hwell hfollows
    have hopen := hread.openRead hfollows
    obtain ⟨later, hprefix, hlater⟩ := hread.ran hfollows hran
    have hstep := hlater.step (.poll hopen)
    have hburied := (hdead.next hnow hopen.within.started).2
    rw [h] at hstep hburied
    exact ⟨⟨later, _, hprefix, hstep⟩, hburied e rfl⟩
  | ping h =>
    have hstep := hran.step .ping
    have hburied := (ping_shows hwell hfollows).buried
    rw [h] at hstep hburied
    exact ⟨⟨shown, _, List.prefix_rfl, hstep⟩, hburied e rfl⟩

/-- In any run on one scheme each aggregate failure that is shown names at least one partition, in order and each
once, all of the scheme and not more than took part; and failed uploads and downloads are counted as often as they
are shown. If an operation runs alone until it shows an error, all partitions named are dead then. A commit leaves
all partitions alive or dead as they were, whether it fails or not. -/
theorem failures_truthful {groups : List PartitionGroup} {client : Partition → Option (Store μ ρ κ σ)}
    {alive : List PartitionId} {shown : List (ClusterError × Nat)}
    (hscheme : PartitionScheme.create groups client hash = .ok scheme)
    (hstart : start.topology = .ofAlive scheme alive) (h : Ran scheme start shown cluster) :
    (∀ e total, (e, total) ∈ shown → ∀ failure, e.failedPartitions = some failure →
      failure.Truthful scheme total) ∧
    cluster.membership.statistics.failedUploads = start.membership.statistics.failedUploads +
      shown.countP (fun item => item.1.isUploadFailed) ∧
    cluster.membership.statistics.failedDownloads = start.membership.statistics.failedDownloads +
      shown.countP (fun item => item.1.isDownloadFailed) ∧
    (∀ e after, FailsAlone cluster e after →
      (∃ later total, shown <+: later ∧ Ran scheme start (later ++ [(e, total)]) after) ∧
      e.Buried after.topology) ∧
    ∀ read receipts, (cluster.commit receipts read).2.topology = cluster.topology := by
  obtain ⟨hwell, -, -⟩ := PartitionScheme.wellFormed_of_create hscheme
  have haccount := h.account hwell ⟨alive, hstart⟩
  refine ⟨haccount.truthful, haccount.failedUploads, haccount.failedDownloads, ?_, fun _ _ => rfl⟩
  intro e after hfails
  exact hfails.buried hwell haccount.follows h

/-- One of three partitions is gone that are all needed. An upload fails for it, and then a download, for which it is
dead. -/
theorem failures_truthful_trio :
    let gone : FailedPartitions := ⟨[⟨"g", "b"⟩], 3⟩
    let start := { Trio.cluster { Faults.healthy with killed := true } with
      options := (ClusterOptions.standard.withUploadQuorum .all).withDownloadQuorum .all }
    ∃ cluster, Ran Trio.scheme start [(.uploadFailed gone, 3), (.downloadFailed gone, 3)] cluster ∧
      gone.Truthful Trio.scheme 3 ∧ cluster.membership.statistics.failedUploads = 1 ∧
      cluster.membership.statistics.failedDownloads = 1 ∧
      ∀ e after, FailsAlone start e after → e.Buried after.topology := by
  intro gone start
  let source : Feed UInt64 Nat := [.ok ⟨1, 5, 7⟩]
  let between := (start.uploadWith .patient source).2
  have hupload : Operation Trio.scheme start (some (.uploadFailed gone)) 3 between := by
    have hshown : errorOf (start.uploadWith .patient source).1 = some (.uploadFailed gone) := by decide +kernel
    have htotal : start.takingPart .patient source = 3 := by decide +kernel
    rw [← hshown, ← htotal]
    exact .upload .patient source
  have hdownload : Operation Trio.scheme between (some (.downloadFailed gone)) 3 (between.downloadIn id 0).2 := by
    have hshown : errorOf (between.downloadIn id 0).1 = some (.downloadFailed gone) := by decide +kernel
    rw [← hshown]
    exact .download (fun _ => .refl _) 0
  have hran := (Ran.start.step hupload).step hdownload
  have hstart : start.topology = .ofAlive Trio.scheme Trio.scheme.identities := rfl
  obtain ⟨htruthful, huploads, hdownloads, -, -⟩ := failures_truthful Trio.create_eq hstart hran
  obtain ⟨-, -, -, hburied, -⟩ := failures_truthful Trio.create_eq hstart .start
  refine ⟨_, hran, htruthful _ 3 (List.mem_cons_self ..) gone rfl, huploads, hdownloads, ?_⟩
  intro e after hfails
  exact (hburied e after hfails).2

end ReplicatedStore.Cluster
