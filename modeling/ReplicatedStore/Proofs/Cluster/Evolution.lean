import Mathlib.Logic.Relation
import ReplicatedStore.Cluster.Probe
import ReplicatedStore.Proofs.Cluster.Opening
/-!
# How a cluster evolves

Whatever a cluster does but commit a take, it keeps its scheme, and its partitions keep what they hold. So
does what happens beside it, as long as partitions keep their data.
-/

namespace ReplicatedStore

variable {μ ρ κ σ ω γ : Type}

namespace Membership

def Follows (scheme : PartitionScheme γ) (membership : Membership γ) : Prop :=
  ∃ alive, membership.topology = .ofAlive scheme alive

variable {scheme : PartitionScheme γ} {membership : Membership γ}

private theorem Follows.update (h : membership.Follows scheme) (alive : List PartitionId) :
    (membership.update alive).2.Follows scheme := by
  obtain ⟨current, htopology⟩ := h
  unfold Membership.update
  split
  next => exact ⟨current, htopology⟩
  next =>
    refine ⟨alive, ?_⟩
    rw [htopology]
    rfl

theorem Follows.markAlive (h : membership.Follows scheme) (partitions : List PartitionId) :
    (membership.markAlive partitions).2.Follows scheme :=
  h.update _

theorem Follows.markDead (h : membership.Follows scheme) (partitions : List PartitionId) :
    (membership.markDead partitions).2.Follows scheme :=
  h.update _

theorem Follows.recordFailures (h : membership.Follows scheme) (started : Topology γ)
    (failed : IndexSet) : (membership.recordFailures started failed).2.Follows scheme := by
  have hcounted : (membership.countFailures (started.identitiesAt failed).length).Follows scheme := h
  exact hcounted.markDead _

end Membership

namespace Cluster

theorem scheme_of_follows {scheme : PartitionScheme (Store μ ρ κ σ)} {cluster : Cluster μ ρ κ σ}
    (h : cluster.membership.Follows scheme) : cluster.topology.scheme = scheme := by
  obtain ⟨alive, htopology⟩ := h
  rw [topology, htopology]
  rfl

variable [Ord κ]

/-- A cluster has gone on with its scheme, and its partitions hold what they held and maybe more. -/
structure Evolved (scheme : PartitionScheme (Store μ ρ κ σ)) (f : MergeFunction σ)
    (held : Nat → μ → MapStore κ σ) (before after : Cluster μ ρ κ σ) : Prop where
  follows : after.membership.Follows scheme
  function : after.function = before.function
  options : after.options = before.options
  grown : GrownBy f held (fun _ => True) before.world after.world

variable {scheme : PartitionScheme (Store μ ρ κ σ)} {f : MergeFunction σ}
  {held : Nat → μ → MapStore κ σ} {cluster before between after : Cluster μ ρ κ σ}

namespace Evolved

theorem refl (h : cluster.membership.Follows scheme) : Evolved scheme f held cluster cluster :=
  ⟨h, rfl, rfl, .of_eq fun _ => rfl⟩

theorem trans (hfirst : Evolved scheme f held before between)
    (hsecond : Evolved scheme f held between after) : Evolved scheme f held before after :=
  ⟨hsecond.follows, hsecond.function.trans hfirst.function, hsecond.options.trans hfirst.options,
    hfirst.grown.trans hsecond.grown⟩

variable (h : cluster.membership.Follows scheme)
include h

private theorem counted (change : ClusterStatistics → ClusterStatistics) :
    Evolved scheme f held cluster (cluster.count change) :=
  ⟨h, rfl, rfl, .of_eq fun _ => rfl⟩

private theorem recorded (started : Topology (Store μ ρ κ σ)) (failed : IndexSet) :
    Evolved scheme f held cluster (cluster.recordFailures started failed).2 :=
  ⟨h.recordFailures started failed, rfl, rfl, .of_eq fun _ => rfl⟩

private theorem inWorld {world : μ} (hgrown : GrownBy f held (fun _ => True) cluster.world world) :
    Evolved scheme f held cluster { cluster with world } :=
  ⟨h, rfl, rfl, hgrown⟩

private theorem uploadFailed (started : Topology (Store μ ρ κ σ)) (failed : IndexSet) (total : Nat) :
    Evolved scheme f held cluster (cluster.uploadFailed started failed total).2 := by
  have hcounted : Evolved scheme f held cluster
      (cluster.count fun s => { s with failedUploads := s.failedUploads + 1 }) := counted h _
  exact hcounted.trans (recorded hcounted.follows started failed)

private theorem failedRead (kind : ReadKind) :
    Evolved scheme f held cluster (cluster.countFailedRead kind) := by
  cases kind with
  | download => exact ⟨h, rfl, rfl, .of_eq fun _ => rfl⟩
  | take => exact refl h

end Evolved

section Uploads

variable (hmaps : KeepsMaps f scheme.clientAt? held)
include hmaps

private theorem grown_completeAll (interleaving : Interleaving)
    (sessions : List (Nat × List (Entry κ σ))) (failed : IndexSet) (world : μ) :
    GrownBy f held (fun _ => True) world
      (UploadSessions.completeAll Store.upload scheme.clientAt? interleaving sessions failed world).2 := by
  induction sessions generalizing failed world with
  | nil => exact .of_eq fun _ => rfl
  | cons session rest ih =>
    obtain ⟨index, sent⟩ := session
    unfold UploadSessions.completeAll
    cases hclient : scheme.clientAt? index with
    | none => exact ih _ _
    | some store =>
      dsimp only
      split
      next => exact (hmaps.grown_of_upload hclient rfl fun _ _ => trivial).trans (ih _ _)
      next =>
        split
        next between hanswer => exact (hmaps.grown_of_upload hclient hanswer fun _ _ => trivial).trans (ih _ _)
        next cause between hanswer =>
          exact (hmaps.grown_of_upload hclient hanswer fun _ _ => trivial).trans (ih _ _)

private theorem grown_cancelAll (interleaving : Interleaving) (failed : IndexSet)
    (sessions : List (Nat × List (Entry κ σ))) (world : μ) :
    GrownBy f held (fun _ => True) world
      (UploadSessions.cancelAll Store.upload scheme.clientAt? interleaving failed sessions world) := by
  induction sessions generalizing world with
  | nil => exact .of_eq fun _ => rfl
  | cons session rest ih =>
    obtain ⟨index, sent⟩ := session
    unfold UploadSessions.cancelAll
    cases hclient : scheme.clientAt? index with
    | none => exact ih _
    | some store =>
      dsimp only
      split
      next => exact (hmaps.grown_of_upload hclient rfl fun _ _ => trivial).trans (ih _)
      next =>
        split
        next => exact (hmaps.grown_of_upload hclient rfl fun _ _ => trivial).trans (ih _)
        next => exact ih _

private theorem evolved_cancelUpload (h : cluster.membership.Follows scheme)
    (interleaving : Interleaving) (sessions : UploadSessions κ σ) :
    Evolved scheme f held cluster (cluster.cancelUpload interleaving sessions) := by
  refine .inWorld h ?_
  rw [scheme_of_follows h]
  exact grown_cancelAll hmaps interleaving sessions.failed _ _

private theorem evolved_finishUpload (h : cluster.membership.Follows scheme)
    (interleaving : Interleaving) (sharder : SchemeSharder) (sessions : UploadSessions κ σ) :
    Evolved scheme f held cluster (cluster.finishUpload interleaving sharder sessions).2 := by
  have hgrown := grown_completeAll hmaps interleaving sessions.sent.toList sessions.failed cluster.world
  unfold finishUpload
  dsimp only
  rw [scheme_of_follows h]
  generalize UploadSessions.completeAll Store.upload scheme.clientAt? interleaving
    sessions.sent.toList sessions.failed cluster.world = completed at hgrown
  obtain ⟨failed, world⟩ := completed
  have hworld : Evolved scheme f held cluster { cluster with world } := .inWorld h hgrown
  dsimp only
  split
  next =>
    split
    next => exact hworld
    next => exact hworld.trans (.recorded hworld.follows _ _)
  next =>
    exact hworld.trans (.uploadFailed hworld.follows cluster.topology failed
      (sessions.targeted failed).size)

variable [Fingerprint κ]

private theorem evolved_uploadUntil (h : cluster.membership.Follows scheme) (interleaving : Interleaving)
    {finish : SchemeSharder → UploadSessions κ σ → Cluster μ ρ κ σ →
      Except ClusterError Unit × Cluster μ ρ κ σ}
    (hfinish : ∀ sharder sessions (cluster : Cluster μ ρ κ σ), cluster.membership.Follows scheme →
      Evolved scheme f held cluster (finish sharder sessions cluster).2) (source : Feed κ σ) :
    Evolved scheme f held cluster (cluster.uploadUntil interleaving finish source).2 := by
  have hcounted : Evolved scheme f held cluster cluster.countUpload := .counted h _
  refine hcounted.trans ?_
  unfold uploadUntil
  dsimp only
  split
  next => exact .refl hcounted.follows
  next sharder _ =>
    split
    next => exact evolved_cancelUpload hmaps hcounted.follows interleaving _
    next sessions _ =>
      have hcancelled := evolved_cancelUpload hmaps hcounted.follows interleaving sessions
      exact hcancelled.trans (.uploadFailed hcancelled.follows cluster.topology sessions.failed
        (sessions.targeted sessions.failed).size)
    next sessions _ => exact hfinish sharder sessions _ hcounted.follows

theorem evolved_uploadWith (h : cluster.membership.Follows scheme) (interleaving : Interleaving)
    (source : Feed κ σ) : Evolved scheme f held cluster (cluster.uploadWith interleaving source).2 :=
  evolved_uploadUntil hmaps h interleaving
    (fun sharder sessions _ hfollows => evolved_finishUpload hmaps hfollows interleaving sharder sessions) source

theorem evolved_uploadDroppedWith (h : cluster.membership.Follows scheme) (interleaving : Interleaving)
    (source : Feed κ σ) :
    Evolved scheme f held cluster (cluster.uploadDroppedWith interleaving source).2 :=
  evolved_uploadUntil hmaps h interleaving
    (fun _ sessions _ hfollows => evolved_cancelUpload hmaps hfollows interleaving sessions) source

end Uploads

section Reads

variable (hmaps : KeepsMaps f scheme.clientAt? held)
include hmaps

theorem held_releaseAll (receipts : ClusterReceipt ρ)
    (world : μ) (index : Nat) : held index (releaseAll scheme receipts world) = held index world := by
  unfold releaseAll
  induction receipts generalizing world with
  | nil => rfl
  | cons item rest ih =>
    obtain ⟨position, receipt⟩ := item
    rw [List.foldl_cons, ih]
    dsimp only
    cases hclient : scheme.clientAt? position with
    | none => rfl
    | some store => exact hmaps.released hclient

omit hmaps in
private theorem evolved_openRead (h : cluster.membership.Follows scheme) (order : List Nat → List Nat)
    (kind : ReadKind) {request : Store μ ρ κ σ → μ → Except StoreError (Feed κ σ × ω) × μ}
    {giveUp : PartitionScheme (Store μ ρ κ σ) → List (Nat × ω) → μ → μ}
    (hrequest : ∀ {index other store before answer after}, scheme.clientAt? index = some store →
      request store before = (answer, after) → held other after = held other before)
    (hgiveUp : ∀ receipts world index, held index (giveUp scheme receipts world) = held index world) :
    Evolved scheme f held cluster (openRead order kind request giveUp cluster).2 := by
  have hopening := openPartitions_opening request cluster.topology.scheme
    (order cluster.topology.aliveIndices) cluster.world
  unfold openRead
  dsimp only
  generalize openPartitions request cluster.topology.scheme (order cluster.topology.aliveIndices)
    cluster.world = result at hopening
  obtain ⟨opened, world⟩ := result
  rw [scheme_of_follows h] at hopening
  have hworld : Evolved scheme f held cluster { cluster with world } :=
    .inWorld h (.of_eq fun index => hopening.held_eq hrequest index)
  have hrecorded := hworld.trans (.recorded hworld.follows cluster.topology opened.failed)
  split
  next => exact .failedRead h kind
  next =>
    split
    next => exact hrecorded
    next =>
      rw [scheme_of_follows h]
      refine hrecorded.trans (Evolved.trans (.inWorld hrecorded.follows ?_) (.failedRead ?_ kind))
      · exact .of_eq fun index => hgiveUp _ _ index
      · exact hrecorded.follows

theorem evolved_downloadIn (h : cluster.membership.Follows scheme) (order : List Nat → List Nat)
    (horizon : UInt64) : Evolved scheme f held cluster (cluster.downloadIn order horizon).2 := by
  have hcounted : Evolved scheme f held cluster
      (cluster.count fun s => { s with downloads := s.downloads + 1 }) := .counted h _
  have hopened : Evolved scheme f held _ (openRead order .download (requestDownload horizon)
      (fun _ _ world => world) (cluster.count fun s => { s with downloads := s.downloads + 1 })).2 :=
    evolved_openRead hcounted.follows order .download
      (fun hclient hanswer => held_requestDownload hmaps hclient hanswer) fun _ _ _ => rfl
  exact hcounted.trans hopened

theorem evolved_takeIn (h : cluster.membership.Follows scheme) (order : List Nat → List Nat) :
    Evolved scheme f held cluster (cluster.takeIn order).2 := by
  have hcounted : Evolved scheme f held cluster
      (cluster.count fun s => { s with takes := s.takes + 1 }) := .counted h _
  refine hcounted.trans (evolved_openRead hcounted.follows order .take ?_ ?_)
  · exact fun hclient hanswer => hmaps.taken hclient hanswer
  · exact fun receipts world index => held_releaseAll hmaps receipts world index

theorem evolved_release (h : cluster.membership.Follows scheme) {read : ClusterRead μ ρ κ σ}
    (hread : read.started.scheme = scheme) (receipts : ClusterReceipt ρ) :
    Evolved scheme f held cluster (release receipts read cluster) := by
  refine .inWorld h (.of_eq fun index => ?_)
  rw [hread]
  exact held_releaseAll hmaps receipts cluster.world index

omit hmaps in
theorem evolved_next (h : cluster.membership.Follows scheme) (read : ClusterRead μ ρ κ σ) :
    Evolved scheme f held cluster (next read cluster).2.2 := by
  unfold next
  generalize read.merge.next cluster.function (cluster.isValidWithout read.started)
    (interruptionAt read.started cluster.world) = result
  obtain ⟨step, failures, merge⟩ := result
  have hrecorded : Evolved scheme f held cluster (cluster.recordFailures read.started failures).2 :=
    .recorded h read.started failures
  cases step with
  | entry => exact hrecorded
  | ended => exact hrecorded
  | invalid => exact hrecorded.trans (.failedRead hrecorded.follows read.kind)

end Reads

section Probes

variable (hmaps : KeepsMaps f scheme.clientAt? held)
include hmaps

private theorem held_pingAll {partitions : List Partition}
    (hpartitions : ∀ partition ∈ partitions, partition ∈ scheme.partitions) (world : μ) (index : Nat) :
    held index (pingAll scheme partitions world).2 = held index world := by
  induction partitions generalizing world with
  | nil => rfl
  | cons first rest ih =>
    have hrest := ih fun partition hmem => hpartitions partition (List.mem_cons_of_mem _ hmem)
    obtain ⟨position, hposition⟩ := List.mem_iff_getElem?.mp (hpartitions first (List.mem_cons_self ..))
    unfold pingAll
    cases hclient : scheme.client first with
    | none => exact hrest world
    | some store =>
      have hat : scheme.clientAt? position = some store := by
        rw [PartitionScheme.clientAt?, PartitionScheme.partition?, hposition, Option.bind_some, hclient]
      exact (hrest _).trans (hmaps.pinged hat rfl)

theorem evolved_probe (h : cluster.membership.Follows scheme) :
    Evolved scheme f held cluster cluster.probe.2 := by
  have hheld := held_pingAll hmaps (fun partition hmem => hmem) cluster.world
  unfold probe
  dsimp only
  rw [scheme_of_follows h]
  generalize pingAll scheme scheme.partitions cluster.world = result at hheld
  obtain ⟨⟨alive, silent⟩, world⟩ := result
  have hcounted : (cluster.membership.countFailures silent.length).Follows scheme := h
  exact ⟨(hcounted.markAlive alive).markDead silent, rfl, rfl, .of_eq hheld⟩

theorem evolved_ping (h : cluster.membership.Follows scheme) :
    Evolved scheme f held cluster cluster.ping.2 := by
  have hcounted : Evolved scheme f held cluster
      (cluster.count fun s => { s with pings := s.pings + 1 }) := .counted h _
  have hprobed := hcounted.trans (evolved_probe hmaps hcounted.follows)
  unfold ping
  dsimp only
  split
  next => exact hprobed
  next => exact hprobed

theorem evolved_reviveDead (h : cluster.membership.Follows scheme) :
    Evolved scheme f held cluster cluster.reviveDead.2 := by
  have hheld : ∀ (keep : Partition → Bool) (index : Nat),
      held index (pingAll scheme (scheme.partitions.filter keep) cluster.world).2 =
        held index cluster.world := fun keep =>
    held_pingAll hmaps (fun partition hmem => List.mem_of_mem_filter hmem) cluster.world
  unfold reviveDead
  dsimp only
  rw [scheme_of_follows h]
  specialize hheld fun partition => !cluster.topology.alive.contains partition.identity
  generalize pingAll scheme _ cluster.world = result at hheld
  obtain ⟨⟨revived, silent⟩, world⟩ := result
  exact ⟨h.markAlive revived, rfl, rfl, .of_eq hheld⟩

end Probes

variable [Fingerprint κ]

/-- What may happen to a cluster between an upload and a read: all it does but committing a take, and
what happens `beside` it, such as faults and writes to its partitions. -/
inductive Step (scheme : PartitionScheme (Store μ ρ κ σ)) (f : MergeFunction σ)
    (held : Nat → μ → MapStore κ σ) (cluster : Cluster μ ρ κ σ) : Cluster μ ρ κ σ → Prop
  | upload (interleaving : Interleaving) (source : Feed κ σ) :
    Step scheme f held cluster (cluster.uploadWith interleaving source).2
  | dropped (interleaving : Interleaving) (source : Feed κ σ) :
    Step scheme f held cluster (cluster.uploadDroppedWith interleaving source).2
  | download (order : List Nat → List Nat) (horizon : UInt64) :
    Step scheme f held cluster (cluster.downloadIn order horizon).2
  | take (order : List Nat → List Nat) : Step scheme f held cluster (cluster.takeIn order).2
  | next (read : ClusterRead μ ρ κ σ) : Step scheme f held cluster (Cluster.next read cluster).2.2
  | release (receipts : ClusterReceipt ρ) {read : ClusterRead μ ρ κ σ}
    (hread : read.started.scheme = scheme) :
    Step scheme f held cluster (Cluster.release receipts read cluster)
  | probe : Step scheme f held cluster cluster.probe.2
  | ping : Step scheme f held cluster cluster.ping.2
  | revive : Step scheme f held cluster cluster.reviveDead.2
  | beside {after : Cluster μ ρ κ σ} (h : Evolved scheme f held cluster after) :
    Step scheme f held cluster after

theorem Step.evolved (hmaps : KeepsMaps f scheme.clientAt? held)
    (h : cluster.membership.Follows scheme) (hstep : Step scheme f held cluster after) :
    Evolved scheme f held cluster after := by
  cases hstep with
  | upload interleaving source => exact evolved_uploadWith hmaps h interleaving source
  | dropped interleaving source => exact evolved_uploadDroppedWith hmaps h interleaving source
  | download order horizon => exact evolved_downloadIn hmaps h order horizon
  | take order => exact evolved_takeIn hmaps h order
  | next read => exact evolved_next h read
  | release receipts hread => exact evolved_release hmaps h hread receipts
  | probe => exact evolved_probe hmaps h
  | ping => exact evolved_ping hmaps h
  | revive => exact evolved_reviveDead hmaps h
  | beside hevolved => exact hevolved

def Run (scheme : PartitionScheme (Store μ ρ κ σ)) (f : MergeFunction σ)
    (held : Nat → μ → MapStore κ σ) : Cluster μ ρ κ σ → Cluster μ ρ κ σ → Prop :=
  Relation.ReflTransGen (Step scheme f held)

theorem Run.evolved (hmaps : KeepsMaps f scheme.clientAt? held)
    (h : cluster.membership.Follows scheme) (hrun : Run scheme f held cluster after) :
    Evolved scheme f held cluster after := by
  induction hrun with
  | refl => exact .refl h
  | tail _ hstep ih => exact ih.trans (hstep.evolved hmaps ih.follows)

end Cluster

end ReplicatedStore
