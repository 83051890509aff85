import ReplicatedStore.Proofs.Cluster.Reading
import ReplicatedStore.Proofs.Cluster.Replicas
/-!
# Reads of partitions that keep maps

A read that was opened merges what the partitions hold, up to where each of them fails, and does without
those that are dead or could not be opened.
-/

namespace ReplicatedStore.Cluster

variable {μ ρ κ σ ω γ : Type}

inductive Opening (request : Store μ ρ κ σ → μ → Except StoreError (Feed κ σ × ω) × μ)
    (client : Nat → Option (Store μ ρ κ σ)) : List Nat → μ → Opened ω κ σ → μ → Prop
  | nil (world : μ) : Opening request client [] world ⟨[], ∅⟩ world
  | absent {index : Nat} {rest : List Nat} {before after : μ} {opened : Opened ω κ σ}
    (hclient : client index = none) (hrest : Opening request client rest before opened after) :
    Opening request client (index :: rest) before ⟨opened.sources, opened.failed.insert index⟩ after
  | refused {index : Nat} {rest : List Nat} {store : Store μ ρ κ σ} {cause : StoreError}
    {before between after : μ} {opened : Opened ω κ σ} (hclient : client index = some store)
    (hrequest : request store before = (.error cause, between))
    (hrest : Opening request client rest between opened after) :
    Opening request client (index :: rest) before ⟨opened.sources, opened.failed.insert index⟩ after
  | answered {index : Nat} {rest : List Nat} {store : Store μ ρ κ σ} {item : Feed κ σ × ω}
    {before between after : μ} {opened : Opened ω κ σ} (hclient : client index = some store)
    (hrequest : request store before = (.ok item, between))
    (hrest : Opening request client rest between opened after) :
    Opening request client (index :: rest) before ⟨(index, item) :: opened.sources, opened.failed⟩ after

theorem openPartitions_opening (request : Store μ ρ κ σ → μ → Except StoreError (Feed κ σ × ω) × μ)
    (scheme : PartitionScheme (Store μ ρ κ σ)) (indices : List Nat) (before : μ) :
    Opening request scheme.clientAt? indices before (openPartitions request scheme indices before).1
      (openPartitions request scheme indices before).2 := by
  induction indices generalizing before with
  | nil => exact .nil before
  | cons index rest ih =>
    unfold openPartitions
    cases hclient : scheme.clientAt? index with
    | none => exact .absent hclient (ih before)
    | some store =>
      cases hrequest : request store before with
      | mk answer between =>
        cases answer with
        | error cause =>
          simp only [hrequest]
          exact .refused hclient hrequest (ih between)
        | ok item =>
          simp only [hrequest]
          exact .answered hclient hrequest (ih between)

namespace Opening

variable {request : Store μ ρ κ σ → μ → Except StoreError (Feed κ σ × ω) × μ}
  {client : Nat → Option (Store μ ρ κ σ)} {indices : List Nat} {before after : μ}
  {opened : Opened ω κ σ}

theorem mem_or_mem (h : Opening request client indices before opened after) {index : Nat}
    (hmem : index ∈ indices) : index ∈ opened.failed ∨ ∃ item, (index, item) ∈ opened.sources := by
  induction h with
  | nil => contradiction
  | absent _ _ ih | refused _ _ _ ih =>
    rcases List.mem_cons.mp hmem with rfl | hrest
    · exact .inl Std.TreeSet.mem_insert_self
    · rcases ih hrest with hfailed | hsource
      · exact .inl (Std.TreeSet.mem_insert.mpr (.inr hfailed))
      · exact .inr hsource
  | answered _ _ _ ih =>
    rcases List.mem_cons.mp hmem with rfl | hrest
    · exact .inr ⟨_, List.mem_cons_self ..⟩
    · rcases ih hrest with hfailed | ⟨item, hsource⟩
      · exact .inl hfailed
      · exact .inr ⟨item, List.mem_cons_of_mem _ hsource⟩

theorem mem_of_mem_failed (h : Opening request client indices before opened after) {index : Nat}
    (hfailed : index ∈ opened.failed) : index ∈ indices := by
  induction h with
  | nil => exact absurd hfailed Std.TreeSet.not_mem_emptyc
  | absent _ _ ih | refused _ _ _ ih =>
    rcases Std.TreeSet.mem_insert.mp hfailed with hfirst | hrest
    · exact List.mem_cons.mpr (.inl (Nat.compare_eq_eq.mp hfirst).symm)
    · exact List.mem_cons_of_mem _ (ih hrest)
  | answered _ _ _ ih => exact List.mem_cons_of_mem _ (ih hfailed)

theorem positions (h : Opening request client indices before opened after) :
    (opened.sources.map Prod.fst).Sublist indices := by
  induction h with
  | nil => exact List.Sublist.refl []
  | absent _ _ ih | refused _ _ _ ih => exact ih.cons _
  | answered _ _ _ ih => exact ih.cons_cons _

section Held

variable {ν : Type} {held : Nat → μ → ν} (h : Opening request client indices before opened after)
  (hrequest : ∀ {index other store before answer after}, client index = some store →
    request store before = (answer, after) → held other after = held other before)
include h hrequest

theorem held_eq (other : Nat) : held other after = held other before := by
  induction h with
  | nil => rfl
  | absent _ _ ih => exact ih
  | refused hclient hanswer _ ih | answered hclient hanswer _ ih =>
    exact ih.trans (hrequest hclient hanswer)

theorem asked {index : Nat} {item : Feed κ σ × ω} (hmem : (index, item) ∈ opened.sources) :
    ∃ store between next, client index = some store ∧ request store between = (.ok item, next) ∧
      held index between = held index before := by
  induction h with
  | nil => contradiction
  | absent _ _ ih => exact ih hmem
  | refused hclient hanswer _ ih =>
    rw [← hrequest hclient hanswer]
    exact ih hmem
  | answered hclient hanswer _ ih =>
    rcases List.mem_cons.mp hmem with heq | hrest
    · cases heq
      exact ⟨_, _, _, hclient, hanswer, rfl⟩
    · rw [← hrequest hclient hanswer]
      exact ih hrest

end Held

end Opening

section OpenRead

variable {request : Store μ ρ κ σ → μ → Except StoreError (Feed κ σ × ω) × μ}
  {giveUp : PartitionScheme (Store μ ρ κ σ) → List (Nat × ω) → μ → μ} {order : List Nat → List Nat}
  {kind : ReadKind} {cluster after : Cluster μ ρ κ σ}

def feedsOf (opened : Opened ω κ σ) : List (Nat × Feed κ σ) :=
  (byPosition opened.sources).map fun (index, feed, _) => (index, feed)

theorem mem_feedsOf {opened : Opened ω κ σ} {index : Nat} {feed : Feed κ σ} :
    (index, feed) ∈ feedsOf opened ↔ ∃ receipt, (index, feed, receipt) ∈ opened.sources := by
  simp only [feedsOf, byPosition, List.mem_map, List.mem_mergeSort, Prod.exists, Prod.mk.injEq]
  constructor
  · rintro ⟨_, _, receipt, hmem, rfl, rfl⟩
    exact ⟨receipt, hmem⟩
  · rintro ⟨receipt, hmem⟩
    exact ⟨_, _, receipt, hmem, rfl, rfl⟩

def receiptsOf (opened : Opened ω κ σ) : List (Nat × ω) :=
  (byPosition opened.sources).map fun (index, _, receipt) => (index, receipt)

def missing (started : Topology (Store μ ρ κ σ)) (opened : Opened ω κ σ) : IndexSet :=
  started.deadIndices.insertAll opened.failed.toList

/-- The partitions that a read of a cluster opens, and the world once it has opened them. -/
def opening (request : Store μ ρ κ σ → μ → Except StoreError (Feed κ σ × ω) × μ)
    (order : List Nat → List Nat) (cluster : Cluster μ ρ κ σ) : Opened ω κ σ × μ :=
  openPartitions request cluster.topology.scheme (order cluster.topology.aliveIndices) cluster.world

def afterOpening (request : Store μ ρ κ σ → μ → Except StoreError (Feed κ σ × ω) × μ) (order : List Nat → List Nat)
    (cluster : Cluster μ ρ κ σ) : Cluster μ ρ κ σ :=
  ({ cluster with world := (cluster.opening request order).2 }.recordFailures cluster.topology
    (cluster.opening request order).1.failed).2

inductive OpenOutcome (order : List Nat → List Nat) (kind : ReadKind)
    (request : Store μ ρ κ σ → μ → Except StoreError (Feed κ σ × ω) × μ) (cluster : Cluster μ ρ κ σ) :
    Except ClusterError (ClusterRead μ ρ κ σ × List (Nat × ω)) × Cluster μ ρ κ σ → Prop
  | dead (hinvalid : cluster.isValidWithout cluster.topology cluster.topology.deadIndices = false) :
    OpenOutcome order kind request cluster
      (.error (readFailed kind cluster.topology cluster.topology.deadIndices), cluster.countFailedRead kind)
  | refused {world : μ} (hinvalid : cluster.isValidWithout cluster.topology
      (missing cluster.topology (cluster.opening request order).1) = false) :
    OpenOutcome order kind request cluster
      (.error (readFailed kind cluster.topology (missing cluster.topology (cluster.opening request order).1)),
        { cluster.afterOpening request order with world }.countFailedRead kind)
  | opened (hvalid : cluster.isValidWithout cluster.topology
      (missing cluster.topology (cluster.opening request order).1) = true) :
    OpenOutcome order kind request cluster
      (.ok (⟨kind, cluster.topology, .ofFeeds (feedsOf (cluster.opening request order).1)
        (missing cluster.topology (cluster.opening request order).1)⟩,
        receiptsOf (cluster.opening request order).1), cluster.afterOpening request order)

theorem openRead_outcome (order : List Nat → List Nat) (kind : ReadKind)
    (request : Store μ ρ κ σ → μ → Except StoreError (Feed κ σ × ω) × μ)
    (giveUp : PartitionScheme (Store μ ρ κ σ) → List (Nat × ω) → μ → μ) (cluster : Cluster μ ρ κ σ) :
    OpenOutcome order kind request cluster (openRead order kind request giveUp cluster) := by
  unfold openRead
  dsimp only
  split
  next hdead => exact .dead hdead
  next =>
    split
    next hvalid => exact .opened hvalid
    next hinvalid =>
      rw [Bool.not_eq_true] at hinvalid
      exact .refused hinvalid

theorem openRead_of_ok {read : ClusterRead μ ρ κ σ} {receipts : List (Nat × ω)}
    (h : openRead order kind request giveUp cluster = (.ok (read, receipts), after)) :
    let unhealthy := missing cluster.topology (cluster.opening request order).1
    ∃ membership,
      after = { cluster with membership, world := (cluster.opening request order).2 } ∧
      read = ⟨kind, cluster.topology,
        .ofFeeds (feedsOf (cluster.opening request order).1) unhealthy⟩ ∧
      receipts = receiptsOf (cluster.opening request order).1 ∧
      cluster.isValidWithout cluster.topology unhealthy = true := by
  have houtcome : OpenOutcome order kind request cluster (.ok (read, receipts), after) :=
    h ▸ openRead_outcome order kind request giveUp cluster
  cases houtcome with
  | opened hvalid => exact ⟨_, rfl, rfl, rfl, hvalid⟩

theorem exists_openRead (kind : ReadKind)
    (giveUp : PartitionScheme (Store μ ρ κ σ) → List (Nat × ω) → μ → μ)
    (hdead : cluster.isValidWithout cluster.topology cluster.topology.deadIndices = true)
    (hvalid : cluster.isValidWithout cluster.topology
      (missing cluster.topology (cluster.opening request order).1) = true) :
    ∃ item after, openRead order kind request giveUp cluster = (.ok item, after) := by
  unfold opening at hvalid
  unfold openRead
  dsimp only
  rw [if_neg (by simp [hdead])]
  generalize openPartitions request cluster.topology.scheme (order cluster.topology.aliveIndices)
    cluster.world = result at hvalid
  split
  next => exact ⟨_, _, rfl⟩
  next hinvalid => exact absurd hvalid hinvalid

end OpenRead

section Downloads

variable {horizon : UInt64}

private theorem requestDownload_eq {store : Store μ ρ κ σ} {before after : μ}
    {answer : Except StoreError (Feed κ σ × Unit)}
    (h : requestDownload horizon store before = (answer, after)) :
    ∃ result, store.download horizon before = (result, after) ∧
      answer = result.map fun feed => (feed, ()) := by
  unfold requestDownload at h
  cases h
  exact ⟨_, rfl, rfl⟩

private theorem mem_alive_or_dead (topology : Topology γ) {index : Nat} (h : index < topology.scheme.size) :
    index ∈ topology.aliveIndices ∨ index ∈ topology.deadIndices := by
  have hrange : index ∈ List.range topology.scheme.size := List.mem_range.mpr h
  by_cases halive : topology.isAliveAt index = true
  · exact .inl (List.mem_filter.mpr ⟨hrange, halive⟩)
  · refine .inr (Std.TreeSet.mem_ofList.mpr (List.contains_iff_mem.mpr (List.mem_filter.mpr ⟨hrange, ?_⟩)))
    simpa using halive

variable [Ord κ] {f : MergeFunction σ} {client : Nat → Option (Store μ ρ κ σ)}
  {held : Nat → μ → MapStore κ σ} {order : List Nat → List Nat}

theorem held_requestDownload (hmaps : KeepsMaps f client held) {index other : Nat}
    {store : Store μ ρ κ σ} {before after : μ} {answer : Except StoreError (Feed κ σ × Unit)}
    (hclient : client index = some store)
    (h : requestDownload horizon store before = (answer, after)) :
    held other after = held other before := by
  obtain ⟨result, hresult, -⟩ := requestDownload_eq h
  exact hmaps.downloaded hclient hresult

theorem Opening.delivers (hmaps : KeepsMaps f client held) {indices : List Nat} {before after : μ}
    {opened : Opened Unit κ σ}
    (h : Opening (requestDownload horizon) client indices before opened after)
    {index : Nat} {feed : Feed κ σ} {receipt : Unit} (hmem : (index, feed, receipt) ∈ opened.sources) :
    DeliversFrom f (held index before) horizon feed := by
  obtain ⟨store, between, next, hclient, hanswer, hheld⟩ :=
    h.asked (fun hclient hanswer => held_requestDownload hmaps hclient hanswer) hmem
  obtain ⟨result, hresult, hitem⟩ := requestDownload_eq hanswer
  cases result with
  | error => cases hitem
  | ok feed =>
    cases hitem
    rw [← hheld]
    exact hmaps.delivers hclient hresult

/-- What a download of partitions that keep maps merges, once it was opened. -/
structure DownloadOf (f : MergeFunction σ) (held : Nat → μ → MapStore κ σ) (horizon : UInt64)
    (cluster after : Cluster μ ρ κ σ) (read : ClusterRead μ ρ κ σ)
    (result : Opened Unit κ σ × μ) : Prop where
  merge : read.merge = .ofFeeds (feedsOf result.1) (missing cluster.topology result.1)
  started : read.started = cluster.topology
  setting : ∃ membership, after = { cluster with membership, world := result.2 }
  kept : ∀ index, held index result.2 = held index cluster.world
  valid : cluster.isValidWithout cluster.topology (missing cluster.topology result.1) = true
  delivers : ∀ source ∈ feedsOf result.1,
    DeliversFrom f (held source.1 cluster.world) horizon source.2
  complete : ∀ index < cluster.topology.scheme.size,
    index ∈ missing cluster.topology result.1 ∨ ∃ feed, (index, feed) ∈ feedsOf result.1

theorem downloadOf_of_ok {cluster after : Cluster μ ρ κ σ} {read : ClusterRead μ ρ κ σ}
    (hmaps : KeepsMaps f cluster.topology.scheme.clientAt? held)
    (horder : ∀ indices, (order indices).Perm indices)
    (h : cluster.downloadIn order horizon = (.ok read, after)) :
    DownloadOf f held horizon cluster after read (cluster.opening (requestDownload horizon) order) := by
  unfold downloadIn at h
  dsimp only at h
  generalize hopen : openRead order .download (requestDownload horizon) _ _ = result at h
  obtain ⟨answer, last⟩ := result
  cases answer with
  | error cause => cases h
  | ok item =>
    cases h
    obtain ⟨read, receipts⟩ := item
    obtain ⟨membership, rfl, rfl, -, hvalid⟩ := openRead_of_ok hopen
    have hopening := openPartitions_opening (requestDownload horizon) cluster.topology.scheme
      (order cluster.topology.aliveIndices) cluster.world
    refine ⟨rfl, rfl, ⟨_, rfl⟩, ?_, hvalid, ?_, ?_⟩
    · exact hopening.held_eq fun hclient hanswer => held_requestDownload hmaps hclient hanswer
    · rintro ⟨index, feed⟩ hmem
      obtain ⟨receipt, hsource⟩ := mem_feedsOf.mp hmem
      exact hopening.delivers hmaps hsource
    · intro index hindex
      rcases mem_alive_or_dead cluster.topology hindex with halive | hdead
      · rcases hopening.mem_or_mem ((horder _).mem_iff.mpr halive) with hfailed | ⟨⟨feed, receipt⟩, hsource⟩
        · exact .inl (IndexSet.mem_insertAll.mpr (.inl (Std.TreeSet.mem_toList.mpr hfailed)))
        · exact .inr ⟨feed, mem_feedsOf.mpr ⟨receipt, hsource⟩⟩
      · exact .inl (IndexSet.mem_insertAll.mpr (.inr hdead))

theorem DownloadOf.stream_since [Std.TransOrd κ] [Std.LawfulEqOrd κ] {cluster after : Cluster μ ρ κ σ} {read : ClusterRead μ ρ κ σ}
    {result : Opened Unit κ σ × μ} (h : DownloadOf f held horizon cluster after read result)
    (hkeyed : ∀ index, (held index cluster.world).Keyed) {source : Nat × Feed κ σ}
    (hmem : source ∈ feedsOf result.1) :
    Entry.Ascending (streamOf read.started after.world source).delivered ∧
      ((streamOf read.started after.world source).fails = false →
        (streamOf read.started after.world source).delivered =
          (held source.1 cluster.world).since f horizon) := by
  obtain ⟨hbeginning, hwhole⟩ := h.delivers source hmem
  obtain ⟨hshorter, hclean⟩ := Feed.delivered_interrupted
    (interruptionAt read.started after.world source.1) 0 source.2
  refine ⟨?_, fun hnever => ?_⟩
  · exact ((hkeyed source.1).ascending_since f horizon).sublist (hshorter.trans hbeginning).sublist
  · obtain ⟨hfails, hsame⟩ := hclean hnever
    exact hsame.trans (hwhole hfails)

theorem DownloadOf.stream [Std.TransOrd κ] [Std.LawfulEqOrd κ] (hf : f.Lawful)
    {cluster after : Cluster μ ρ κ σ} {read : ClusterRead μ ρ κ σ} {result : Opened Unit κ σ × μ}
    (h : DownloadOf f held 0 cluster after read result)
    (hkeyed : ∀ index, (held index cluster.world).Keyed) {source : Nat × Feed κ σ}
    (hmem : source ∈ feedsOf result.1) :
    Entry.Ascending (streamOf read.started after.world source).delivered ∧
      ((streamOf read.started after.world source).fails = false →
        (streamOf read.started after.world source).delivered = (held source.1 cluster.world).entries) := by
  rw [← MapStore.since_zero hf]
  exact h.stream_since hkeyed hmem

/-- If each feed that a download opened is read to its end, what their partitions have since the horizon is
merged. -/
theorem DownloadOf.yields_since [Std.TransOrd κ] [Std.LawfulEqOrd κ]
    {cluster after : Cluster μ ρ κ σ} {read : ClusterRead μ ρ κ σ} {result : Opened Unit κ σ × μ}
    (h : DownloadOf f held horizon cluster after read result)
    (hkeyed : ∀ index, (held index cluster.world).Keyed)
    (hwhole : ∀ source ∈ result.1.sources,
      (streamOf cluster.topology result.2 (source.1, source.2.1)).fails = false) :
    ∃ out, Merge.FanIn cluster.function
        ((feedsOf result.1).map fun source => (held source.1 cluster.world).since f horizon) out ∧
      Yields read after (out.map .ok) := by
  obtain ⟨membership, rfl⟩ := h.setting
  have hclean : ∀ source ∈ feedsOf result.1, (streamOf read.started result.2 source).fails = false := by
    rintro ⟨index, feed⟩ hsource
    obtain ⟨receipt, hmem⟩ := mem_feedsOf.mp hsource
    rw [h.started]
    exact hwhole _ hmem
  have hlists : (feedsOf result.1).map (fun source => (held source.1 cluster.world).since f horizon) =
      (feedsOf result.1).map fun source => (streamOf read.started result.2 source).delivered :=
    List.map_congr_left fun source hmem => ((h.stream_since hkeyed hmem).2 (hclean source hmem)).symm
  have hlost : ∀ index ∈ lostTo read.started result.2 (feedsOf result.1) (missing cluster.topology result.1),
      index ∈ missing cluster.topology result.1 := by
    intro index hlost
    rcases mem_lostTo.mp hlost with hmissing | ⟨source, hsource, -, hfails⟩
    · exact hmissing
    · rw [hclean source hsource] at hfails
      contradiction
  have hvalid : cluster.isValidWithout read.started (missing cluster.topology result.1) = true :=
    h.started ▸ h.valid
  obtain ⟨out, hfanIn, hverdict⟩ := yields_ofFeeds h.merge
    (fun source hmem => (h.stream_since hkeyed hmem).1) hvalid
  have hstill : cluster.isValidWithout read.started (lostTo read.started result.2 (feedsOf result.1)
      (missing cluster.topology result.1)) = true := PartitionScheme.isReadValid_anti _ hlost hvalid
  split at hverdict
  next => exact ⟨out, hlists ▸ hfanIn, hverdict⟩
  next hinvalid => exact absurd hstill hinvalid

theorem DownloadOf.yields [Std.TransOrd κ] [Std.LawfulEqOrd κ] (hf : f.Lawful)
    {cluster after : Cluster μ ρ κ σ} {read : ClusterRead μ ρ κ σ} {result : Opened Unit κ σ × μ}
    (h : DownloadOf f held 0 cluster after read result)
    (hkeyed : ∀ index, (held index cluster.world).Keyed)
    (hwhole : ∀ source ∈ result.1.sources,
      (streamOf cluster.topology result.2 (source.1, source.2.1)).fails = false) :
    ∃ out, Merge.FanIn cluster.function
        ((feedsOf result.1).map fun source => (held source.1 cluster.world).entries) out ∧
      Yields read after (out.map .ok) := by
  obtain ⟨out, hfanIn, hyields⟩ := h.yields_since hkeyed hwhole
  simp only [MapStore.since_zero hf] at hfanIn
  exact ⟨out, hfanIn, hyields⟩

/-- All partitions are alive, and a download from the horizon on opens each of them and reads it to its end. -/
structure ReadsSince (horizon : UInt64) (order : List Nat → List Nat) (cluster : Cluster μ ρ κ σ) : Prop where
  alive : ∀ index < cluster.topology.scheme.size, cluster.topology.isAliveAt index = true
  opened : (cluster.opening (requestDownload horizon) order).1.failed.isEmpty = true
  read : ∀ source ∈ (cluster.opening (requestDownload horizon) order).1.sources,
    (streamOf cluster.topology (cluster.opening (requestDownload horizon) order).2
      (source.1, source.2.1)).fails = false

namespace ReadsSince

variable {cluster : Cluster μ ρ κ σ}

omit [Ord κ] in
private theorem not_mem_dead (h : cluster.ReadsSince horizon order) (index : Nat) :
    index ∉ cluster.topology.deadIndices := by
  intro hdead
  have hmem := List.contains_iff_mem.mp (Std.TreeSet.mem_ofList.mp hdead)
  obtain ⟨hrange, hnot⟩ := List.mem_filter.mp hmem
  rw [h.alive index (List.mem_range.mp hrange)] at hnot
  contradiction

omit [Ord κ] in
private theorem not_mem_missing (h : cluster.ReadsSince horizon order) (index : Nat) :
    index ∉ missing cluster.topology (cluster.opening (requestDownload horizon) order).1 := by
  intro hmissing
  rcases IndexSet.mem_insertAll.mp hmissing with hfailed | hdead
  · exact Std.TreeSet.not_mem_of_isEmpty h.opened (Std.TreeSet.mem_toList.mp hfailed)
  · exact h.not_mem_dead index hdead

omit [Ord κ] in
private theorem exists_downloadIn {hash : PartitionId → UInt32}
    (hwell : cluster.topology.scheme.WellFormed hash) (h : cluster.ReadsSince horizon order) :
    ∃ read after, cluster.downloadIn order horizon = (.ok read, after) := by
  have hdead : cluster.isValidWithout cluster.topology cluster.topology.deadIndices = true :=
    PartitionScheme.isReadValid_of_healthy hwell _ h.not_mem_dead
  have hvalid : cluster.isValidWithout cluster.topology
      (missing cluster.topology (cluster.opening (requestDownload horizon) order).1) = true :=
    PartitionScheme.isReadValid_of_healthy hwell _ h.not_mem_missing
  let counted := cluster.count fun s => { s with downloads := s.downloads + 1 }
  have hready : counted.isValidWithout counted.topology counted.topology.deadIndices = true := hdead
  have hstill : counted.isValidWithout counted.topology
      (missing counted.topology (counted.opening (requestDownload horizon) order).1) = true := hvalid
  obtain ⟨item, after, hopen⟩ := exists_openRead .download (fun _ _ world => world) hready hstill
  refine ⟨item.1, after, ?_⟩
  unfold downloadIn
  rw [hopen]
  rfl

omit [Ord κ] in
private theorem mem_opened (horder : ∀ indices, (order indices).Perm indices)
    (h : cluster.ReadsSince horizon order) (index : Nat) :
    index ∈ (feedsOf (cluster.opening (requestDownload horizon) order).1).map Prod.fst ↔
      index < cluster.topology.scheme.size := by
  have hopening := openPartitions_opening (requestDownload horizon) cluster.topology.scheme
    (order cluster.topology.aliveIndices) cluster.world
  constructor
  · intro hmem
    obtain ⟨⟨position, feed⟩, hsource, rfl⟩ := List.mem_map.mp hmem
    obtain ⟨receipt, hopened⟩ := mem_feedsOf.mp hsource
    have halive := hopening.positions.subset (List.mem_map_of_mem hopened)
    exact List.mem_range.mp (List.mem_of_mem_filter ((horder _).mem_iff.mp halive))
  · intro hindex
    have halive : index ∈ cluster.topology.aliveIndices :=
      List.mem_filter.mpr ⟨List.mem_range.mpr hindex, h.alive index hindex⟩
    rcases hopening.mem_or_mem ((horder _).mem_iff.mpr halive) with hfailed | ⟨⟨feed, receipt⟩, hopened⟩
    · exact absurd hfailed (Std.TreeSet.not_mem_of_isEmpty h.opened)
    · exact List.mem_map_of_mem (mem_feedsOf.mpr ⟨receipt, hopened⟩)

theorem yields [Std.TransOrd κ] [Std.LawfulEqOrd κ] {hash : PartitionId → UInt32}
    (hwell : cluster.topology.scheme.WellFormed hash)
    (hmaps : KeepsMaps f cluster.topology.scheme.clientAt? held)
    (hkeyed : ∀ index, (held index cluster.world).Keyed)
    (horder : ∀ indices, (order indices).Perm indices) (h : cluster.ReadsSince horizon order) :
    ∃ read after out, ∃ indices : List Nat, cluster.downloadIn order horizon = (.ok read, after) ∧
      (∀ index, index ∈ indices ↔ index < cluster.topology.scheme.size) ∧
      Merge.FanIn cluster.function
        (indices.map fun index => (held index cluster.world).since f horizon) out ∧
      Yields read after (out.map .ok) := by
  obtain ⟨read, after, hopen⟩ := h.exists_downloadIn hwell
  have hdownload := downloadOf_of_ok hmaps horder hopen
  obtain ⟨out, hfanIn, hyields⟩ := hdownload.yields_since hkeyed h.read
  refine ⟨read, after, out, _, hopen, h.mem_opened horder, ?_, hyields⟩
  rw [List.map_map]
  exact hfanIn

end ReadsSince

/-- All partitions are alive, and a download of everything opens each of them and reads it to its end. -/
def ReadsWhole (order : List Nat → List Nat) (cluster : Cluster μ ρ κ σ) : Prop :=
  cluster.ReadsSince 0 order

namespace ReadsWhole

variable {cluster : Cluster μ ρ κ σ}

theorem yields [Std.TransOrd κ] [Std.LawfulEqOrd κ] {hash : PartitionId → UInt32}
    (hwell : cluster.topology.scheme.WellFormed hash) (hf : f.Lawful)
    (hmaps : KeepsMaps f cluster.topology.scheme.clientAt? held)
    (hkeyed : ∀ index, (held index cluster.world).Keyed)
    (horder : ∀ indices, (order indices).Perm indices) (h : cluster.ReadsWhole order) :
    ∃ read after out, ∃ indices : List Nat, cluster.downloadIn order 0 = (.ok read, after) ∧
      (∀ index < cluster.topology.scheme.size, index ∈ indices) ∧
      Merge.FanIn cluster.function (indices.map fun index => (held index cluster.world).entries) out ∧
      Yields read after (out.map .ok) := by
  obtain ⟨read, after, out, indices, hopen, hindices, hfanIn, hyields⟩ :=
    ReadsSince.yields hwell hmaps hkeyed horder h
  simp only [MapStore.since_zero hf] at hfanIn
  exact ⟨read, after, out, indices, hopen, fun index hindex => (hindices index).mpr hindex, hfanIn, hyields⟩

end ReadsWhole

end Downloads

end ReplicatedStore.Cluster
