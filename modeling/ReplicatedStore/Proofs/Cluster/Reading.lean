import ReplicatedStore.Cluster.Read
import ReplicatedStore.Proofs.Cluster.Durability
import ReplicatedStore.Proofs.Cluster.FanIn
import ReplicatedStore.Proofs.Routing.Scheme
/-!
# What a read of a cluster yields

The polls of a read find what the feeds of its partitions merge into, while the read is valid without the
partitions that are lost to it. Whether it stays so depends on which partitions those are, and not on when
or in which order their failures are found.
-/

namespace ReplicatedStore.Cluster

variable {μ ρ κ σ : Type} [Ord κ]

/-- What the polls of a read find, one after the other. -/
def poll (read : ClusterRead μ ρ κ σ) (cluster : Cluster μ ρ κ σ) :
    Nat → Option (Except ClusterError (Entry κ σ))
  | 0 => (next read cluster).1
  | count + 1 => poll (next read cluster).2.1 (next read cluster).2.2 count

/-- The polls of a read find some items, and nothing after them. -/
def Yields (read : ClusterRead μ ρ κ σ) (cluster : Cluster μ ρ κ σ)
    (items : List (Except ClusterError (Entry κ σ))) : Prop :=
  ∀ count, poll read cluster count = items[count]?

def itemOf (read : ClusterRead μ ρ κ σ) :
    MergeStep κ σ × IndexSet × Merge κ σ → Option (Except ClusterError (Entry κ σ))
  | (.entry entry, _, _) => some (.ok entry)
  | (.ended, _, _) => none
  | (.invalid, _, after) => some (.error (readFailed read.kind read.started after.unhealthy))

omit [Ord κ] in
private theorem countFailedRead_eq (kind : ReadKind) (cluster : Cluster μ ρ κ σ) :
    ∃ membership, cluster.countFailedRead kind = { cluster with membership } := by
  cases kind with
  | download => exact ⟨_, rfl⟩
  | take => exact ⟨_, rfl⟩

theorem next_eq (read : ClusterRead μ ρ κ σ) (cluster : Cluster μ ρ κ σ) :
    ∃ step membership,
      step = read.merge.next cluster.function (cluster.isValidWithout read.started)
        (interruptionAt read.started cluster.world) ∧
      next read cluster =
        (itemOf read step, { read with merge := step.2.2 }, { cluster with membership }) := by
  unfold next
  generalize read.merge.next cluster.function (cluster.isValidWithout read.started)
    (interruptionAt read.started cluster.world) = result
  obtain ⟨step, failures, after⟩ := result
  cases step with
  | entry => exact ⟨_, _, rfl, rfl⟩
  | ended => exact ⟨_, _, rfl, rfl⟩
  | invalid =>
    obtain ⟨membership, hcount⟩ :=
      countFailedRead_eq read.kind (cluster.recordFailures read.started failures).2
    refine ⟨_, membership, rfl, ?_⟩
    dsimp only
    rw [hcount]
    rfl

theorem world_next (read : ClusterRead μ ρ κ σ) (cluster : Cluster μ ρ κ σ) :
    (next read cluster).2.2.world = cluster.world := by
  obtain ⟨step, membership, -, hnext⟩ := next_eq read cluster
  rw [hnext]

namespace Yields

variable {read next : ClusterRead μ ρ κ σ} {cluster after : Cluster μ ρ κ σ}

private theorem cons {item : Except ClusterError (Entry κ σ)}
    {items : List (Except ClusterError (Entry κ σ))}
    (hitem : Cluster.next read cluster = (some item, next, after)) (h : Yields next after items) :
    Yields read cluster (item :: items) := by
  intro count
  cases count with
  | zero => rw [poll, hitem, List.getElem?_cons_zero]
  | succ count =>
    rw [poll, hitem, List.getElem?_cons_succ]
    exact h count

private theorem of_isOver (hover : ∀ source ∈ read.merge.sources, source.isOver) :
    Yields read cluster [] := by
  intro count
  induction count generalizing read cluster with
  | zero =>
    obtain ⟨⟨step, failures, left⟩, membership, hstep, hnext⟩ := next_eq read cluster
    obtain ⟨hended, -⟩ := Merge.next_of_isOver cluster.function
      (cluster.isValidWithout read.started) (interruptionAt read.started cluster.world) hover
    rw [← hstep] at hended
    cases hended
    rw [poll, hnext]
    rfl
  | succ count ih =>
    obtain ⟨step, membership, hstep, hnext⟩ := next_eq read cluster
    obtain ⟨-, hstill⟩ := Merge.next_of_isOver cluster.function
      (cluster.isValidWithout read.started) (interruptionAt read.started cluster.world) hover
    rw [← hstep] at hstill
    rw [poll, hnext]
    exact ih hstill

private theorem of_ended (hended : Cluster.next read cluster = (none, next, after))
    (hover : ∀ source ∈ next.merge.sources, source.isOver) : Yields read cluster [] := by
  intro count
  cases count with
  | zero => rw [poll, hended, List.getElem?_nil]
  | succ count =>
    rw [poll, hended]
    exact of_isOver hover count

end Yields

section Validity

omit [Ord κ] in
private theorem isValidWithout_anti (cluster : Cluster μ ρ κ σ) (started : Topology (Store μ ρ κ σ))
    (fewer more : IndexSet) (hsub : ∀ index ∈ fewer, index ∈ more)
    (h : cluster.isValidWithout started more = true) : cluster.isValidWithout started fewer = true :=
  PartitionScheme.isReadValid_anti _ hsub h

variable [Std.TransOrd κ] [Std.LawfulEqOrd κ] {read : ClusterRead μ ρ κ σ} {cluster : Cluster μ ρ κ σ}
  {merged : List (Entry κ σ)} {lost : IndexSet}

private theorem next_of_delivers
    (h : read.merge.Delivers cluster.function (interruptionAt read.started cluster.world) merged)
    (hvalid : cluster.isValidWithout read.started read.merge.unhealthy = true) :
    ∃ step membership,
      read.merge.Stepped cluster.function (cluster.isValidWithout read.started)
        (interruptionAt read.started cluster.world) merged step ∧
      next read cluster =
        (itemOf read step, { read with merge := step.2.2 }, { cluster with membership }) := by
  obtain ⟨step, membership, rfl, hnext⟩ := next_eq read cluster
  exact ⟨_, membership, Merge.next_stepped (isValidWithout_anti cluster read.started) h hvalid, hnext⟩

/-- A read that is valid without all partitions it loses yields what is delivered, and ends. -/
theorem Yields.of_valid
    (h : read.merge.Delivers cluster.function (interruptionAt read.started cluster.world) merged)
    (hlost : ∀ index, read.merge.Lost (interruptionAt read.started cluster.world) index → index ∈ lost)
    (hvalid : cluster.isValidWithout read.started lost = true) :
    Yields read cluster (merged.map .ok) := by
  induction merged generalizing read cluster with
  | nil =>
    have hcurrent := isValidWithout_anti cluster read.started read.merge.unhealthy lost
      (fun index hmem => hlost index (.inl hmem)) hvalid
    obtain ⟨step, membership, hstep, hnext⟩ := next_of_delivers h hcurrent
    cases hstep with
    | ended hover => exact of_ended hnext hover
    | invalid _ hinvalid hbad =>
      have hstill := isValidWithout_anti cluster read.started _ lost
        (fun index hmem => hlost index (hbad index hmem)) hvalid
      rw [hstill] at hinvalid
      contradiction
  | cons first rest ih =>
    have hcurrent := isValidWithout_anti cluster read.started read.merge.unhealthy lost
      (fun index hmem => hlost index (.inl hmem)) hvalid
    obtain ⟨step, membership, hstep, hnext⟩ := next_of_delivers h hcurrent
    cases hstep with
    | entry hafter _ hsame =>
      exact cons hnext (ih hafter (fun index hmem => hlost index ((hsame index).mp hmem)) hvalid)
    | invalid _ hinvalid hbad =>
      have hstill := isValidWithout_anti cluster read.started _ lost
        (fun index hmem => hlost index (hbad index hmem)) hvalid
      rw [hstill] at hinvalid
      contradiction

/-- A read that is not valid without all partitions it loses yields some of what is delivered, then the
error that it is not valid without some of them, and ends. -/
theorem Yields.of_invalid
    (h : read.merge.Delivers cluster.function (interruptionAt read.started cluster.world) merged)
    (hcurrent : cluster.isValidWithout read.started read.merge.unhealthy = true)
    (hlost : ∀ index ∈ lost, read.merge.Lost (interruptionAt read.started cluster.world) index)
    (hinvalid : cluster.isValidWithout read.started lost = false) :
    ∃ (before : List (Entry κ σ)) (bad : IndexSet), before <+: merged ∧
      (∀ index ∈ bad, read.merge.Lost (interruptionAt read.started cluster.world) index) ∧
      cluster.isValidWithout read.started bad = false ∧
      Yields read cluster (before.map .ok ++ [.error (readFailed read.kind read.started bad)]) := by
  induction merged generalizing read cluster with
  | nil =>
    obtain ⟨step, membership, hstep, hnext⟩ := next_of_delivers h hcurrent
    cases hstep with
    | ended hover hstill hall =>
      have hvalid := isValidWithout_anti cluster read.started lost _
        (fun index hmem => hall index (hlost index hmem)) hstill
      rw [hvalid] at hinvalid
      contradiction
    | invalid hover hbad hsub =>
      exact ⟨[], _, List.nil_prefix, hsub, hbad, cons hnext (of_isOver hover)⟩
  | cons first rest ih =>
    obtain ⟨step, membership, hstep, hnext⟩ := next_of_delivers h hcurrent
    cases hstep with
    | @entry _ _ failures after hafter hstill hsame =>
      obtain ⟨before, bad, hbefore, hsub, hbad, hrest⟩ :=
        @ih { read with merge := after } { cluster with membership } hafter hstill
          (fun index hmem => (hsame index).mpr (hlost index hmem)) hinvalid
      exact ⟨first :: before, bad, (List.prefix_cons_inj first).mpr hbefore,
        fun index hmem => (hsame index).mp (hsub index hmem), hbad, cons hnext hrest⟩
    | invalid hover hbad hsub =>
      exact ⟨[], _, List.nil_prefix, hsub, hbad, cons hnext (of_isOver hover)⟩

end Validity

section Streams

omit [Ord κ]

/-- What the polls of a partition's feed find, if it is polled to its end. -/
def streamOf (started : Topology (Store μ ρ κ σ)) (world : μ) (source : Nat × Feed κ σ) : Feed κ σ :=
  source.2.interrupted (interruptionAt started world source.1) 0

/-- The partitions that a read will have done without: those that are unhealthy, and those whose feeds
fail. -/
def lostTo (started : Topology (Store μ ρ κ σ)) (world : μ) (sources : List (Nat × Feed κ σ))
    (unhealthy : IndexSet) : IndexSet :=
  unhealthy.insertAll
    ((sources.filter fun source => (streamOf started world source).fails).map Prod.fst)

variable {started : Topology (Store μ ρ κ σ)} {world : μ} {sources : List (Nat × Feed κ σ)}
  {unhealthy : IndexSet} {index : Nat}

theorem mem_lostTo : index ∈ lostTo started world sources unhealthy ↔
    index ∈ unhealthy ∨
      ∃ source ∈ sources, source.1 = index ∧ (streamOf started world source).fails = true := by
  rw [lostTo, IndexSet.mem_insertAll, or_comm]
  simp only [List.mem_map, List.mem_filter, and_assoc]
  simp only [and_comm]

private theorem lost_ofFeeds :
    (Merge.ofFeeds sources unhealthy).Lost (interruptionAt started world) index ↔
      index ∈ lostTo started world sources unhealthy := by
  rw [mem_lostTo]
  simp only [Merge.Lost, Merge.ofFeeds, List.mem_map, exists_exists_and_eq_and]
  rfl

private theorem delivers_ofFeeds [Ord κ] {f : MergeFunction σ} {merged : List (Entry κ σ)}
    (hascending : ∀ source ∈ sources, Entry.Ascending (streamOf started world source).delivered)
    (h : Merge.FanIn f (sources.map fun source => (streamOf started world source).delivered) merged) :
    (Merge.ofFeeds sources unhealthy).Delivers f (interruptionAt started world) merged := by
  have hentries : (Merge.ofFeeds sources unhealthy).sources.map
      (MergeSource.entries (interruptionAt started world)) =
      sources.map fun source => (streamOf started world source).delivered := by
    rw [Merge.ofFeeds, List.map_map]
    rfl
  refine ⟨?_, hentries ▸ h⟩
  rw [hentries]
  intro list hmem
  obtain ⟨source, hsource, rfl⟩ := List.mem_map.mp hmem
  exact hascending source hsource

private theorem byPosition_eq {α : Type} {opened sources : List (Nat × α)}
    (hopened : opened.Perm sources) (hsources : sources.Pairwise fun a b => a.1 < b.1) :
    byPosition opened = sources := by
  have hsorted : (byPosition opened).Pairwise fun a b => a.1 ≤ b.1 := by
    refine List.Pairwise.imp ?_ (List.pairwise_mergeSort (fun a b c => ?_) (fun a b => ?_) opened)
    · exact of_decide_eq_true
    · simpa using Nat.le_trans
    · simpa using Nat.le_total a.1 b.1
  have hperm : (byPosition opened).Perm sources := (List.mergeSort_perm ..).trans hopened
  have hdistinct : (sources.map Prod.fst).Nodup := by
    refine List.pairwise_map.mpr (hsources.imp fun {a b} hlt => ?_)
    exact Nat.ne_of_lt hlt
  refine hperm.eq_of_pairwise ?_ hsorted (hsources.imp Nat.le_of_lt)
  intro a b ha hb hab hba
  exact List.inj_on_of_nodup_map hdistinct (hperm.subset ha) hb (Nat.le_antisymm hab hba)

end Streams

section Verdict

variable [Std.TransOrd κ] [Std.LawfulEqOrd κ] {read : ClusterRead μ ρ κ σ} {cluster : Cluster μ ρ κ σ}
  {sources : List (Nat × Feed κ σ)} {unhealthy : IndexSet}

/-- What a read of some feeds yields, by whether it is valid without all that it loses. -/
theorem yields_ofFeeds (hmerge : read.merge = .ofFeeds sources unhealthy)
    (hascending : ∀ source ∈ sources,
      Entry.Ascending (streamOf read.started cluster.world source).delivered)
    (hvalid : cluster.isValidWithout read.started unhealthy = true) :
    ∃ merged,
      Merge.FanIn cluster.function
        (sources.map fun source => (streamOf read.started cluster.world source).delivered) merged ∧
      if cluster.isValidWithout read.started
          (lostTo read.started cluster.world sources unhealthy) = true then
        Yields read cluster (merged.map .ok)
      else
        ∃ (before : List (Entry κ σ)) (bad : IndexSet), before <+: merged ∧
          (∀ index ∈ bad, index ∈ lostTo read.started cluster.world sources unhealthy) ∧
          cluster.isValidWithout read.started bad = false ∧
          Yields read cluster (before.map .ok ++ [.error (readFailed read.kind read.started bad)]) := by
  have hlists : ∀ list ∈ sources.map fun source =>
      (streamOf read.started cluster.world source).delivered, Entry.Ascending list := by
    intro list hmem
    obtain ⟨source, hsource, rfl⟩ := List.mem_map.mp hmem
    exact hascending source hsource
  have hfanIn := Merge.FanIn.ofAscending cluster.function hlists
  have hdelivers : (Merge.ofFeeds sources unhealthy).Delivers cluster.function
      (interruptionAt read.started cluster.world) _ := delivers_ofFeeds hascending hfanIn
  have hlost : ∀ index, read.merge.Lost (interruptionAt read.started cluster.world) index ↔
      index ∈ lostTo read.started cluster.world sources unhealthy := by
    intro index
    rw [hmerge, lost_ofFeeds]
  rw [← hmerge] at hdelivers
  refine ⟨_, hfanIn, ?_⟩
  split
  next hstill => exact Yields.of_valid hdelivers (fun index => (hlost index).mp) hstill
  next hinvalid =>
    have hcurrent : cluster.isValidWithout read.started read.merge.unhealthy = true := by
      rw [hmerge]
      exact hvalid
    obtain ⟨before, bad, hbefore, hsub, hbad, hyields⟩ := Yields.of_invalid hdelivers hcurrent
      (fun index => (hlost index).mpr) (Bool.eq_false_iff.mpr hinvalid)
    exact ⟨before, bad, hbefore, fun index hmem => (hlost index).mp (hsub index hmem), hbad, hyields⟩

theorem fanIn_of_yields (hmerge : read.merge = .ofFeeds sources unhealthy)
    (hascending : ∀ source ∈ sources,
      Entry.Ascending (streamOf read.started cluster.world source).delivered)
    (hvalid : cluster.isValidWithout read.started unhealthy = true) {out : List (Entry κ σ)}
    (hyields : Yields read cluster (out.map .ok)) :
    Merge.FanIn cluster.function
      (sources.map fun source => (streamOf read.started cluster.world source).delivered) out ∧
    cluster.isValidWithout read.started
      (lostTo read.started cluster.world sources unhealthy) = true := by
  have hunique : ∀ items, Yields read cluster items → out.map .ok = items := fun items hitems =>
    List.ext_getElem? fun count => (hyields count).symm.trans (hitems count)
  obtain ⟨merged, hfanIn, hverdict⟩ := yields_ofFeeds hmerge hascending hvalid
  split at hverdict
  next hstill =>
    have hout := hunique _ hverdict
    have hsame : out = merged := by
      have hcollect := congrArg (List.filterMap Except.toOption) hout
      simpa [List.filterMap_map, Function.comp_def, Except.toOption] using hcollect
    exact ⟨hsame ▸ hfanIn, hstill⟩
  next =>
    obtain ⟨before, bad, -, -, -, herror⟩ := hverdict
    have hmem : .error (readFailed read.kind read.started bad) ∈ out.map Except.ok := by
      rw [hunique _ herror]
      simp
    obtain ⟨entry, -, heq⟩ := List.mem_map.mp hmem
    cases heq

/-- A read merges what its partitions deliver, if it is valid without all those that are unhealthy or
fail: it yields each key delivered once, in order, with the copies joined in the order of the partitions,
and ends. Otherwise it yields the beginning of that list, the error that it is not valid without some of
those partitions, and ends. -/
theorem yields_fanIn {opened : List (Nat × Feed κ σ)}
    (hmerge : read.merge = .ofFeeds (byPosition opened) unhealthy) (hopened : opened.Perm sources)
    (hsources : sources.Pairwise fun a b => a.1 < b.1)
    (hascending : ∀ source ∈ sources,
      Entry.Ascending (streamOf read.started cluster.world source).delivered)
    (hvalid : cluster.isValidWithout read.started unhealthy = true) :
    let stream := streamOf read.started cluster.world
    let lost := lostTo read.started cluster.world sources unhealthy
    ∃ merged,
      Merge.FanIn cluster.function (sources.map fun source => (stream source).delivered) merged ∧
      if cluster.isValidWithout read.started lost = true then Yields read cluster (merged.map .ok)
      else
        ∃ (before : List (Entry κ σ)) (bad : IndexSet), before <+: merged ∧
          (∀ index ∈ bad, index ∈ lost) ∧ cluster.isValidWithout read.started bad = false ∧
          Yields read cluster (before.map .ok ++ [.error (readFailed read.kind read.started bad)]) := by
  rw [byPosition_eq hopened hsources] at hmerge
  exact yields_ofFeeds hmerge hascending hvalid

end Verdict

/-- A read of three partitions goes on without the one that fails after its first entry. -/
theorem yields_fanIn_trio :
    let cluster := Trio.cluster { Faults.healthy with readAfter := some 1 }
    let opened : List (Nat × Feed UInt64 Nat) :=
      [(2, []), (0, .ofEntries [⟨1, 5, 7⟩, ⟨2, 5, 1⟩]), (1, .ofEntries [⟨1, 6, 9⟩, ⟨3, 6, 2⟩])]
    ∃ merged,
      Merge.FanIn Trio.function [[⟨1, 5, 7⟩, ⟨2, 5, 1⟩], [⟨1, 6, 9⟩], []] merged ∧
      Yields ⟨.download, cluster.topology, .ofFeeds (byPosition opened) ∅⟩ cluster (merged.map .ok) := by
  intro cluster opened
  let read : ClusterRead (Fleet (Node UInt64 Nat)) (List (UInt64 × Nat)) UInt64 Nat :=
    ⟨.download, cluster.topology, .ofFeeds (byPosition opened) ∅⟩
  have hmerge : read.merge = .ofFeeds (byPosition opened) ∅ := rfl
  have hopened : opened.Perm
      [(0, .ofEntries [⟨1, 5, 7⟩, ⟨2, 5, 1⟩]), (1, .ofEntries [⟨1, 6, 9⟩, ⟨3, 6, 2⟩]), (2, [])] := by
    exact (List.Perm.swap ..).trans ((List.Perm.swap ..).cons _)
  have hnone : cluster.isValidWithout read.started ∅ = true := by decide +kernel
  obtain ⟨merged, hfanIn, hyields⟩ :=
    yields_fanIn hmerge hopened (by decide) (by decide +kernel) hnone
  refine ⟨merged, hfanIn, ?_⟩
  rwa [if_pos (by decide +kernel)] at hyields

end ReplicatedStore.Cluster
