import ReplicatedStore.Proofs.Cluster.Evolution
import ReplicatedStore.Proofs.Cluster.Fleet
import ReplicatedStore.Proofs.Routing.Overlap
/-!
# Reads after writes

If the quorums of uploads and reads overlap, each read that ends without an error sees each write that
succeeded before it, whatever fails in between: some replica has taken the write and was read as a
whole.
-/

namespace ReplicatedStore

namespace Cluster

variable {μ ρ κ σ : Type} [Ord κ] {f : MergeFunction σ} {held : Nat → μ → MapStore κ σ}

/-- In some active group, a replica of each entry has taken it and is not lost to a valid read. -/
private theorem exists_replica [Fingerprint κ] {hash : PartitionId → UInt32}
    {cluster written : Cluster μ ρ κ σ} {alive : PartitionId → Bool} {entries : List (Entry κ σ)}
    {failed lost : IndexSet} {quorum : Quorum}
    (hwell : cluster.topology.scheme.WellFormed hash)
    (h : Replicated f held cluster written hash alive cluster.topology.scheme.groups entries failed)
    (hvalid : cluster.topology.scheme.isReadValid lost quorum = true) {entry : Entry κ σ}
    (hentry : entry ∈ entries)
    (hmeet : ∀ group ∈ cluster.topology.scheme.groups, group.active = true →
      group.QuorumsMeet hash alive cluster.options.uploadQuorum quorum (Bucket.ofHash (hash32 entry.key))) :
    ∃ index < cluster.topology.scheme.size, index ∉ lost ∧
      (held index written.world).Holds f entry := by
  obtain ⟨group, hgroup, hrelied, hread⟩ := (PartitionScheme.isReadValid_iff hwell lost quorum).mp hvalid
  have hactive := hrelied h.active
  have hwrite := (h.quorum entry hentry group hgroup hactive).2
  obtain ⟨partition, hroute, htaken, hfound⟩ := (PartitionScheme.quorumsMeet_iff hwell hgroup).mp
    (hmeet group hgroup hactive) failed lost
    ((PartitionScheme.bucketSatisfies_adapted_iff hwell hgroup alive failed _ _).mp (decide_eq_true hwrite))
    (hread _)
  obtain ⟨index, hindex, hget⟩ := PartitionScheme.exists_mem_replicaSet hwell hgroup hroute
  rw [PartitionScheme.isAt_of_getElem? hwell hget, IndexSet.contains_eq_false_iff] at htaken hfound
  exact ⟨index, hwell.lt_size hgroup hindex, hfound,
    h.holds entry hentry group hgroup hactive index hindex htaken⟩

variable [Std.TransOrd κ] [Std.LawfulEqOrd κ]

private theorem found_of_holds (hf : f.Lawful) {cluster after : Cluster μ ρ κ σ}
    {read : ClusterRead μ ρ κ σ} {result : Opened Unit κ σ × μ} {out : List (Entry κ σ)}
    (h : DownloadOf f held 0 cluster after read result)
    (hkeyed : ∀ index, (held index cluster.world).Keyed)
    (hfanIn : Merge.FanIn f
      ((feedsOf result.1).map fun source => (streamOf read.started after.world source).delivered) out)
    {index : Nat} (hindex : index < cluster.topology.scheme.size)
    (hhealthy : index ∉ lostTo read.started after.world (feedsOf result.1)
      (missing cluster.topology result.1)) {entry : Entry κ σ}
    (hholds : (held index cluster.world).Holds f entry) :
    ∃ found, out.filter (Entry.hasKey entry.key) = [found] ∧ found.Absorbs f entry := by
  rw [mem_lostTo] at hhealthy
  rcases h.complete index hindex with hunhealthy | ⟨feed, hsource⟩
  · exact absurd (.inl hunhealthy) hhealthy
  · have hclean : (streamOf read.started after.world (index, feed)).fails = false := by
      refine Bool.eq_false_iff.mpr fun hfails => hhealthy (.inr ⟨_, hsource, rfl, hfails⟩)
    have hwhole := (h.stream hf hkeyed hsource).2 hclean
    obtain ⟨copy, hget, hcopy⟩ := hholds
    have hlookup : Entry.lookup? entry.key
        (streamOf read.started after.world (index, feed)).delivered = some copy := by
      rw [hwhole, (hkeyed index).lookup?_entries]
      exact hget
    obtain ⟨found, hfound, habsorbs, -⟩ := hfanIn.absorbs hf (List.mem_map_of_mem hsource) hlookup
    refine ⟨found, ?_, habsorbs.trans hf.semilattice hcopy⟩
    rw [hfanIn.ascending.filter_hasKey, hfound, Option.toList_some]

private theorem exists_lost (hf : f.Lawful) {later opened : Cluster μ ρ κ σ} {order : List Nat → List Nat}
    {read : ClusterRead μ ρ κ σ} {out : List (Entry κ σ)}
    (hmaps : KeepsMaps f later.topology.scheme.clientAt? held) (hfunction : later.function = f)
    (hkeyed : ∀ index, (held index later.world).Keyed) (horder : ∀ indices, (order indices).Perm indices)
    (hopen : later.downloadIn order 0 = (.ok read, opened)) (hread : Yields read opened (out.map .ok)) :
    ∃ lost : IndexSet, later.topology.scheme.isReadValid lost later.options.downloadQuorum = true ∧
      ∀ index < later.topology.scheme.size, index ∉ lost → ∀ entry, (held index later.world).Holds f entry →
        ∃ found, out.filter (Entry.hasKey entry.key) = [found] ∧ found.Absorbs f entry := by
  have hdownload := downloadOf_of_ok hmaps horder hopen
  generalize later.opening (requestDownload 0) order = result at hdownload
  obtain ⟨membership, rfl⟩ := hdownload.setting
  obtain ⟨hfanIn, hvalid⟩ := fanIn_of_yields hdownload.merge
    (fun source hmem => (hdownload.stream hf hkeyed hmem).1) (hdownload.started ▸ hdownload.valid) hread
  rw [hfunction] at hfanIn
  refine ⟨_, hdownload.started ▸ hvalid, fun index hindex hhealthy entry hholds => ?_⟩
  exact found_of_holds hf hdownload hkeyed hfanIn hindex (hdownload.started ▸ hhealthy) hholds

/-- What an upload wrote is found later if the quorums of uploads and reads meet in its bucket. -/
theorem found_of_quorumsMeet [Fingerprint κ] {groups : List PartitionGroup}
    {client : Partition → Option (Store μ ρ κ σ)} {hash : PartitionId → UInt32}
    {scheme : PartitionScheme (Store μ ρ κ σ)} {alive : List PartitionId}
    {cluster written later opened : Cluster μ ρ κ σ}
    {interleaving : Interleaving} {source : Feed κ σ} {order : List Nat → List Nat}
    {read : ClusterRead μ ρ κ σ} {out : List (Entry κ σ)}
    (hscheme : PartitionScheme.create groups client hash = .ok scheme)
    (hf : f.Lawful) (hmaps : KeepsMaps f scheme.clientAt? held)
    (hreached : ∀ index, (held index cluster.world).Reached f) (hfunction : cluster.function = f)
    (htopology : cluster.topology = .ofAlive scheme alive)
    (hupload : cluster.uploadWith interleaving source = (.ok (), written))
    (hrun : Run scheme f held written later) (horder : ∀ indices, (order indices).Perm indices)
    (hopen : later.downloadIn order 0 = (.ok read, opened)) (hread : Yields read opened (out.map .ok))
    {entry : Entry κ σ} (hentry : .ok entry ∈ source)
    (hmeet : ∀ group ∈ groups, group.active = true →
      group.QuorumsMeet hash alive.contains cluster.options.uploadQuorum cluster.options.downloadQuorum
        (Bucket.ofHash (hash32 entry.key))) :
    ∃ found, out.filter (Entry.hasKey entry.key) = [found] ∧ found.Absorbs f entry := by
  have hkeyed : ∀ index, (held index cluster.world).Keyed := fun index => (hreached index).keyed
  have hfollows : cluster.membership.Follows scheme := ⟨alive, htopology⟩
  have hevolved : Evolved scheme f held cluster written := by
    have hsame : (cluster.uploadWith interleaving source).2 = written := by rw [hupload]
    exact hsame ▸ evolved_uploadWith hmaps hfollows interleaving source
  have hlater := hrun.evolved hmaps hevolved.follows
  obtain ⟨entries, failed, rfl, hreplicated⟩ :=
    replicated_of_ok hf hmaps hkeyed hscheme htopology hupload
  obtain rfl := scheme_of_follows hfollows
  obtain ⟨hwell, rfl, -⟩ := PartitionScheme.wellFormed_of_create hscheme
  have hstarted := scheme_of_follows hlater.follows
  obtain ⟨lost, hvalid, hfound⟩ := exists_lost hf (hstarted ▸ hmaps)
    ((hlater.function.trans hevolved.function).trans hfunction)
    ((hevolved.grown.trans hlater.grown).keyed hkeyed) horder hopen hread
  rw [hstarted, hlater.options, hevolved.options] at hvalid
  obtain ⟨index, hindex, hhealthy, hholds⟩ := exists_replica hwell hreplicated hvalid
    (Feed.mem_ofEntries.mp hentry) hmeet
  refine hfound index (hstarted ▸ hindex) hhealthy entry ?_
  exact hlater.grown.holds hf (hevolved.grown.keyed hkeyed) hholds

/-- Let an upload succeed, and let a read end without an error later, on the same scheme and before any
take was committed. If no active group moves its keys, and the quorums of uploads and reads overlap in each
of them, then the read yields each key uploaded once, with all that was uploaded for it. -/
theorem read_after_write [Fingerprint κ] {groups : List PartitionGroup}
    {client : Partition → Option (Store μ ρ κ σ)} {hash : PartitionId → UInt32}
    {scheme : PartitionScheme (Store μ ρ κ σ)} {cluster written later opened : Cluster μ ρ κ σ}
    {interleaving : Interleaving} {source : Feed κ σ} {order : List Nat → List Nat}
    {read : ClusterRead μ ρ κ σ} {out : List (Entry κ σ)}
    (hscheme : PartitionScheme.create groups client hash = .ok scheme)
    (hrepartition : ∀ group ∈ groups, group.active = true → group.repartition = false)
    (hquorum : ∀ group ∈ groups, group.active = true →
      group.replicaCount < cluster.options.uploadQuorum.required group.replicaCount +
        cluster.options.downloadQuorum.required group.replicaCount)
    (hf : f.Lawful) (hmaps : KeepsMaps f scheme.clientAt? held)
    (hreached : ∀ index, (held index cluster.world).Reached f) (hfunction : cluster.function = f)
    (hfollows : cluster.membership.Follows scheme)
    (hupload : cluster.uploadWith interleaving source = (.ok (), written))
    (hrun : Run scheme f held written later) (horder : ∀ indices, (order indices).Perm indices)
    (hopen : later.downloadIn order 0 = (.ok read, opened)) (hread : Yields read opened (out.map .ok)) :
    ∀ entry, .ok entry ∈ source →
      ∃ found, out.filter (Entry.hasKey entry.key) = [found] ∧ found.Absorbs f entry := by
  intro entry hentry
  obtain ⟨alive, htopology⟩ := hfollows
  refine found_of_quorumsMeet hscheme hf hmaps hreached hfunction htopology hupload hrun horder hopen hread
    hentry fun group hgroup hactive => ?_
  have hfixed := hrepartition group hgroup hactive
  exact PartitionGroup.quorumsMeet_of_moved_eq_zero (PartitionGroup.moved_of_not_repartition hfixed)
    (hquorum group hgroup hactive)

/-- A partition that refused an upload and was revived since does not hide what the others took. -/
theorem read_after_write_trio :
    let cluster := Trio.cluster { Faults.healthy with upload := true }
    let later := (cluster.uploadWith .patient (.ofEntries [⟨1, 5, 7⟩])).2.reviveDead.2
    ∃ read opened, ∃ out : List (Entry UInt64 Nat), later.downloadIn id 0 = (.ok read, opened) ∧
      Yields read opened (out.map .ok) ∧
      ∃ found, out.filter (Entry.hasKey 1) = [found] ∧ found.Absorbs Trio.function ⟨1, 5, 7⟩ := by
  intro cluster later
  have hreached : ∀ index, (Fleet.heldAt Trio.names index cluster.world).Reached Trio.function := by
    intro index
    rw [Trio.heldAt_eq_empty]
    exact .empty
  have hquorum : ∀ group ∈ [Trio.group], group.active = true →
      group.replicaCount < Quorum.majority.required group.replicaCount +
        Quorum.majority.required group.replicaCount := by
    intro group hgroup _
    have hcount : Trio.group.replicaCount = 3 := by
      rw [PartitionGroup.replicaCount, Trio.sortedDistinct_members]
      rfl
    rw [List.mem_singleton.mp hgroup, hcount]
    exact Quorum.lt_required_majority (by decide)
  have hfollows : cluster.membership.Follows Trio.scheme := ⟨_, rfl⟩
  have hupload := eq_ok_of_isOk
    (by decide +kernel : (cluster.uploadWith .patient (.ofEntries [⟨1, 5, 7⟩])).1.isOk = true)
  have hwritten := evolved_uploadWith Trio.keepsMaps hfollows .patient (.ofEntries [⟨1, 5, 7⟩])
  have hrevived := Step.revive.evolved Trio.keepsMaps hwritten.follows
  have hscheme : later.topology.scheme = Trio.scheme := scheme_of_follows hrevived.follows
  obtain ⟨hwell, -, -⟩ := PartitionScheme.wellFormed_of_create Trio.create_eq
  have hwhole : later.ReadsWhole id := by
    constructor <;> decide +kernel
  have hmaps := Trio.keepsMaps
  rw [← hscheme] at hwell hmaps
  obtain ⟨read, opened, out, -, hopen, -, -, hyields⟩ := hwhole.yields hwell Trio.lawful hmaps
    ((hwritten.trans hrevived).grown.keyed fun index => (hreached index).keyed)
    fun indices => .refl indices
  refine ⟨read, opened, out, hopen, hyields, ?_⟩
  exact read_after_write Trio.create_eq (by decide) hquorum Trio.lawful Trio.keepsMaps hreached rfl
    hfollows hupload (.single .revive) (fun indices => .refl indices) hopen hyields ⟨1, 5, 7⟩
    (List.mem_singleton_self _)

end Cluster

end ReplicatedStore
