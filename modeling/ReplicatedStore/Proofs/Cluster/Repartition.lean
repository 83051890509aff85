import ReplicatedStore.Proofs.Cluster.ReadAfterWrite
/-!
# Reads after writes that moved

While members of a group are dead, its keys may move to those that are alive, and an upload needs a quorum
among these alone. A read relies on the owners that a key has while all are alive. So what was written while
many were dead may be missed by a read that ends without an error after they came back, and what was written
while few were dead is found.
-/

namespace ReplicatedStore.Cluster

variable {μ ρ κ σ : Type} [Ord κ] [Std.TransOrd κ] [Std.LawfulEqOrd κ] {f : MergeFunction σ}
  {held : Nat → μ → MapStore κ σ}

/-- Let an upload to one group that moves its keys succeed, and let a read end without an error later, on
the same scheme and before any take was committed. Both need majorities, the upload among the owners that a
key had then, the read among those that it has while all members are alive. If both majorities are more than
the owners at the time of the upload and the usual owners that were dead, the read yields the key once, with
all that was uploaded for it. -/
theorem read_after_moved_write [Fingerprint κ] {groups : List PartitionGroup} {group : PartitionGroup}
    {client : Partition → Option (Store μ ρ κ σ)} {hash : PartitionId → UInt32}
    {scheme : PartitionScheme (Store μ ρ κ σ)} {alive : List PartitionId}
    {cluster written later opened : Cluster μ ρ κ σ}
    {interleaving : Interleaving} {source : Feed κ σ} {order : List Nat → List Nat}
    {read : ClusterRead μ ρ κ σ} {out : List (Entry κ σ)}
    (hscheme : PartitionScheme.create groups client hash = .ok scheme)
    (hgroup : groups.filter PartitionGroup.active = [group]) (hmoves : group.repartition = true)
    (huploads : cluster.options.uploadQuorum = .majority)
    (hdownloads : cluster.options.downloadQuorum = .majority)
    (hf : f.Lawful) (hmaps : KeepsMaps f scheme.clientAt? held)
    (hreached : ∀ index, (held index cluster.world).Reached f) (hfunction : cluster.function = f)
    (htopology : cluster.topology = .ofAlive scheme alive)
    (hupload : cluster.uploadWith interleaving source = (.ok (), written))
    (hrun : Run scheme f held written later) (horder : ∀ indices, (order indices).Perm indices)
    (hopen : later.downloadIn order 0 = (.ok read, opened)) (hread : Yields read opened (out.map .ok)) :
    ∀ entry, .ok entry ∈ source →
      let bucket := Bucket.ofHash (hash32 entry.key)
      let owners := group.route hash alive.contains bucket
      let dead := (group.route hash (fun _ => true) bucket).countP fun member => !alive.contains member
      owners.length + dead <
          Quorum.majority.required owners.length + Quorum.majority.required group.replicaCount →
        ∃ found, out.filter (Entry.hasKey entry.key) = [found] ∧ found.Absorbs f entry := by
  intro entry hentry bucket owners dead hfew
  refine found_of_quorumsMeet hscheme hf hmaps hreached hfunction htopology hupload hrun horder hopen hread
    hentry fun other hother hactive => ?_
  have hmem : other ∈ groups.filter PartitionGroup.active := List.mem_filter.mpr ⟨hother, hactive⟩
  rw [hgroup, List.mem_singleton] at hmem
  rw [hmem, huploads, hdownloads, PartitionGroup.QuorumsMeet, PartitionGroup.moved_of_repartition hmoves]
  exact hfew

namespace Trio

def moving : PartitionGroup := { group with repartition := true }

def movingScheme : PartitionScheme (Store (Fleet (Node UInt64 Nat)) (List (UInt64 × Nat)) UInt64 Nat) :=
  { scheme with groups := [moving], base := [{ sharder with repartition := true }] }

theorem create_moving :
    PartitionScheme.create [moving] client PartitionId.identityHash = .ok movingScheme := by
  have hpartitions : sortedDistinct ([moving].flatMap PartitionGroup.partitions) = group.partitions :=
    sortedDistinct_eq_self (by decide +kernel)
  have hfault : PartitionScheme.fault? [moving] = none := by decide
  rw [PartitionScheme.create, hfault, hpartitions, movingScheme, ← ofGroup_eq]
  rfl

def movingCluster (alive : List PartitionId) :
    Cluster (Fleet (Node UInt64 Nat)) (List (UInt64 × Nat)) UInt64 Nat :=
  { cluster .healthy with membership := .counted (.ofAlive movingScheme alive) .zero }

def killing (name : String) (cluster : Cluster (Fleet (Node UInt64 Nat)) (List (UInt64 × Nat)) UInt64 Nat) :
    Cluster (Fleet (Node UInt64 Nat)) (List (UInt64 × Nat)) UInt64 Nat :=
  { cluster with world := cluster.world.modify name fun node =>
    { node with faults := { node.faults with killed := true } } }

theorem step_killing (name : String)
    {cluster : Cluster (Fleet (Node UInt64 Nat)) (List (UInt64 × Nat)) UInt64 Nat}
    (h : cluster.membership.Follows movingScheme) :
    Step movingScheme function (Fleet.heldAt names) cluster (killing name cluster) :=
  .beside ⟨h, rfl, rfl, .of_eq fun _ => Fleet.heldAt_set_same rfl⟩

/-- An entry was uploaded while some partitions were alive, the others were revived, then one stopped. -/
def revived (alive : List PartitionId) : Cluster (Fleet (Node UInt64 Nat)) (List (UInt64 × Nat)) UInt64 Nat :=
  killing "g|a" ((movingCluster alive).uploadWith .patient (.ofEntries [⟨1, 5, 7⟩])).2.reviveDead.2

theorem keepsMaps_moving : KeepsMaps function movingScheme.clientAt? (Fleet.heldAt names) := keepsMaps

theorem reached_moving (alive : List PartitionId) (index : Nat) :
    (Fleet.heldAt names index (movingCluster alive).world).Reached function := by
  have hempty : Fleet.heldAt names index (movingCluster alive).world = .empty := heldAt_eq_empty .healthy index
  rw [hempty]
  exact .empty

theorem evolved_uploaded (alive : List PartitionId) :
    Evolved movingScheme function (Fleet.heldAt names) (movingCluster alive)
      ((movingCluster alive).uploadWith .patient (.ofEntries [⟨1, 5, 7⟩])).2 :=
  evolved_uploadWith keepsMaps_moving ⟨alive, rfl⟩ .patient (.ofEntries [⟨1, 5, 7⟩])

theorem run_revived (alive : List PartitionId) :
    Run movingScheme function (Fleet.heldAt names)
      ((movingCluster alive).uploadWith .patient (.ofEntries [⟨1, 5, 7⟩])).2 (revived alive) := by
  have hrevived := Step.revive.evolved keepsMaps_moving (evolved_uploaded alive).follows
  exact (Relation.ReflTransGen.single .revive).tail (step_killing "g|a" hrevived.follows)

theorem exists_read {alive : List PartitionId} (hopens : ((revived alive).downloadIn id 0).1.isOk = true)
    (hwhole : ∀ source ∈ ((revived alive).opening (requestDownload 0) id).1.sources,
      (streamOf (revived alive).topology ((revived alive).opening (requestDownload 0) id).2
        (source.1, source.2.1)).fails = false) :
    ∃ read opened out, (revived alive).downloadIn id 0 = (.ok read, opened) ∧
      Merge.FanIn (revived alive).function
        ((feedsOf ((revived alive).opening (requestDownload 0) id).1).map fun source =>
          (Fleet.heldAt names source.1 (revived alive).world).entries) out ∧
      Yields read opened (out.map .ok) := by
  have hevolved := (evolved_uploaded alive).trans
    ((run_revived alive).evolved keepsMaps_moving (evolved_uploaded alive).follows)
  have hkeyed := hevolved.grown.keyed fun index => (reached_moving alive index).keyed
  have hmaps := keepsMaps_moving
  rw [← scheme_of_follows hevolved.follows] at hmaps
  obtain ⟨read, opened, hopen⟩ : ∃ read opened, (revived alive).downloadIn id 0 = (.ok read, opened) := by
    generalize (revived alive).downloadIn id 0 = answer at hopens
    obtain ⟨result, opened⟩ := answer
    cases result with
    | ok read => exact ⟨read, opened, rfl⟩
    | error => contradiction
  have hdownload := downloadOf_of_ok hmaps (fun indices => .refl indices) hopen
  obtain ⟨out, hfanIn, hyields⟩ := hdownload.yields lawful hkeyed hwhole
  exact ⟨read, opened, out, hopen, hfanIn, hyields⟩

theorem candidates_moving (alive : PartitionId → Bool) :
    moving.candidates alive = moving.members.filter alive := by
  have hmembers : sortedDistinct moving.members = moving.members := sortedDistinct_members
  rw [PartitionGroup.candidates, hmembers]
  rfl

theorem route_moving (hash : PartitionId → UInt32) (alive : PartitionId → Bool) (bucket : Bucket) :
    moving.route hash alive bucket = moving.members.filter alive := by
  have hlength : (moving.candidates alive).length ≤ moving.replicas := by
    rw [candidates_moving]
    exact List.length_filter_le alive moving.members
  rw [PartitionGroup.route_eq_candidates hlength, candidates_moving]

end Trio

/-- Two of three partitions take an entry while the third one is dead. It is found by a read of the third one
and one of the two. -/
theorem read_after_moved_write_trio :
    let alive : List PartitionId := [⟨"g", "a"⟩, ⟨"g", "b"⟩]
    ∃ written read opened, ∃ out : List (Entry UInt64 Nat),
      (Trio.movingCluster alive).uploadWith .patient (.ofEntries [⟨1, 5, 7⟩]) = (.ok (), written) ∧
      Run Trio.movingScheme Trio.function (Fleet.heldAt Trio.names) written (Trio.revived alive) ∧
      (Trio.revived alive).downloadIn id 0 = (.ok read, opened) ∧ Yields read opened (out.map .ok) ∧
      ∃ found, out.filter (Entry.hasKey 1) = [found] ∧ found.Absorbs Trio.function ⟨1, 5, 7⟩ := by
  intro alive
  have hupload := eq_ok_of_isOk (by decide +kernel :
    ((Trio.movingCluster alive).uploadWith .patient (.ofEntries [⟨1, 5, 7⟩])).1.isOk = true)
  obtain ⟨read, opened, out, hopen, -, hyields⟩ := @Trio.exists_read alive (by decide +kernel) (by decide +kernel)
  have hcount : Trio.moving.replicaCount = 3 := by
    rw [← Trio.moving.length_route_all PartitionId.identityHash Bucket.first, Trio.route_moving]
    rfl
  refine ⟨_, read, opened, out, hupload, Trio.run_revived alive, hopen, hyields, ?_⟩
  refine read_after_moved_write Trio.create_moving rfl rfl rfl rfl Trio.lawful Trio.keepsMaps_moving
    (Trio.reached_moving alive) rfl rfl hupload (Trio.run_revived alive) (fun indices => .refl indices) hopen
    hyields ⟨1, 5, 7⟩ (List.mem_singleton_self _) ?_
  rw [Trio.route_moving, Trio.route_moving, hcount]
  decide

/-- A majority of the partitions that are alive is one partition if the other two are dead. Once they are
alive again, what it took is missed by a read of the two, which are a majority of all. -/
theorem read_misses_moved_write :
    let alive : List PartitionId := [⟨"g", "a"⟩]
    ∃ written read opened,
      (Trio.movingCluster alive).uploadWith .patient (.ofEntries [⟨1, 5, 7⟩]) = (.ok (), written) ∧
      Run Trio.movingScheme Trio.function (Fleet.heldAt Trio.names) written (Trio.revived alive) ∧
      (Trio.revived alive).downloadIn id 0 = (.ok read, opened) ∧ Yields read opened [] := by
  intro alive
  have hupload := eq_ok_of_isOk (by decide +kernel :
    ((Trio.movingCluster alive).uploadWith .patient (.ofEntries [⟨1, 5, 7⟩])).1.isOk = true)
  obtain ⟨read, opened, out, hopen, hfanIn, hyields⟩ :=
    @Trio.exists_read alive (by decide +kernel) (by decide +kernel)
  have hempty : ∀ source ∈ ((Trio.revived alive).opening (requestDownload 0) id).1.sources,
      (Fleet.heldAt Trio.names source.1 (Trio.revived alive).world).entries = [] := by decide +kernel
  refine ⟨_, read, opened, hupload, Trio.run_revived alive, hopen, ?_⟩
  rw [hfanIn.eq_nil ?_] at hyields
  · exact hyields
  · intro list hlist
    obtain ⟨⟨index, feed⟩, hsource, rfl⟩ := List.mem_map.mp hlist
    obtain ⟨receipt, hmem⟩ := mem_feedsOf.mp hsource
    exact hempty _ hmem

end ReplicatedStore.Cluster
