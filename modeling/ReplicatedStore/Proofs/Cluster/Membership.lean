import ReplicatedStore.Proofs.Cluster.Durability
/-!
# The topology of a cluster

However schemes are installed and partitions die and revive, the partitions believed to be alive are some of
the scheme, the sharder is the one made for them, and the counts are theirs. What an operation learns is
recorded by identities, so it takes from the current topology the partitions that failed and no others,
whatever scheme the operation started with.
-/

namespace ReplicatedStore

section Lists

variable {α : Type}

theorem filter_contains_of_sublist [BEq α] [LawfulBEq α] {part whole : List α} (h : part.Sublist whole)
    (hnodup : whole.Nodup) : whole.filter part.contains = part := by
  induction h with
  | slnil => rfl
  | @cons part whole a h ih =>
    obtain ⟨hnot, hrest⟩ := List.nodup_cons.mp hnodup
    rw [List.filter_cons_of_neg, ih hrest]
    rw [List.contains_iff_mem]
    exact fun hmem => hnot (h.subset hmem)
  | @cons_cons part whole a h ih =>
    obtain ⟨hnot, hrest⟩ := List.nodup_cons.mp hnodup
    rw [List.filter_cons_of_pos (by simp)]
    congr 1
    refine Eq.trans (List.filter_congr fun b hb => ?_) (ih hrest)
    have hne : b ≠ a := fun heq => hnot (heq ▸ hb)
    simp [hne]

private theorem map_getElem?_range (items : List α) :
    ((List.range items.length).map fun index => items[index]?) = items.map some := by
  apply List.ext_getElem?
  intro index
  by_cases h : index < items.length
  · simp [h]
  · simp [h]

private theorem length_filter_range (items : List α) (keep : α → Bool) :
    ((List.range items.length).filter fun index => (items[index]?).any keep).length =
      (items.filter keep).length := by
  have hcount : ((List.range items.length).map fun index => items[index]?).countP (Option.any keep) =
      (items.map some).countP (Option.any keep) := by
    rw [map_getElem?_range]
  rw [List.countP_map, List.countP_map] at hcount
  rw [← List.countP_eq_length_filter, ← List.countP_eq_length_filter]
  exact hcount

end Lists

namespace Topology

variable {γ : Type} (topology : Topology γ)

theorem length_identities : topology.scheme.identities.length = topology.scheme.size := List.length_map _

theorem isAliveAt_iff {index : Nat} :
    topology.isAliveAt index = true ↔
      ∃ partition ∈ topology.alive, topology.scheme.identities[index]? = some partition := by
  rw [isAliveAt, Option.any_eq_true]
  constructor
  · rintro ⟨partition, hindex, halive⟩
    exact ⟨partition, List.contains_iff_mem.mp halive, hindex⟩
  · rintro ⟨partition, halive, hindex⟩
    exact ⟨partition, hindex, List.contains_iff_mem.mpr halive⟩

theorem mem_aliveIndices {index : Nat} :
    index ∈ topology.aliveIndices ↔
      ∃ partition ∈ topology.alive, topology.scheme.identities[index]? = some partition := by
  rw [aliveIndices, List.mem_filter, isAliveAt_iff, List.mem_range]
  constructor
  · exact fun h => h.2
  · rintro ⟨partition, halive, hindex⟩
    refine ⟨?_, partition, halive, hindex⟩
    rw [← length_identities]
    exact (List.getElem?_eq_some_iff.mp hindex).1

theorem mem_deadIndices {index : Nat} :
    index ∈ topology.deadIndices ↔ index < topology.scheme.size ∧ index ∉ topology.aliveIndices := by
  rw [deadIndices, Std.TreeSet.mem_ofList, List.contains_iff_mem, List.mem_filter, List.mem_range, aliveIndices,
    List.mem_filter, List.mem_range]
  constructor
  · rintro ⟨hlt, hdead⟩
    exact ⟨hlt, fun h => by simp [h.2] at hdead⟩
  · rintro ⟨hlt, hdead⟩
    exact ⟨hlt, by simpa [hlt] using hdead⟩

end Topology

/-- The partitions believed to be alive are some of the scheme, and the sharder and the counts are theirs. -/
structure Membership.Consistent {γ : Type} (current : Membership γ) : Prop where
  nodup : current.topology.scheme.identities.Nodup
  alive : current.topology.alive.Sublist current.topology.scheme.identities
  sharder : current.topology.sharder = current.topology.scheme.createSharder current.topology.alive.contains
  aliveCount : current.statistics.alivePartitions = current.topology.alive.length
  total : current.statistics.alivePartitions + current.statistics.deadPartitions = current.topology.scheme.size

/-- A change after which the partitions with a property are alive. It says whether these are others than before;
if they are, the sharder is made again and this is counted, and otherwise nothing changes. -/
structure Membership.Adopts {γ : Type} (current : Membership γ) (member : PartitionId → Prop)
    (outcome : Bool × Membership γ) : Prop where
  scheme : outcome.2.topology.scheme = current.topology.scheme
  alive : ∀ partition, partition ∈ outcome.2.topology.alive ↔ member partition
  told : outcome.1 = false ↔ ∀ partition, member partition ↔ partition ∈ current.topology.alive
  kept : outcome.1 = false → outcome.2 = current
  rebuilt : outcome.1 = true →
    outcome.2 = current.replace (.ofAlive current.topology.scheme outcome.2.topology.alive)
  rebuilds : outcome.2.statistics.sharderRebuilds = current.statistics.sharderRebuilds + outcome.1.toNat

namespace Membership

variable {γ : Type} {current : Membership γ}

theorem counted_consistent {scheme : PartitionScheme γ} (hnodup : scheme.identities.Nodup) {alive : List PartitionId}
    (halive : alive.Sublist scheme.identities) (statistics : ClusterStatistics) :
    (counted (.ofAlive scheme alive) statistics).Consistent := by
  have hle : alive.length ≤ scheme.size := by
    have hlength := halive.length_le
    rwa [PartitionScheme.identities, List.length_map] at hlength
  exact ⟨hnodup, halive, rfl, rfl, Nat.add_sub_cancel' hle⟩

theorem start_consistent {scheme : PartitionScheme γ} (hnodup : scheme.identities.Nodup)
    (statistics : ClusterStatistics) : (start scheme statistics).Consistent :=
  counted_consistent hnodup (.refl _) statistics

theorem install_consistent {scheme : PartitionScheme γ} (hnodup : scheme.identities.Nodup)
    (current : Membership γ) : (current.install scheme).Consistent :=
  counted_consistent hnodup (.refl _) _

theorem mem_identitiesAt {started : Topology γ} {failed : IndexSet} {partition : PartitionId} :
    partition ∈ started.identitiesAt failed ↔
      ∃ index ∈ failed, started.scheme.identities[index]? = some partition := by
  rw [Topology.identitiesAt, List.mem_filterMap]
  constructor
  · rintro ⟨index, hmem, hindex⟩
    exact ⟨index, Std.TreeSet.mem_toList.mp hmem, hindex⟩
  · rintro ⟨index, hmem, hindex⟩
    exact ⟨index, Std.TreeSet.mem_toList.mpr hmem, hindex⟩

theorem topology_update (current : Membership γ) (alive : List PartitionId) :
    (current.update alive).2.topology =
      if alive = current.topology.alive then current.topology else .ofAlive current.topology.scheme alive := by
  unfold update
  split <;> rfl

theorem topology_recordFailures {other : Membership γ} (h : current.topology = other.topology) (started : Topology γ)
    (failed : IndexSet) :
    (current.recordFailures started failed).2.topology = (other.recordFailures started failed).2.topology := by
  simp only [recordFailures, markDead, topology_update, countFailures, h]

namespace Consistent

theorem length_aliveIndices (h : current.Consistent) :
    current.topology.aliveIndices.length = current.statistics.alivePartitions := by
  rw [h.aliveCount, Topology.aliveIndices, ← Topology.length_identities]
  have hcount := length_filter_range current.topology.scheme.identities current.topology.alive.contains
  rw [filter_contains_of_sublist h.alive h.nodup] at hcount
  exact hcount

theorem size_deadIndices (h : current.Consistent) :
    current.topology.deadIndices.size = current.statistics.deadPartitions := by
  have hsplit := List.length_eq_length_filter_add (l := List.range current.topology.scheme.size)
    current.topology.isAliveAt
  rw [List.length_range] at hsplit
  have halive : ((List.range current.topology.scheme.size).filter current.topology.isAliveAt).length = _ :=
    h.length_aliveIndices
  have htotal := h.total
  have hdistinct : ((List.range current.topology.scheme.size).filter fun index =>
      !current.topology.isAliveAt index).Pairwise fun a b => ¬ compare a b = .eq := by
    refine (List.nodup_range.filter _).imp fun hne heq => hne ?_
    exact Nat.compare_eq_eq.mp heq
  rw [Topology.deadIndices, Std.TreeSet.size_ofList hdistinct]
  omega

theorem countFailures (h : current.Consistent) (count : Nat) : (current.countFailures count).Consistent :=
  ⟨h.nodup, h.alive, h.sharder, h.aliveCount, h.total⟩

theorem update (h : current.Consistent) {alive : List PartitionId}
    (halive : alive.Sublist current.topology.scheme.identities) : (current.update alive).2.Consistent := by
  unfold Membership.update
  split
  next => exact h
  next => exact counted_consistent h.nodup halive _

theorem update_adopts (h : current.Consistent) {alive : List PartitionId}
    (halive : alive.Sublist current.topology.scheme.identities) {member : PartitionId → Prop}
    (hmember : ∀ partition, partition ∈ alive ↔ member partition) : current.Adopts member (current.update alive) := by
  unfold Membership.update
  split
  next heq =>
    subst heq
    exact ⟨rfl, hmember, ⟨fun _ partition => (hmember partition).symm, fun _ => rfl⟩, fun _ => rfl, nofun, rfl⟩
  next hne =>
    refine ⟨rfl, hmember, ⟨nofun, fun hsame => absurd ?_ hne⟩, nofun, fun _ => rfl, rfl⟩
    rw [← filter_contains_of_sublist halive h.nodup, ← filter_contains_of_sublist h.alive h.nodup]
    refine List.filter_congr fun partition _ => Bool.eq_iff_iff.mpr ?_
    rw [List.contains_iff_mem, List.contains_iff_mem, hmember, hsame]

theorem markDead (h : current.Consistent) (partitions : List PartitionId) :
    (current.markDead partitions).2.Consistent :=
  h.update (List.filter_sublist.trans h.alive)

theorem markDead_adopts (h : current.Consistent) (partitions : List PartitionId) :
    current.Adopts (fun partition => partition ∈ current.topology.alive ∧ partition ∉ partitions)
      (current.markDead partitions) := by
  refine h.update_adopts (List.filter_sublist.trans h.alive) fun partition => ?_
  rw [List.mem_filter, Bool.not_eq_true', ← Bool.not_eq_true, List.contains_iff_mem]

theorem markAlive (h : current.Consistent) (partitions : List PartitionId) :
    (current.markAlive partitions).2.Consistent :=
  h.update List.filter_sublist

theorem markAlive_adopts (h : current.Consistent) (partitions : List PartitionId) :
    current.Adopts
      (fun partition => partition ∈ current.topology.alive ∨
        partition ∈ partitions ∧ partition ∈ current.topology.scheme.identities)
      (current.markAlive partitions) := by
  refine h.update_adopts List.filter_sublist fun partition => ?_
  rw [List.mem_filter, Bool.or_eq_true, List.contains_iff_mem, List.contains_iff_mem]
  constructor
  · rintro ⟨hscheme, halive | hmarked⟩
    · exact .inl halive
    · exact .inr ⟨hmarked, hscheme⟩
  · rintro (halive | ⟨hmarked, hscheme⟩)
    · exact ⟨h.alive.subset halive, .inl halive⟩
    · exact ⟨hscheme, .inr hmarked⟩

theorem recordFailures (h : current.Consistent) (started : Topology γ) (failed : IndexSet) :
    (current.recordFailures started failed).2.Consistent :=
  (h.countFailures _).markDead _

/-- Whatever scheme an operation started with, the partitions die that it saw fail and that are alive now. -/
theorem recordFailures_adopts (h : current.Consistent) (started : Topology γ) (failed : IndexSet) :
    ∃ changed, (current.countFailures (started.identitiesAt failed).length).Adopts
      (fun partition => partition ∈ current.topology.alive ∧
        ¬ ∃ index ∈ failed, started.scheme.identities[index]? = some partition)
      (changed, (current.recordFailures started failed).2) := by
  refine ⟨((current.countFailures (started.identitiesAt failed).length).markDead
    (started.identitiesAt failed)).1, ?_⟩
  have hadopts := (h.countFailures (started.identitiesAt failed).length).markDead_adopts
    (started.identitiesAt failed)
  simp only [mem_identitiesAt] at hadopts
  exact hadopts

end Consistent

/-- What the membership of a cluster may have become: schemes are installed, partitions are marked, and failures
are recorded by operations that started with any topology. -/
inductive Reached : Membership γ → Prop
  | start {groups : List PartitionGroup} {client : Partition → Option γ} {hash : PartitionId → UInt32}
      {scheme : PartitionScheme γ} (hscheme : PartitionScheme.create groups client hash = .ok scheme)
      (statistics : ClusterStatistics) : Reached (.start scheme statistics)
  | install {current : Membership γ} (h : Reached current) {groups : List PartitionGroup}
      {client : Partition → Option γ} {hash : PartitionId → UInt32} {scheme : PartitionScheme γ}
      (hscheme : PartitionScheme.create groups client hash = .ok scheme) : Reached (current.install scheme)
  | markDead {current : Membership γ} (h : Reached current) (partitions : List PartitionId) :
      Reached (current.markDead partitions).2
  | markAlive {current : Membership γ} (h : Reached current) (partitions : List PartitionId) :
      Reached (current.markAlive partitions).2
  | recordFailures {current : Membership γ} (h : Reached current) (started : Topology γ) (failed : IndexSet) :
      Reached (current.recordFailures started failed).2

theorem Reached.consistent (h : Reached current) : current.Consistent := by
  induction h with
  | start hscheme statistics =>
    exact start_consistent (PartitionScheme.wellFormed_of_create hscheme).1.nodup_identities statistics
  | install _ hscheme ih =>
    exact install_consistent (PartitionScheme.wellFormed_of_create hscheme).1.nodup_identities _
  | markDead _ partitions ih => exact ih.markDead partitions
  | markAlive _ partitions ih => exact ih.markAlive partitions
  | recordFailures _ started failed ih => exact ih.recordFailures started failed

/-- After any changes the topology is that of the partitions alive, the indices of the scheme are divided between
these and the dead ones, and the counts are theirs. The next change does to the partitions what it says. -/
theorem Reached.tracks_partitions (h : Reached current) :
    current.Consistent ∧
      ((∀ index, index ∈ current.topology.aliveIndices ↔
          ∃ partition ∈ current.topology.alive, current.topology.scheme.identities[index]? = some partition) ∧
        (∀ index, index ∈ current.topology.deadIndices ↔
          index < current.topology.scheme.size ∧ index ∉ current.topology.aliveIndices) ∧
        current.topology.aliveIndices.length = current.statistics.alivePartitions ∧
        current.topology.deadIndices.size = current.statistics.deadPartitions) ∧
      (∀ partitions, current.Adopts
        (fun partition => partition ∈ current.topology.alive ∧ partition ∉ partitions)
        (current.markDead partitions)) ∧
      (∀ partitions, current.Adopts
        (fun partition => partition ∈ current.topology.alive ∨
          partition ∈ partitions ∧ partition ∈ current.topology.scheme.identities)
        (current.markAlive partitions)) ∧
      (∀ (started : Topology γ) (failed : IndexSet),
        (∀ partition, partition ∈ (current.recordFailures started failed).1 ↔
          ∃ index ∈ failed, started.scheme.identities[index]? = some partition) ∧
        ∃ changed, (current.countFailures (current.recordFailures started failed).1.length).Adopts
          (fun partition => partition ∈ current.topology.alive ∧
            ¬ ∃ index ∈ failed, started.scheme.identities[index]? = some partition)
          (changed, (current.recordFailures started failed).2)) ∧
      ∀ scheme : PartitionScheme γ, current.install scheme = current.replace (.ofAlive scheme scheme.identities) ∧
        (current.install scheme).statistics.sharderRebuilds = current.statistics.sharderRebuilds + 1 := by
  have hconsistent := h.consistent
  refine ⟨hconsistent, ⟨?_, ?_, hconsistent.length_aliveIndices, hconsistent.size_deadIndices⟩,
    hconsistent.markDead_adopts, hconsistent.markAlive_adopts, ?_, fun scheme => ⟨rfl, rfl⟩⟩
  · intro index
    exact current.topology.mem_aliveIndices
  · intro index
    exact current.topology.mem_deadIndices
  · intro started failed
    exact ⟨fun partition => mem_identitiesAt, hconsistent.recordFailures_adopts started failed⟩

end Membership

namespace Cluster.Trio

def movedGroup : PartitionGroup := ⟨[partition "b", partition "c", partition "d"], 3, false, true⟩

def movedScheme : PartitionScheme (Store (Fleet (Node UInt64 Nat)) (List (UInt64 × Nat)) UInt64 Nat) :=
  ⟨[movedGroup], movedGroup.partitions, client,
    [.ofGroup movedGroup.members PartitionId.identityHash movedGroup]⟩

theorem create_moved : PartitionScheme.create [movedGroup] client PartitionId.identityHash = .ok movedScheme := by
  have hpartitions : sortedDistinct ([movedGroup].flatMap PartitionGroup.partitions) = movedGroup.partitions :=
    sortedDistinct_eq_self (by decide +kernel)
  have hfault : PartitionScheme.fault? [movedGroup] = none := by decide
  rw [PartitionScheme.create, hfault, hpartitions]
  rfl

end Cluster.Trio

/-- An operation that started with the first scheme saw "a" and "b" fail at the indices where the second scheme has
"b" and "c": of these only "b" dies. -/
theorem Membership.Reached.tracks_partitions_stale :
    let started := Membership.start Cluster.Trio.scheme .zero
    let current := started.install Cluster.Trio.movedScheme
    let after := (current.recordFailures started.topology (.ofList [0, 1])).2
    Reached current ∧
      ∀ partition, partition ∈ after.topology.alive ↔ partition = ⟨"g", "c"⟩ ∨ partition = ⟨"g", "d"⟩ := by
  intro started current after
  have hreached : Reached current := .install (.start Cluster.Trio.create_eq .zero) Cluster.Trio.create_moved
  obtain ⟨-, -, -, -, hrecord, -⟩ := hreached.tracks_partitions
  obtain ⟨-, changed, hadopts⟩ := hrecord started.topology (.ofList [0, 1])
  refine ⟨hreached, fun partition => (hadopts.alive partition).trans ?_⟩
  have halive : current.topology.alive = [⟨"g", "b"⟩, ⟨"g", "c"⟩, ⟨"g", "d"⟩] := rfl
  have hidentities : started.topology.scheme.identities = [⟨"g", "a"⟩, ⟨"g", "b"⟩, ⟨"g", "c"⟩] := rfl
  rw [halive, hidentities]
  constructor
  · rintro ⟨hmem, hnot⟩
    simp only [List.mem_cons, List.not_mem_nil, or_false] at hmem
    rcases hmem with rfl | hrest
    · exact absurd ⟨1, by decide +kernel, rfl⟩ hnot
    · exact hrest
  · intro hrest
    refine ⟨by simp [hrest], ?_⟩
    rintro ⟨index, hindex, hfailed⟩
    rw [Std.TreeSet.mem_ofList] at hindex
    simp only [List.contains_iff_mem, List.mem_cons, List.not_mem_nil, or_false] at hindex
    rcases hindex with rfl | rfl <;> rcases hrest with rfl | rfl <;> simp at hfailed

end ReplicatedStore
