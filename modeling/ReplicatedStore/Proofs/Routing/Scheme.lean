import ReplicatedStore.Proofs.Routing.Rendezvous
import ReplicatedStore.Routing.Scheme
/-!
# Routes of a scheme

What holds of every scheme that was made of groups: a group's replica sets name distinct partitions, its
members, and at least one of them; the sharder that routes writes has one part for each active group,
and a bucket is written to the replica sets of all of them.
-/

namespace ReplicatedStore

namespace Quorum

theorem required_pos (quorum : Quorum) {replicas : Nat} (h : 0 < replicas) :
    0 < quorum.required replicas := by
  unfold required
  dsimp only
  omega

/-- More than half and more than half have a member in common. -/
theorem lt_required_majority {replicas : Nat} (h : 0 < replicas) :
    replicas < majority.required replicas + majority.required replicas := by
  simp only [required]
  omega

end Quorum

abbrev PartitionGroup.numbered (group : PartitionGroup) (hash : PartitionId → UInt32) :
    List (RankedMember PartitionId) :=
  Rendezvous.numbered group.members hash

/-- The number of partitions in a replica set of a group all of whose members count. -/
def PartitionGroup.replicaCount (group : PartitionGroup) : Nat :=
  min group.replicas (sortedDistinct group.members).length

def PartitionGroup.sharing (group : PartitionGroup) (hash : PartitionId → UInt32)
    (alive : PartitionId → Bool) : List (RankedMember PartitionId) :=
  if group.repartition then (group.numbered hash).filter fun m => alive m.member else group.numbered hash

namespace PartitionGroup

variable (group : PartitionGroup) (hash : PartitionId → UInt32) (alive : PartitionId → Bool)

theorem nodup_index_numbered : ((group.numbered hash).map RankedMember.index).Nodup := by
  rw [Rendezvous.map_index_numbered]
  exact List.nodup_range

theorem sharing_sublist : (group.sharing hash alive).Sublist (group.numbered hash) := by
  unfold sharing
  split
  next => exact List.filter_sublist
  next => exact .refl _

private theorem exists_numbered {member : PartitionId} (h : member ∈ group.members) :
    ∃ m ∈ group.numbered hash, m.member = member := by
  obtain ⟨b, hb, heq⟩ := exists_mem_sortedDistinct h
  rw [← Std.LawfulEqOrd.eq_of_compare heq] at hb
  rw [← Rendezvous.map_member_numbered group.members hash] at hb
  obtain ⟨m, hm, hmember⟩ := List.mem_map.mp hb
  exact ⟨m, hm, hmember⟩

private theorem sharing_ne_nil (halive : group.members.any alive = true) :
    group.sharing hash alive ≠ [] := by
  obtain ⟨member, hmem, halive⟩ := List.any_eq_true.mp halive
  obtain ⟨m, hm, rfl⟩ := exists_numbered group hash hmem
  have : m ∈ group.sharing hash alive := by
    unfold sharing
    split
    next => exact List.mem_filter.mpr ⟨hm, halive⟩
    next => exact hm
  exact List.ne_nil_of_mem this

end PartitionGroup

namespace GroupSharder

variable (identities : List PartitionId) (hash : PartitionId → UInt32) (group : PartitionGroup)
  (alive : PartitionId → Bool)

def position (group : GroupSharder) (index : Nat) : Nat := group.positions[index]?.getD 0

theorem positions_ofGroup : (ofGroup identities hash group).positions =
    ((sortedDistinct group.members).map fun member => (identities.idxOf? member).getD 0).toArray := by
  have hmembers : (Rendezvous.create group.members group.replicas hash).memberList =
      sortedDistinct group.members := Rendezvous.map_member_numbered group.members hash
  simp only [ofGroup, hmembers]

theorem sharder_adapted : ((ofGroup identities hash group).adapted alive).sharder =
    .ofMembers (group.sharing hash alive) group.replicas := by
  unfold adapted PartitionGroup.sharing
  change (if group.repartition then _ else _ : GroupSharder).sharder = _
  split
  next =>
    exact Rendezvous.recompute_ofMembers (group.numbered hash) group.replicas alive
  next => rfl

theorem positions_adapted : ((ofGroup identities hash group).adapted alive).positions =
    (ofGroup identities hash group).positions := by
  unfold adapted
  split <;> rfl

theorem replicas_adapted (bucket : Bucket) :
    ((ofGroup identities hash group).adapted alive).replicas bucket =
      ((Rendezvous.ofMembers (group.sharing hash alive) group.replicas).owners bucket).map
        (ofGroup identities hash group).position := by
  unfold replicas
  rw [sharder_adapted, positions_adapted]
  rfl

theorem exists_position {m : RankedMember PartitionId} (hm : m ∈ group.numbered hash)
    (hmembers : ∀ member ∈ group.members, member ∈ identities) :
    ∃ position, (ofGroup identities hash group).positions[m.index]? = some position ∧
      identities.idxOf? m.member = some position ∧ identities[position]? = some m.member := by
  have hsorted := ((Rendezvous.mem_numbered group.members hash).mp hm).1
  have hmem : m.member ∈ identities :=
    hmembers m.member (mem_of_mem_sortedDistinct (List.mem_of_getElem? hsorted))
  cases hfind : identities.idxOf? m.member with
  | none => exact absurd hmem (List.idxOf?_eq_none_iff.mp hfind)
  | some position =>
    obtain ⟨hlt, hget, -⟩ := List.idxOf?_eq_some_iff.mp hfind
    refine ⟨position, ?_, rfl, by rw [List.getElem?_eq_getElem hlt, hget]⟩
    rw [positions_ofGroup, List.getElem?_toArray, List.getElem?_map, hsorted, Option.map_some, hfind,
      Option.getD_some]

theorem getElem?_position {m : RankedMember PartitionId} (hm : m ∈ group.numbered hash)
    (hmembers : ∀ member ∈ group.members, member ∈ identities) :
    identities[(ofGroup identities hash group).position m.index]? = some m.member := by
  obtain ⟨position, hposition, -, hget⟩ := exists_position identities hash group hm hmembers
  rwa [GroupSharder.position, hposition, Option.getD_some]

theorem nodup_replicas (bucket : Bucket) (hmembers : ∀ member ∈ group.members, member ∈ identities) :
    (((ofGroup identities hash group).adapted alive).replicas bucket).Nodup := by
  have hsub := PartitionGroup.sharing_sublist group hash alive
  have hnumbers : ((group.sharing hash alive).map RankedMember.index).Nodup :=
    (hsub.map RankedMember.index).nodup (group.nodup_index_numbered hash)
  rw [replicas_adapted]
  refine List.Nodup.map_on ?_ (Rendezvous.nodup_owners_ofMembers _ bucket hnumbers)
  intro i hi j hj hsame
  obtain ⟨m, hm, rfl⟩ := List.mem_map.mp (Rendezvous.mem_of_mem_owners_ofMembers hi)
  obtain ⟨n, hn, rfl⟩ := List.mem_map.mp (Rendezvous.mem_of_mem_owners_ofMembers hj)
  have hmember := getElem?_position identities hash group (hsub.subset hm) hmembers
  have hother := getElem?_position identities hash group (hsub.subset hn) hmembers
  rw [hsame, hother, Option.some_inj] at hmember
  have hdistinct : ((group.numbered hash).map RankedMember.member).Nodup := by
    rw [Rendezvous.map_member_numbered]
    exact sortedDistinct_nodup _
  rw [List.inj_on_of_nodup_map hdistinct (hsub.subset hm) (hsub.subset hn) hmember.symm]

theorem replicas_ne_nil (bucket : Bucket) (hreplicas : 0 < group.replicas)
    (halive : group.members.any alive = true) :
    ((ofGroup identities hash group).adapted alive).replicas bucket ≠ [] := by
  have hlength := Rendezvous.length_owners_ofMembers (group.sharing hash alive) group.replicas bucket
  have hsharing := List.length_pos_iff.mpr (PartitionGroup.sharing_ne_nil group hash alive halive)
  rw [replicas_adapted, ← List.length_pos_iff, List.length_map, hlength]
  omega

theorem lt_of_mem_replicas {bucket : Bucket} {index : Nat}
    (hmembers : ∀ member ∈ group.members, member ∈ identities)
    (h : index ∈ ((ofGroup identities hash group).adapted alive).replicas bucket) :
    index < identities.length := by
  rw [replicas_adapted] at h
  obtain ⟨number, howner, rfl⟩ := List.mem_map.mp h
  obtain ⟨m, hm, rfl⟩ := List.mem_map.mp (Rendezvous.mem_of_mem_owners_ofMembers howner)
  have hnumbered := (PartitionGroup.sharing_sublist group hash alive).subset hm
  have hposition := getElem?_position identities hash group hnumbered hmembers
  exact (List.getElem?_eq_some_iff.mp hposition).1

private theorem replicas_eq_of_isPredefined {group : GroupSharder} (h : group.sharder.isPredefined = true)
    (a b : Bucket) : group.replicas a = group.replicas b := by
  have howners : group.sharder.owners a = group.sharder.owners b := by
    unfold Rendezvous.isPredefined at h
    unfold Rendezvous.owners
    cases htable : group.sharder.table with
    | everyone owners => rfl
    | ranked rows => rw [htable] at h; contradiction
  rw [replicas, howners, ← replicas]

private theorem bucketSatisfies_eq_of_isPredefined {group : GroupSharder}
    (h : group.sharder.isPredefined = true) {unhealthy : IndexSet} {quorum : Quorum} (a b : Bucket) :
    group.bucketSatisfies unhealthy quorum a = group.bucketSatisfies unhealthy quorum b := by
  rw [bucketSatisfies, replicas_eq_of_isPredefined h a b, ← bucketSatisfies]

/-- The check of few buckets stands for that of all. -/
theorem satisfies_iff {group : GroupSharder} {unhealthy : IndexSet} {quorum : Quorum} :
    group.satisfies unhealthy quorum = true ↔
      ∀ bucket, group.bucketSatisfies unhealthy quorum bucket = true := by
  refine ⟨fun h bucket => ?_, fun h => List.all_eq_true.mpr fun bucket _ => h bucket⟩
  unfold satisfies distinctBuckets at h
  split at h
  next hsame =>
    have hfirst := List.all_eq_true.mp h Bucket.first (by simp)
    rwa [bucketSatisfies_eq_of_isPredefined hsame bucket Bucket.first]
  next => exact List.all_eq_true.mp h bucket (List.mem_finRange bucket)

theorem satisfiesIn_iff {group : GroupSharder} {failed : IndexSet} {quorum : Quorum} {buckets : BucketSet} :
    group.satisfiesIn failed quorum buckets = true ↔
      ∀ bucket, buckets.contains bucket = true → group.bucketSatisfies failed quorum bucket = true := by
  unfold satisfiesIn
  split
  next hsame =>
    rw [Bool.or_eq_true_iff, BucketSet.isEmpty_iff]
    constructor
    · rintro (hempty | hfirst) bucket hbucket
      · rw [hempty bucket] at hbucket
        contradiction
      · rwa [bucketSatisfies_eq_of_isPredefined hsame bucket Bucket.first]
    · intro h
      by_cases hempty : ∀ bucket, buckets.contains bucket = false
      · exact .inl hempty
      · obtain ⟨bucket, hbucket⟩ := not_forall.mp hempty
        rw [bucketSatisfies_eq_of_isPredefined hsame Bucket.first bucket]
        exact .inr (h bucket (Bool.of_not_eq_false hbucket))
  next =>
    rw [List.all_eq_true]
    simp only [BucketSet.toList, List.mem_filter, Bucket.all, List.mem_finRange, true_and]

theorem bucketSatisfies_anti {group : GroupSharder} {fewer more : IndexSet} {quorum : Quorum}
    {bucket : Bucket} (hsub : ∀ index, index ∈ fewer → index ∈ more)
    (h : group.bucketSatisfies more quorum bucket = true) :
    group.bucketSatisfies fewer quorum bucket = true := by
  simp only [bucketSatisfies, Quorum.isSatisfied, decide_eq_true_eq] at h ⊢
  refine Nat.le_trans h (List.countP_mono_left ?_)
  intro index _ hhealthy
  rw [Bool.not_eq_true', IndexSet.contains_eq_false_iff] at hhealthy ⊢
  exact fun hmem => hhealthy (hsub index hmem)

theorem satisfies_anti {group : GroupSharder} {fewer more : IndexSet} {quorum : Quorum}
    (hsub : ∀ index, index ∈ fewer → index ∈ more) (h : group.satisfies more quorum = true) :
    group.satisfies fewer quorum = true :=
  satisfies_iff.mpr fun bucket => bucketSatisfies_anti hsub (satisfies_iff.mp h bucket)

theorem satisfiesIn_anti {group : GroupSharder} {fewer more : IndexSet} {quorum : Quorum}
    {smaller larger : BucketSet} (hfailed : ∀ index, index ∈ fewer → index ∈ more)
    (hbuckets : ∀ bucket, smaller.contains bucket = true → larger.contains bucket = true)
    (h : group.satisfiesIn more quorum larger = true) : group.satisfiesIn fewer quorum smaller = true :=
  satisfiesIn_iff.mpr fun bucket hbucket =>
    bucketSatisfies_anti hfailed (satisfiesIn_iff.mp h bucket (hbuckets bucket hbucket))

theorem bucketSatisfies_of_healthy (group : GroupSharder) {unhealthy : IndexSet} (quorum : Quorum)
    (bucket : Bucket) (h : ∀ index, index ∉ unhealthy) :
    group.bucketSatisfies unhealthy quorum bucket = true := by
  have hcount : ((group.replicas bucket).countP fun index => !unhealthy.contains index) =
      (group.replicas bucket).length :=
    List.countP_eq_length.mpr fun index _ => by
      rw [Bool.not_eq_true', IndexSet.contains_eq_false_iff]
      exact h index
  simp only [bucketSatisfies, Quorum.isSatisfied, decide_eq_true_eq, hcount]
  exact Nat.min_le_right _ _

end GroupSharder

namespace SchemeSharder

private theorem mem_addOnce (positions : List Nat) (added index : Nat) :
    index ∈ addOnce positions added ↔ index ∈ positions ∨ index = added := by
  unfold addOnce
  split
  next h =>
    constructor
    · exact Or.inl
    · rintro (hmem | rfl)
      · exact hmem
      · exact List.contains_iff_mem.mp h
  next => rw [List.mem_append, List.mem_singleton]

private theorem nodup_addOnce {positions : List Nat} (h : positions.Nodup) (added : Nat) :
    (addOnce positions added).Nodup := by
  unfold addOnce
  split
  next => exact h
  next hnew =>
    have : added ∉ positions := fun hmem => hnew (List.contains_iff_mem.mpr hmem)
    refine List.nodup_append.mpr ⟨h, List.nodup_singleton _, ?_⟩
    rintro a ha b hb rfl
    exact this (List.mem_singleton.mp hb ▸ ha)

private theorem mem_foldl_addOnce (added positions : List Nat) (index : Nat) :
    index ∈ added.foldl addOnce positions ↔ index ∈ positions ∨ index ∈ added := by
  induction added generalizing positions with
  | nil => simp
  | cons a rest ih => rw [List.foldl_cons, ih, mem_addOnce, List.mem_cons, or_assoc]

private theorem nodup_foldl_addOnce (added : List Nat) {positions : List Nat} (h : positions.Nodup) :
    (added.foldl addOnce positions).Nodup := by
  induction added generalizing positions with
  | nil => exact h
  | cons a rest ih => exact ih (nodup_addOnce h a)

theorem mem_replicas {sharder : SchemeSharder} {bucket : Bucket} {index : Nat} :
    index ∈ sharder.replicas bucket ↔ ∃ group ∈ sharder.groups, index ∈ group.replicas bucket := by
  rw [replicas, mem_foldl_addOnce, List.mem_flatMap]
  simp

theorem nodup_shard (sharder : SchemeSharder) (hash : UInt32) : (sharder.shard hash).Nodup :=
  nodup_foldl_addOnce _ List.nodup_nil

theorem bucketSatisfies_of_isWriteSatisfied {sharder : SchemeSharder} {failed : IndexSet}
    {buckets : BucketSet} {quorum : Quorum}
    (h : sharder.isWriteSatisfied failed buckets quorum = true) {group : GroupSharder}
    (hgroup : group ∈ sharder.groups) {bucket : Bucket} (hbucket : buckets.contains bucket = true) :
    group.bucketSatisfies failed quorum bucket = true :=
  GroupSharder.satisfiesIn_iff.mp (List.all_eq_true.mp h group hgroup) bucket hbucket

theorem isWriteSatisfied_anti {sharder : SchemeSharder} {fewer more : IndexSet} {quorum : Quorum}
    {smaller larger : BucketSet} (hfailed : ∀ index, index ∈ fewer → index ∈ more)
    (hbuckets : ∀ bucket, smaller.contains bucket = true → larger.contains bucket = true)
    (h : sharder.isWriteSatisfied more larger quorum = true) :
    sharder.isWriteSatisfied fewer smaller quorum = true := by
  refine List.all_eq_true.mpr fun group hgroup => ?_
  exact GroupSharder.satisfiesIn_anti hfailed hbuckets (List.all_eq_true.mp h group hgroup)

end SchemeSharder

namespace PartitionScheme

variable {γ : Type}

/-- The replica set of a bucket in a group, as positions in the scheme, while some partitions are alive. -/
def replicaSet (scheme : PartitionScheme γ) (hash : PartitionId → UInt32) (alive : PartitionId → Bool)
    (group : PartitionGroup) (bucket : Bucket) : List Nat :=
  ((GroupSharder.ofGroup scheme.identities hash group).adapted alive).replicas bucket

structure WellFormed (hash : PartitionId → UInt32) (scheme : PartitionScheme γ) : Prop where
  base_eq : scheme.base = scheme.groups.map (.ofGroup scheme.identities hash)
  groups_ne_nil : scheme.groups ≠ []
  members_ne_nil : ∀ group ∈ scheme.groups, group.members ≠ []
  replicas_pos : ∀ group ∈ scheme.groups, 0 < group.replicas
  mem_identities : ∀ group ∈ scheme.groups, ∀ member ∈ group.members, member ∈ scheme.identities
  nodup_identities : scheme.identities.Nodup

theorem WellFormed.lt_size {hash : PartitionId → UInt32} {scheme : PartitionScheme γ}
    (h : scheme.WellFormed hash) {alive : PartitionId → Bool} {group : PartitionGroup}
    (hgroup : group ∈ scheme.groups) {bucket : Bucket} {index : Nat}
    (hindex : index ∈ scheme.replicaSet hash alive group bucket) : index < scheme.size := by
  have hlt := GroupSharder.lt_of_mem_replicas scheme.identities hash group alive
    (h.mem_identities group hgroup) hindex
  rwa [identities, List.length_map] at hlt

private theorem faultFrom_eq_none {position : Nat} {groups : List PartitionGroup}
    (h : faultFrom position groups = none) :
    ∀ group ∈ groups, group.partitions ≠ [] ∧ 0 < group.replicas := by
  induction groups generalizing position with
  | nil => simp
  | cons first rest ih =>
    unfold faultFrom at h
    split at h
    · contradiction
    next hpartitions =>
      split at h
      · contradiction
      next hreplicas =>
        intro group hgroup
        rcases List.mem_cons.mp hgroup with rfl | hmem
        · exact ⟨fun hnil => hpartitions (List.isEmpty_iff.mpr hnil), Nat.pos_of_ne_zero hreplicas⟩
        · exact ih h group hmem

private theorem map_identity_ascending (partitions : List Partition) :
    ((sortedDistinct partitions).map Partition.identity).Pairwise fun a b => compare a b = .lt :=
  List.pairwise_map.mpr (sortedDistinct_ascending partitions)

private theorem nodup_map_identity (partitions : List Partition) :
    ((sortedDistinct partitions).map Partition.identity).Nodup :=
  nodup_of_ascending (map_identity_ascending partitions)

theorem wellFormed_of_create {groups : List PartitionGroup} {client : Partition → Option γ}
    {hash : PartitionId → UInt32} {scheme : PartitionScheme γ}
    (h : create groups client hash = .ok scheme) :
    scheme.WellFormed hash ∧ scheme.groups = groups ∧ scheme.client = client := by
  unfold create at h
  split at h
  · contradiction
  next hfault =>
    cases h
    unfold fault? at hfault
    split at hfault
    · contradiction
    next hnonempty =>
      have hgroups := faultFrom_eq_none hfault
      refine ⟨⟨rfl, ?_, ?_, fun group hgroup => (hgroups group hgroup).2, ?_, nodup_map_identity _⟩,
        rfl, rfl⟩
      · exact fun hnil => hnonempty (List.isEmpty_iff.mpr hnil)
      · intro group hgroup hnil
        exact (hgroups group hgroup).1 (List.map_eq_nil_iff.mp hnil)
      · intro group hgroup member hmember
        obtain ⟨partition, hpartition, rfl⟩ := List.mem_map.mp hmember
        obtain ⟨kept, hkept, heq⟩ :=
          exists_mem_sortedDistinct (List.mem_flatMap.mpr ⟨group, hgroup, hpartition⟩)
        have hsame : partition.identity = kept.identity := Std.LawfulEqOrd.eq_of_compare heq
        exact hsame ▸ List.mem_map_of_mem hkept

theorem identities_ascending_of_create {groups : List PartitionGroup} {client : Partition → Option γ}
    {hash : PartitionId → UInt32} {scheme : PartitionScheme γ}
    (h : create groups client hash = .ok scheme) :
    scheme.identities.Pairwise fun a b => compare a b = .lt := by
  unfold create at h
  split at h
  · contradiction
  · cases h
    exact map_identity_ascending _

private theorem activeSharders_eq_some {alive : PartitionId → Bool}
    (base : PartitionGroup → GroupSharder) {groups : List PartitionGroup} {sharders : List GroupSharder}
    (h : activeSharders alive (groups.zip (groups.map base)) = some sharders) :
    sharders = (groups.filter PartitionGroup.active).map (fun group => (base group).adapted alive) ∧
      ∀ group ∈ groups, group.active = true → group.members.any alive = true := by
  induction groups generalizing sharders with
  | nil =>
    cases h
    simp
  | cons first rest ih =>
    simp only [List.map_cons, List.zip_cons_cons, activeSharders] at h
    split at h
    next hinactive =>
      obtain ⟨rfl, hrest⟩ := ih h
      simp_all
    next hactive =>
      split at h
      · contradiction
      next halive =>
        obtain ⟨tail, htail, rfl⟩ := Option.map_eq_some_iff.mp h
        obtain ⟨rfl, hrest⟩ := ih htail
        simp_all

private theorem activeSharders_isSome {alive : PartitionId → Bool} (base : PartitionGroup → GroupSharder)
    {groups : List PartitionGroup}
    (h : ∀ group ∈ groups, group.active = true → group.members.any alive = true) :
    (activeSharders alive (groups.zip (groups.map base))).isSome = true := by
  induction groups with
  | nil => rfl
  | cons first rest ih =>
    have hrest := ih fun group hgroup => h group (List.mem_cons_of_mem first hgroup)
    simp only [List.map_cons, List.zip_cons_cons, activeSharders]
    split
    next => exact hrest
    next hactive =>
      have halive := h first List.mem_cons_self (by simpa using hactive)
      simp only [halive, Bool.not_true, Bool.false_eq_true, if_false, Option.isSome_map]
      exact hrest

theorem createSharder_eq_some {hash : PartitionId → UInt32} {scheme : PartitionScheme γ}
    (hwell : scheme.WellFormed hash) {alive : PartitionId → Bool} {sharder : SchemeSharder}
    (h : scheme.createSharder alive = some sharder) :
    sharder.groups = (scheme.groups.filter PartitionGroup.active).map (fun group =>
        (GroupSharder.ofGroup scheme.identities hash group).adapted alive) ∧
      sharder.groups ≠ [] ∧
      ∀ group ∈ scheme.groups, group.active = true → group.members.any alive = true := by
  unfold createSharder at h
  rw [hwell.base_eq] at h
  split at h
  next group groups hactive =>
    cases h
    obtain ⟨heq, halive⟩ := activeSharders_eq_some _ hactive
    exact ⟨heq, List.cons_ne_nil _ _, halive⟩
  · contradiction

/-- There is a sharder to route writes exactly if some group is active and every active group has a member
that is alive. -/
theorem createSharder_isSome_iff {hash : PartitionId → UInt32} {scheme : PartitionScheme γ}
    (hwell : scheme.WellFormed hash) (alive : PartitionId → Bool) :
    (scheme.createSharder alive).isSome = true ↔
      (∃ group ∈ scheme.groups, group.active = true) ∧
      ∀ group ∈ scheme.groups, group.active = true → group.members.any alive = true := by
  constructor
  · intro h
    obtain ⟨sharder, hsharder⟩ := Option.isSome_iff_exists.mp h
    obtain ⟨hparts, hne, halive⟩ := createSharder_eq_some hwell hsharder
    rw [hparts, ne_eq, List.map_eq_nil_iff] at hne
    obtain ⟨group, hgroup⟩ := List.exists_mem_of_ne_nil _ hne
    exact ⟨⟨group, List.mem_filter.mp hgroup⟩, halive⟩
  · rintro ⟨⟨group, hgroup, hactive⟩, halive⟩
    obtain ⟨sharders, hsharders⟩ :=
      Option.isSome_iff_exists.mp (activeSharders_isSome (.ofGroup scheme.identities hash) halive)
    have hmem := List.mem_map_of_mem (f := fun group =>
      (GroupSharder.ofGroup scheme.identities hash group).adapted alive)
      (List.mem_filter.mpr ⟨hgroup, hactive⟩)
    rw [← (activeSharders_eq_some _ hsharders).1] at hmem
    unfold createSharder
    rw [hwell.base_eq, hsharders]
    cases sharders with
    | nil => exact absurd hmem List.not_mem_nil
    | cons first rest => rfl

/-- A read that is valid without some partitions is valid without fewer. -/
theorem isReadValid_anti (scheme : PartitionScheme γ) {fewer more : IndexSet} {quorum : Quorum}
    (hsub : ∀ index, index ∈ fewer → index ∈ more) (h : scheme.isReadValid more quorum = true) :
    scheme.isReadValid fewer quorum = true := by
  obtain ⟨group, hgroup, hsatisfies⟩ := List.any_eq_true.mp h
  exact List.any_eq_true.mpr ⟨group, hgroup, GroupSharder.satisfies_anti hsub hsatisfies⟩

theorem isReadValid_of_healthy {hash : PartitionId → UInt32} {scheme : PartitionScheme γ}
    (hwell : scheme.WellFormed hash) {unhealthy : IndexSet} (quorum : Quorum)
    (h : ∀ index, index ∉ unhealthy) : scheme.isReadValid unhealthy quorum = true := by
  have hsatisfies : ∀ group : GroupSharder, group.satisfies unhealthy quorum = true := fun group =>
    List.all_eq_true.mpr fun bucket _ => GroupSharder.bucketSatisfies_of_healthy group quorum bucket h
  have hnonempty : scheme.readGroups ≠ [] := by
    unfold readGroups
    split
    next hany =>
      obtain ⟨group, hgroup, hactive⟩ := List.any_eq_true.mp hany
      exact List.ne_nil_of_mem (List.mem_filter.mpr ⟨hgroup, hactive⟩)
    next =>
      rw [hwell.base_eq]
      simpa using hwell.groups_ne_nil
  obtain ⟨group, hgroup⟩ := List.exists_mem_of_ne_nil _ hnonempty
  exact List.any_eq_true.mpr ⟨group, hgroup, hsatisfies group⟩

end PartitionScheme

end ReplicatedStore
