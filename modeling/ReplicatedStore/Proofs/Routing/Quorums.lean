import ReplicatedStore.Proofs.Routing.Routes
/-!
# Quorums of replica sets

The checks of writes and reads look at few buckets, and at positions instead of partitions. What they say is
true bucket by bucket: in a group, enough of the partitions to which a bucket is routed have not failed.
-/

namespace ReplicatedStore

namespace PartitionGroup

variable {group : PartitionGroup} {hash : PartitionId → UInt32} {alive : PartitionId → Bool}
  {bucket : Bucket}

private theorem Outranks.asymm {a b : PartitionId} (hab : Outranks hash bucket a b) :
    ¬ Outranks hash bucket b a :=
  RankedMember.not_outranks Std.OrientedCmp.not_lt_of_lt hab

theorem IsRoute.eq_route {route : List PartitionId} (h : group.IsRoute hash alive bucket route) :
    route = group.route hash alive bucket := by
  obtain ⟨ranked, hperm, houtranks, -, hroute⟩ := h
  obtain ⟨ranked', hperm', houtranks', -, hroute'⟩ := group.isRoute_route hash alive bucket
  have hsame : ranked = ranked' :=
    (hperm.trans hperm'.symm).eq_of_pairwise (fun _ _ _ _ hab hba => absurd hba hab.asymm) houtranks houtranks'
  rw [hroute, hroute', hsame]

theorem route_eq_candidates (h : (group.candidates alive).length ≤ group.replicas) :
    group.route hash alive bucket = group.candidates alive := by
  obtain ⟨_, -, -, -, hroute⟩ := group.isRoute_route hash alive bucket
  rw [hroute, if_pos h]

end PartitionGroup

namespace PartitionScheme

variable {γ : Type}

def isAt (scheme : PartitionScheme γ) (positions : IndexSet) (partition : PartitionId) : Bool :=
  (scheme.indexOf? partition).any positions.contains

/-- Enough of the partitions that a bucket is routed to in a group have not failed, while keys of the group
are shared among the members that are alive, or among all of them. -/
def KeepsQuorum (scheme : PartitionScheme γ) (hash : PartitionId → UInt32) (alive : PartitionId → Bool)
    (failed : IndexSet) (quorum : Quorum) (group : PartitionGroup) (bucket : Bucket) : Prop :=
  ∃ route, group.IsRoute hash alive bucket route ∧
    quorum.required route.length ≤ route.countP fun partition => !scheme.isAt failed partition

variable {hash : PartitionId → UInt32} {scheme : PartitionScheme γ}

theorem keepsQuorum_iff {alive : PartitionId → Bool} {failed : IndexSet} {quorum : Quorum}
    {group : PartitionGroup} {bucket : Bucket} :
    scheme.KeepsQuorum hash alive failed quorum group bucket ↔
      quorum.required (group.route hash alive bucket).length ≤
        (group.route hash alive bucket).countP fun partition => !scheme.isAt failed partition := by
  constructor
  · rintro ⟨route, hroute, hquorum⟩
    rwa [hroute.eq_route] at hquorum
  · exact fun hquorum => ⟨_, group.isRoute_route hash alive bucket, hquorum⟩

theorem indexOf?_eq_some_iff (hwell : scheme.WellFormed hash) {index : Nat} {partition : PartitionId} :
    scheme.indexOf? partition = some index ↔ scheme.identities[index]? = some partition := by
  rw [indexOf?, List.idxOf?_eq_some_iff, List.getElem?_eq_some_iff]
  constructor
  · intro h
    obtain ⟨hlt, hget, -⟩ := h
    exact ⟨hlt, hget⟩
  · intro h
    obtain ⟨hlt, hget⟩ := h
    refine ⟨hlt, hget, fun other hother hsame => ?_⟩
    have heq := (hwell.nodup_identities.getElem_inj_iff).mp (hsame.trans hget.symm)
    omega

theorem isAt_of_getElem? (hwell : scheme.WellFormed hash) {index : Nat} {partition : PartitionId}
    (h : scheme.identities[index]? = some partition) (positions : IndexSet) :
    scheme.isAt positions partition = positions.contains index := by
  rw [isAt, (indexOf?_eq_some_iff hwell).mpr h, Option.any_some]

/-- The check of a bucket counts the partitions of its route. -/
theorem bucketSatisfies_adapted_iff (hwell : scheme.WellFormed hash) {group : PartitionGroup}
    (hgroup : group ∈ scheme.groups) (alive : PartitionId → Bool) (failed : IndexSet) (quorum : Quorum)
    (bucket : Bucket) :
    ((GroupSharder.ofGroup scheme.identities hash group).adapted alive).bucketSatisfies failed quorum bucket =
        true ↔
      scheme.KeepsQuorum hash alive failed quorum group bucket := by
  let part := (GroupSharder.ofGroup scheme.identities hash group).adapted alive
  let healthy : Option PartitionId → Bool := Option.any fun partition => !scheme.isAt failed partition
  have hroute : (part.replicas bucket).map (scheme.identities[·]?) =
      (group.route hash alive bucket).map some :=
    GroupSharder.map_getElem?_replicas scheme.identities hash group alive bucket
      (hwell.mem_identities group hgroup)
  have hlength : (part.replicas bucket).length = (group.route hash alive bucket).length := by
    simpa only [List.length_map] using congrArg List.length hroute
  have hcount : (part.replicas bucket).countP (fun index => !failed.contains index) =
      (group.route hash alive bucket).countP fun partition => !scheme.isAt failed partition := by
    calc (part.replicas bucket).countP (fun index => !failed.contains index)
        = (part.replicas bucket).countP (healthy ∘ (scheme.identities[·]?)) := by
          refine List.countP_congr fun index hindex => ?_
          have hlt := GroupSharder.lt_of_mem_replicas scheme.identities hash group alive
            (hwell.mem_identities group hgroup) hindex
          have hget := List.getElem?_eq_getElem hlt
          simp only [healthy, Function.comp_apply, hget, Option.any_some, isAt_of_getElem? hwell hget]
      _ = ((group.route hash alive bucket).map some).countP healthy := by rw [← List.countP_map, hroute]
      _ = (group.route hash alive bucket).countP fun partition => !scheme.isAt failed partition := by
          rw [List.countP_map]
          rfl
  rw [keepsQuorum_iff, GroupSharder.bucketSatisfies, Quorum.isSatisfied, decide_eq_true_eq, hlength, hcount]

theorem satisfies_base_iff (hwell : scheme.WellFormed hash) {group : PartitionGroup}
    (hgroup : group ∈ scheme.groups) (unhealthy : IndexSet) (quorum : Quorum) :
    (GroupSharder.ofGroup scheme.identities hash group).satisfies unhealthy quorum = true ↔
      ∀ bucket, scheme.KeepsQuorum hash (fun _ => true) unhealthy quorum group bucket := by
  rw [GroupSharder.satisfies_iff, ← GroupSharder.adapted_of_all_alive]
  exact forall_congr' fun bucket => bucketSatisfies_adapted_iff hwell hgroup _ unhealthy quorum bucket

theorem isWriteSatisfied_iff (hwell : scheme.WellFormed hash) {alive : PartitionId → Bool}
    {sharder : SchemeSharder} (hsharder : scheme.createSharder alive = some sharder) (failed : IndexSet)
    (buckets : BucketSet) (quorum : Quorum) :
    sharder.isWriteSatisfied failed buckets quorum = true ↔
      ∀ group ∈ scheme.groups, group.active = true → ∀ bucket, buckets.contains bucket = true →
        scheme.KeepsQuorum hash alive failed quorum group bucket := by
  rw [SchemeSharder.isWriteSatisfied, (createSharder_eq_some hwell hsharder).1, List.all_eq_true,
    List.forall_mem_map]
  simp only [List.mem_filter, and_imp, GroupSharder.satisfiesIn_iff]
  constructor
  · intro h group hgroup hactive bucket hbucket
    exact (bucketSatisfies_adapted_iff hwell hgroup alive failed quorum bucket).mp
      (h group hgroup hactive bucket hbucket)
  · intro h group hgroup hactive bucket hbucket
    exact (bucketSatisfies_adapted_iff hwell hgroup alive failed quorum bucket).mpr
      (h group hgroup hactive bucket hbucket)

theorem isHealthy_iff (hwell : scheme.WellFormed hash) (unhealthy : IndexSet) (quorum : Quorum) :
    scheme.isHealthy unhealthy quorum = true ↔
      ∀ group ∈ scheme.groups, ∀ bucket,
        scheme.KeepsQuorum hash (fun _ => true) unhealthy quorum group bucket := by
  rw [isHealthy, hwell.base_eq, List.all_eq_true, List.forall_mem_map]
  exact forall_congr' fun group => forall_congr' fun hgroup => satisfies_base_iff hwell hgroup unhealthy quorum

/-- Reads rely on the active groups, and on all groups if none is active. -/
private theorem mem_readGroups (hwell : scheme.WellFormed hash) {part : GroupSharder} :
    part ∈ scheme.readGroups ↔ ∃ group ∈ scheme.groups,
      ((∃ other ∈ scheme.groups, other.active = true) → group.active = true) ∧
      GroupSharder.ofGroup scheme.identities hash group = part := by
  have hany : scheme.base.any GroupSharder.active = true ↔
      ∃ other ∈ scheme.groups, other.active = true := by
    rw [hwell.base_eq, List.any_map, List.any_eq_true]
    rfl
  unfold readGroups
  split
  next hsome =>
    rw [hwell.base_eq, List.mem_filter, List.mem_map]
    constructor
    · rintro ⟨⟨group, hgroup, rfl⟩, hactive⟩
      exact ⟨group, hgroup, fun _ => hactive, rfl⟩
    · rintro ⟨group, hgroup, hactive, rfl⟩
      exact ⟨⟨group, hgroup, rfl⟩, hactive (hany.mp hsome)⟩
  next hnone =>
    rw [hwell.base_eq, List.mem_map]
    constructor
    · rintro ⟨group, hgroup, rfl⟩
      exact ⟨group, hgroup, fun hsome => absurd (hany.mpr hsome) hnone, rfl⟩
    · rintro ⟨group, hgroup, -, rfl⟩
      exact ⟨group, hgroup, rfl⟩

theorem isReadValid_iff (hwell : scheme.WellFormed hash) (unhealthy : IndexSet) (quorum : Quorum) :
    scheme.isReadValid unhealthy quorum = true ↔
      ∃ group ∈ scheme.groups, ((∃ other ∈ scheme.groups, other.active = true) → group.active = true) ∧
        ∀ bucket, scheme.KeepsQuorum hash (fun _ => true) unhealthy quorum group bucket := by
  rw [isReadValid, List.any_eq_true]
  constructor
  · rintro ⟨part, hpart, hsatisfies⟩
    obtain ⟨group, hgroup, hactive, rfl⟩ := (mem_readGroups hwell).mp hpart
    exact ⟨group, hgroup, hactive, (satisfies_base_iff hwell hgroup unhealthy quorum).mp hsatisfies⟩
  · rintro ⟨group, hgroup, hactive, hquorum⟩
    exact ⟨_, (mem_readGroups hwell).mpr ⟨group, hgroup, hactive, rfl⟩,
      (satisfies_base_iff hwell hgroup unhealthy quorum).mpr hquorum⟩

theorem isHealthy_anti (scheme : PartitionScheme γ) {fewer more : IndexSet} {quorum : Quorum}
    (hsub : ∀ index, index ∈ fewer → index ∈ more) (h : scheme.isHealthy more quorum = true) :
    scheme.isHealthy fewer quorum = true :=
  List.all_eq_true.mpr fun part hpart => GroupSharder.satisfies_anti hsub (List.all_eq_true.mp h part hpart)

theorem keepsQuorum_empty (scheme : PartitionScheme γ) (hash : PartitionId → UInt32)
    (alive : PartitionId → Bool) (quorum : Quorum) (group : PartitionGroup) (bucket : Bucket) :
    scheme.KeepsQuorum hash alive ∅ quorum group bucket := by
  have hhealthy : ∀ partition, scheme.isAt ∅ partition = false := by
    intro partition
    rw [isAt, Option.any_eq_false]
    intro index _
    exact Std.TreeSet.contains_emptyc
  rw [keepsQuorum_iff]
  simp only [hhealthy, Bool.not_false, List.countP_true]
  exact Nat.min_le_right _ _

/-- The checks of writes and reads agree with the routes of buckets. A write is satisfied if in every active
group every bucket written keeps a quorum of those it is routed to; all is healthy if this is so for all
buckets of all groups with all their members; a read is valid if it is so for some active group, or for some
group if none is active. All checks pass if nothing failed, and none passes because more failed. -/
theorem quorum_checks {groups : List PartitionGroup} {client : Partition → Option γ}
    (hcreate : create groups client hash = .ok scheme) (quorum : Quorum) :
    (∀ alive sharder, scheme.createSharder alive = some sharder → ∀ written : List Bucket,
      (∀ failed, sharder.isWriteSatisfied failed (.ofList written) quorum = true ↔
        ∀ group ∈ groups, group.active = true → ∀ bucket ∈ written,
          scheme.KeepsQuorum hash alive failed quorum group bucket) ∧
      sharder.isWriteSatisfied ∅ (.ofList written) quorum = true) ∧
    (∀ unhealthy, scheme.isHealthy unhealthy quorum = true ↔
      ∀ group ∈ groups, ∀ bucket,
        scheme.KeepsQuorum hash (fun _ => true) unhealthy quorum group bucket) ∧
    (∀ unhealthy, scheme.isReadValid unhealthy quorum = true ↔
      ∃ group ∈ groups, ((∃ other ∈ groups, other.active = true) → group.active = true) ∧
        ∀ bucket, scheme.KeepsQuorum hash (fun _ => true) unhealthy quorum group bucket) ∧
    scheme.isHealthy ∅ quorum = true ∧ scheme.isReadValid ∅ quorum = true ∧
    ∀ fewer more : IndexSet, (∀ index, index ∈ fewer → index ∈ more) →
      (scheme.isHealthy more quorum = true → scheme.isHealthy fewer quorum = true) ∧
      (scheme.isReadValid more quorum = true → scheme.isReadValid fewer quorum = true) := by
  obtain ⟨hwell, rfl, -⟩ := wellFormed_of_create hcreate
  refine ⟨fun alive sharder hsharder written => ⟨fun failed => ?_, ?_⟩,
    fun unhealthy => isHealthy_iff hwell unhealthy quorum,
    fun unhealthy => isReadValid_iff hwell unhealthy quorum, ?_, ?_,
    fun fewer more hsub => ⟨isHealthy_anti scheme hsub, isReadValid_anti scheme hsub⟩⟩
  · have hwrite := isWriteSatisfied_iff hwell hsharder failed (.ofList written) quorum
    simpa only [BucketSet.contains_ofList] using hwrite
  · exact (isWriteSatisfied_iff hwell hsharder ∅ (.ofList written) quorum).mpr
      fun group _ _ bucket _ => scheme.keepsQuorum_empty hash alive quorum group bucket
  · exact (isHealthy_iff hwell ∅ quorum).mpr
      fun group _ bucket => scheme.keepsQuorum_empty hash _ quorum group bucket
  · exact isReadValid_of_healthy hwell quorum fun index => Std.TreeSet.not_mem_emptyc

/-- A group of which every member owns every bucket has lost one of them, so no write to it reaches all,
unless it is empty. -/
theorem quorum_checks_of_lost_member :
    let a : PartitionId := ⟨"disk", "a"⟩
    let b : PartitionId := ⟨"disk", "b"⟩
    let groups : List PartitionGroup := [⟨[⟨a, none, none⟩, ⟨b, none, none⟩], 3, true, true⟩]
    ∃ scheme : PartitionScheme Unit, create groups (fun _ => none) PartitionId.identityHash = .ok scheme ∧
      ∃ sharder, scheme.createSharder (fun _ => true) = some sharder ∧
        (∀ written, sharder.isWriteSatisfied (.ofList [1]) (.ofList written) .all = true ↔ written = []) ∧
        scheme.isReadValid (.ofList [1]) .all = false ∧ scheme.isReadValid (.ofList [1]) .one = true := by
  intro a b groups
  obtain ⟨scheme, hcreate⟩ : ∃ scheme : PartitionScheme Unit,
      create groups (fun _ => none) PartitionId.identityHash = .ok scheme := ⟨_, rfl⟩
  have hidentities : scheme.identities = [a, b] := by
    cases hcreate
    show (sortedDistinct _).map Partition.identity = _
    rw [sortedDistinct_eq_self (by decide +kernel)]
    rfl
  have hcandidates : groups[0].candidates (fun _ => true) = [a, b] := by
    rw [PartitionGroup.candidates, sortedDistinct_eq_self (by decide +kernel)]
    rfl
  have hkeeps : ∀ quorum bucket,
      scheme.KeepsQuorum PartitionId.identityHash (fun _ => true) (.ofList [1]) quorum groups[0] bucket ↔
        quorum.required 2 ≤ 1 := by
    intro quorum bucket
    rw [keepsQuorum_iff, PartitionGroup.route_eq_candidates (by rw [hcandidates]; decide), hcandidates]
    simp only [isAt, indexOf?, hidentities]
    rfl
  obtain ⟨hwell, hgroups, -⟩ := wellFormed_of_create hcreate
  obtain ⟨sharder, hsharder⟩ := Option.isSome_iff_exists.mp
    ((createSharder_isSome_iff hwell fun _ => true).mpr (by rw [hgroups]; decide))
  refine ⟨scheme, hcreate, sharder, hsharder, fun written => ?_, ?_, ?_⟩
  · rw [((quorum_checks hcreate .all).1 _ sharder hsharder written).1]
    constructor
    · intro h
      refine List.eq_nil_iff_forall_not_mem.mpr fun bucket hbucket => ?_
      have hlost := (hkeeps .all bucket).mp (h _ (List.mem_singleton_self _) rfl bucket hbucket)
      exact absurd hlost (by decide)
    · rintro rfl group - - bucket hbucket
      contradiction
  · refine Bool.eq_false_iff.mpr fun h => ?_
    obtain ⟨group, hgroup, -, hquorum⟩ := ((quorum_checks hcreate .all).2.2.1 _).mp h
    rw [List.mem_singleton.mp hgroup] at hquorum
    exact absurd ((hkeeps .all Bucket.first).mp (hquorum Bucket.first)) (by decide)
  · refine ((quorum_checks hcreate .one).2.2.1 _).mpr ⟨_, List.mem_singleton_self _, fun _ => rfl, ?_⟩
    exact fun bucket => (hkeeps .one bucket).mpr (by decide)

end PartitionScheme

end ReplicatedStore
