import ReplicatedStore.Proofs.Routing.Routes
/-!
# Paired groups

Where partitions are ranked by their ids alone, a group whose partitions all carry one name shares its keys
as its ids would among themselves. Two groups with the same ids therefore write a key to partitions with the
same ids, and if one group comes before the other, its positions are those of the other less the number of
ids.
-/

namespace ReplicatedStore

namespace RankedMember

variable {π ρ : Type}

def relabel (label : π → ρ) (m : RankedMember π) : RankedMember ρ := ⟨label m.member, m.index, m.hash⟩

@[simp] theorem index_relabel (label : π → ρ) (m : RankedMember π) : (m.relabel label).index = m.index := rfl

@[simp] theorem member_relabel (label : π → ρ) (m : RankedMember π) :
    (m.relabel label).member = label m.member := rfl

theorem ranked_relabel (label : π → ρ) (bucket : Nat) (members : List (RankedMember π)) :
    ranked bucket (members.map (relabel label)) = (ranked bucket members).map (relabel label) := by
  symm
  apply List.map_mergeSort
  intro a _ b _
  rfl

end RankedMember

namespace PartitionId

theorem compare_of_group (group a b : String) :
    compare (PartitionId.mk group a) (PartitionId.mk group b) = compare a b := by
  change (compare group group).then ((compare a b).then .eq) = compare a b
  have hsame : compare group group = .eq := Std.ReflCmp.compare_self
  rw [hsame]
  cases compare a b <;> rfl

theorem compare_of_group_lt {group other : String} (h : compare group other = .lt) (a b : String) :
    compare (PartitionId.mk group a) (PartitionId.mk other b) = .lt := by
  change (compare group other).then _ = .lt
  rw [h]
  rfl

end PartitionId

namespace PartitionGroup

variable {group : PartitionGroup} {name : String}

def ids (group : PartitionGroup) : List String := sortedDistinct (group.members.map PartitionId.id)

def IsNamed (group : PartitionGroup) (name : String) : Prop := ∀ member ∈ group.members, member.group = name

instance (group : PartitionGroup) (name : String) : Decidable (group.IsNamed name) :=
  inferInstanceAs (Decidable (∀ member ∈ group.members, member.group = name))

def numberedIds (group : PartitionGroup) : List (RankedMember String) :=
  Rendezvous.numbered (group.members.map PartitionId.id) hash32

def chosenIds (group : PartitionGroup) (shares : String → Bool) (bucket : Bucket) :
    List (RankedMember String) :=
  let sharing := group.numberedIds.filter fun m => shares m.member
  if sharing.length ≤ group.replicas then sharing
  else (RankedMember.ranked bucket sharing).take group.replicas

theorem mem_ids_iff (hname : group.IsNamed name) (id : String) :
    id ∈ group.ids ↔ PartitionId.mk name id ∈ group.members := by
  rw [ids, mem_sortedDistinct_iff, List.mem_map]
  constructor
  · rintro ⟨member, hmember, rfl⟩
    rwa [← hname member hmember]
  · intro hmember
    exact ⟨_, hmember, rfl⟩

theorem members_ascending (name : String) :
    (group.ids.map (PartitionId.mk name)).Pairwise fun a b => compare a b = .lt := by
  apply List.pairwise_map.mpr
  refine (sortedDistinct_ascending (group.members.map PartitionId.id)).imp ?_
  intro a b hlt
  rwa [PartitionId.compare_of_group]

theorem sortedDistinct_members (hname : group.IsNamed name) :
    sortedDistinct group.members = group.ids.map (PartitionId.mk name) := by
  apply eq_of_ascending (sortedDistinct_ascending _) (members_ascending name)
  intro member
  rw [mem_sortedDistinct_iff, List.mem_map]
  constructor
  · intro hmember
    have hgroup := hname member hmember
    subst hgroup
    exact ⟨member.id, (mem_ids_iff hname member.id).mpr hmember, rfl⟩
  · rintro ⟨id, hid, rfl⟩
    exact (mem_ids_iff hname id).mp hid

theorem numbered_eq (hname : group.IsNamed name) :
    group.numbered PartitionId.idHash = group.numberedIds.map (RankedMember.relabel (PartitionId.mk name)) := by
  unfold numbered numberedIds Rendezvous.numbered
  rw [sortedDistinct_members hname, List.zipIdx_map, List.map_map, List.map_map]
  rfl

theorem chosen_eq (hname : group.IsNamed name) (alive : PartitionId → Bool) (bucket : Bucket) :
    group.chosen PartitionId.idHash alive bucket =
      (group.chosenIds (fun id => !group.repartition || alive ⟨name, id⟩) bucket).map
        (RankedMember.relabel (PartitionId.mk name)) := by
  have hsharing : group.sharing PartitionId.idHash alive =
      (group.numberedIds.filter fun m => !group.repartition || alive ⟨name, m.member⟩).map
        (RankedMember.relabel (PartitionId.mk name)) := by
    rw [sharing_eq_filter, numbered_eq hname, List.filter_map]
    rfl
  unfold chosen chosenIds
  rw [hsharing, List.length_map, RankedMember.ranked_relabel, ← List.map_take]
  dsimp only
  split <;> rfl

theorem getElem?_ids {m : RankedMember String} (h : m ∈ group.numberedIds) :
    group.ids[m.index]? = some m.member :=
  ((Rendezvous.mem_numbered _ hash32).mp h).1

theorem chosenIds_subset (shares : String → Bool) (bucket : Bucket) :
    group.chosenIds shares bucket ⊆ group.numberedIds := by
  intro m hm
  unfold chosenIds at hm
  dsimp only at hm
  split at hm
  · exact List.mem_of_mem_filter hm
  · exact List.mem_of_mem_filter (RankedMember.mem_ranked.mp (List.mem_of_mem_take hm))

theorem nodup_chosenIds (shares : String → Bool) (bucket : Bucket) :
    ((group.chosenIds shares bucket).map RankedMember.member).Nodup := by
  have hall : (group.numberedIds.map RankedMember.member).Nodup := by
    rw [numberedIds, Rendezvous.map_member_numbered]
    exact sortedDistinct_nodup _
  have hsharing : ((group.numberedIds.filter fun m => shares m.member).map RankedMember.member).Nodup :=
    hall.sublist (List.filter_sublist.map _)
  unfold chosenIds
  dsimp only
  split
  · exact hsharing
  · rw [List.map_take]
    apply List.Nodup.sublist (List.take_sublist _ _)
    exact ((RankedMember.ranked_perm _ _).map RankedMember.member).symm.nodup hsharing

/-- Two active groups that are alike but for the name that the partitions of each carry. -/
structure PairedWith (first second : PartitionGroup) (a b : String) : Prop where
  name_ne : a ≠ b
  named : first.IsNamed a
  other_named : second.IsNamed b
  mem_ids_iff : ∀ id, id ∈ first.ids ↔ id ∈ second.ids
  replicas_eq : first.replicas = second.replicas
  repartition_eq : first.repartition = second.repartition
  active : first.active = true
  other_active : second.active = true

namespace PairedWith

variable {first second : PartitionGroup} {a b : String}

theorem ids_eq (h : first.PairedWith second a b) : first.ids = second.ids :=
  eq_of_ascending (sortedDistinct_ascending _) (sortedDistinct_ascending _) h.mem_ids_iff

theorem numberedIds_eq (h : first.PairedWith second a b) : first.numberedIds = second.numberedIds := by
  have hids : sortedDistinct (first.members.map PartitionId.id) =
      sortedDistinct (second.members.map PartitionId.id) := h.ids_eq
  unfold numberedIds Rendezvous.numbered
  rw [hids]

theorem chosenIds_eq (h : first.PairedWith second a b) {alive : PartitionId → Bool}
    (hsame : ∀ id ∈ first.ids, alive ⟨a, id⟩ = alive ⟨b, id⟩) (bucket : Bucket) :
    first.chosenIds (fun id => !first.repartition || alive ⟨a, id⟩) bucket =
      second.chosenIds (fun id => !second.repartition || alive ⟨b, id⟩) bucket := by
  have hsharing : (first.numberedIds.filter fun m => !first.repartition || alive ⟨a, m.member⟩) =
      second.numberedIds.filter fun m => !second.repartition || alive ⟨b, m.member⟩ := by
    rw [← h.numberedIds_eq, ← h.repartition_eq]
    apply List.filter_congr
    intro m hm
    rw [hsame m.member (List.mem_of_getElem? (getElem?_ids hm))]
  unfold chosenIds
  rw [hsharing, h.replicas_eq]

end PairedWith

end PartitionGroup

namespace GroupSharder

variable {identities : List PartitionId} {group : PartitionGroup} {name : String}

theorem replicas_named (hname : group.IsNamed name) (alive : PartitionId → Bool) (bucket : Bucket) :
    ((ofGroup identities PartitionId.idHash group).adapted alive).replicas bucket =
      (group.chosenIds (fun id => !group.repartition || alive ⟨name, id⟩) bucket).map fun m =>
        (ofGroup identities PartitionId.idHash group).position m.index := by
  rw [replicas_adapted, group.owners_sharing, PartitionGroup.chosen_eq hname, List.map_map, List.map_map]
  rfl

theorem getElem?_position_named (hname : group.IsNamed name)
    (hmembers : ∀ member ∈ group.members, member ∈ identities) {m : RankedMember String}
    (hm : m ∈ group.numberedIds) :
    identities[(ofGroup identities PartitionId.idHash group).position m.index]? = some ⟨name, m.member⟩ := by
  have hnumbered : m.relabel (PartitionId.mk name) ∈ group.numbered PartitionId.idHash := by
    rw [PartitionGroup.numbered_eq hname]
    exact List.mem_map_of_mem hm
  exact getElem?_position identities PartitionId.idHash group hnumbered hmembers

theorem map_getElem?_replicas_named (hname : group.IsNamed name)
    (hmembers : ∀ member ∈ group.members, member ∈ identities) (alive : PartitionId → Bool)
    (bucket : Bucket) :
    (((ofGroup identities PartitionId.idHash group).adapted alive).replicas bucket).map (identities[·]?) =
      (group.chosenIds (fun id => !group.repartition || alive ⟨name, id⟩) bucket).map fun m =>
        some ⟨name, m.member⟩ := by
  rw [replicas_named hname, List.map_map]
  apply List.map_congr_left
  intro m hm
  exact getElem?_position_named hname hmembers (PartitionGroup.chosenIds_subset _ bucket hm)

/-- Where the partitions of a group follow each other in the scheme, positions are numbers behind the
partitions before them. -/
theorem position_eq (hname : group.IsNamed name) {before after : List PartitionId}
    (hparts : identities = before ++ (group.ids.map (PartitionId.mk name) ++ after))
    (hnodup : identities.Nodup) {m : RankedMember String} (hm : m ∈ group.numberedIds) :
    (ofGroup identities PartitionId.idHash group).position m.index = before.length + m.index := by
  have hid := PartitionGroup.getElem?_ids hm
  have hlt : m.index < group.ids.length := (List.getElem?_eq_some_iff.mp hid).1
  have hplace : identities[before.length + m.index]? = some ⟨name, m.member⟩ := by
    rw [hparts, List.getElem?_append_right (Nat.le_add_right ..), Nat.add_sub_cancel_left,
      List.getElem?_append_left (by rwa [List.length_map]), List.getElem?_map, hid]
    rfl
  have hmembers : ∀ member ∈ group.members, member ∈ identities := by
    intro member hmember
    have hgroup := hname member hmember
    subst hgroup
    rw [hparts]
    apply List.mem_append_right
    apply List.mem_append_left
    exact List.mem_map.mpr ⟨member.id, (PartitionGroup.mem_ids_iff hname member.id).mpr hmember, rfl⟩
  have hposition := getElem?_position_named hname hmembers hm
  have hbound := (List.getElem?_eq_some_iff.mp hposition).1
  exact (List.getElem?_inj hbound hnodup).mp (hposition.trans hplace.symm)

end GroupSharder

namespace PartitionScheme

variable {γ : Type} {first second : PartitionGroup} {a b : String} {scheme : PartitionScheme γ}
  {client : Partition → Option γ}

theorem mem_identities_of_create {groups : List PartitionGroup} {hash : PartitionId → UInt32}
    (h : create groups client hash = .ok scheme) {member : PartitionId} (hmember : member ∈ scheme.identities) :
    ∃ group ∈ groups, member ∈ group.members := by
  unfold create at h
  split at h
  · contradiction
  · cases h
    obtain ⟨partition, hpartition, rfl⟩ := List.mem_map.mp hmember
    obtain ⟨group, hgroup, hmem⟩ := List.mem_flatMap.mp (mem_of_mem_sortedDistinct hpartition)
    exact ⟨group, hgroup, List.mem_map_of_mem hmem⟩

/-- If the name of the first group sorts first, its partitions come before those of the second. -/
theorem identities_of_paired (hpaired : first.PairedWith second a b)
    (hcreate : create [first, second] client PartitionId.idHash = .ok scheme) (hlt : compare a b = .lt) :
    scheme.identities = first.ids.map (PartitionId.mk a) ++ second.ids.map (PartitionId.mk b) := by
  obtain ⟨hwell, hgroups, -⟩ := wellFormed_of_create hcreate
  apply eq_of_ascending (identities_ascending_of_create hcreate)
  · apply List.pairwise_append.mpr
    refine ⟨PartitionGroup.members_ascending a, PartitionGroup.members_ascending b, ?_⟩
    intro member hmember other hother
    obtain ⟨id, -, rfl⟩ := List.mem_map.mp hmember
    obtain ⟨id', -, rfl⟩ := List.mem_map.mp hother
    exact PartitionId.compare_of_group_lt hlt id id'
  · intro member
    rw [← PartitionGroup.sortedDistinct_members hpaired.named,
      ← PartitionGroup.sortedDistinct_members hpaired.other_named, List.mem_append, mem_sortedDistinct_iff,
      mem_sortedDistinct_iff]
    constructor
    · intro hmember
      simpa using mem_identities_of_create hcreate hmember
    · have hin := hwell.mem_identities
      simp only [hgroups, List.forall_mem_cons] at hin
      rintro (hmember | hmember)
      · exact hin.1 member hmember
      · exact hin.2.1 member hmember

theorem exists_sharder_of_paired (hpaired : first.PairedWith second a b)
    (hcreate : create [first, second] client PartitionId.idHash = .ok scheme) {alive : PartitionId → Bool}
    {id : String} (hid : id ∈ first.ids) (hfirst : alive ⟨a, id⟩ = true) (hsecond : alive ⟨b, id⟩ = true) :
    ∃ sharder, scheme.createSharder alive = some sharder ∧ sharder.groups =
      [(GroupSharder.ofGroup scheme.identities PartitionId.idHash first).adapted alive,
        (GroupSharder.ofGroup scheme.identities PartitionId.idHash second).adapted alive] := by
  obtain ⟨hwell, hgroups, -⟩ := wellFormed_of_create hcreate
  have hmember := (PartitionGroup.mem_ids_iff hpaired.named id).mp hid
  have hother := (PartitionGroup.mem_ids_iff hpaired.other_named id).mp ((hpaired.mem_ids_iff id).mp hid)
  have halive : first.members.any alive = true ∧ second.members.any alive = true :=
    ⟨List.any_eq_true.mpr ⟨_, hmember, hfirst⟩, List.any_eq_true.mpr ⟨_, hother, hsecond⟩⟩
  have hexists : (scheme.createSharder alive).isSome = true := by
    rw [createSharder_isSome_iff hwell, hgroups]
    simp only [List.mem_cons, List.not_mem_nil, or_false, forall_eq_or_imp, forall_eq]
    exact ⟨⟨first, .inl rfl, hpaired.active⟩, fun _ => halive.1, fun _ => halive.2⟩
  obtain ⟨sharder, hsharder⟩ := Option.isSome_iff_exists.mp hexists
  refine ⟨sharder, hsharder, ?_⟩
  rw [(createSharder_eq_some hwell hsharder).1, hgroups]
  simp [hpaired.active, hpaired.other_active]

theorem nodup_replicaSets (hpaired : first.PairedWith second a b)
    (hcreate : create [first, second] client PartitionId.idHash = .ok scheme) (alive : PartitionId → Bool)
    (bucket : Bucket) :
    (scheme.replicaSet PartitionId.idHash alive first bucket ++
      scheme.replicaSet PartitionId.idHash alive second bucket).Nodup := by
  obtain ⟨hwell, hgroups, -⟩ := wellFormed_of_create hcreate
  have hmembers := hwell.mem_identities
  simp only [hgroups, List.forall_mem_cons] at hmembers
  apply List.nodup_append.mpr
  refine ⟨GroupSharder.nodup_replicas _ _ _ alive bucket hmembers.1,
    GroupSharder.nodup_replicas _ _ _ alive bucket hmembers.2.1, ?_⟩
  intro index hindex other hother hsame
  subst hsame
  have hfirst := List.mem_map_of_mem (f := (scheme.identities[·]?)) hindex
  have hsecond := List.mem_map_of_mem (f := (scheme.identities[·]?)) hother
  rw [replicaSet, GroupSharder.map_getElem?_replicas_named hpaired.named hmembers.1] at hfirst
  rw [replicaSet, GroupSharder.map_getElem?_replicas_named hpaired.other_named hmembers.2.1] at hsecond
  obtain ⟨m, -, hm⟩ := List.mem_map.mp hfirst
  obtain ⟨n, -, hn⟩ := List.mem_map.mp hsecond
  have heq := hm.trans hn.symm
  simp only [Option.some.injEq, PartitionId.mk.injEq] at heq
  exact hpaired.name_ne heq.1

/-- If the name of the first group sorts first, what owns a bucket in the second group comes as many positions
later as there are ids. -/
theorem replicaSet_shifted (hpaired : first.PairedWith second a b)
    (hcreate : create [first, second] client PartitionId.idHash = .ok scheme) {alive : PartitionId → Bool}
    (hsame : ∀ id ∈ first.ids, alive ⟨a, id⟩ = alive ⟨b, id⟩) (hlt : compare a b = .lt) (bucket : Bucket) :
    scheme.replicaSet PartitionId.idHash alive second bucket =
      (scheme.replicaSet PartitionId.idHash alive first bucket).map (· + first.ids.length) := by
  obtain ⟨hwell, -, -⟩ := wellFormed_of_create hcreate
  have hfirst : scheme.identities =
      [] ++ (first.ids.map (PartitionId.mk a) ++ second.ids.map (PartitionId.mk b)) :=
    identities_of_paired hpaired hcreate hlt
  have hsecond : scheme.identities =
      first.ids.map (PartitionId.mk a) ++ (second.ids.map (PartitionId.mk b) ++ []) := by
    rw [List.append_nil]
    exact hfirst
  unfold replicaSet
  rw [GroupSharder.replicas_named hpaired.named, GroupSharder.replicas_named hpaired.other_named,
    ← hpaired.chosenIds_eq hsame, List.map_map]
  apply List.map_congr_left
  intro m hm
  have hnumbered := PartitionGroup.chosenIds_subset _ bucket hm
  have hposition := GroupSharder.position_eq hpaired.named hfirst hwell.nodup_identities hnumbered
  rw [hpaired.numberedIds_eq] at hnumbered
  have hother := GroupSharder.position_eq hpaired.other_named hsecond hwell.nodup_identities hnumbered
  rw [hother, Function.comp_apply, hposition, List.length_map, List.length_nil]
  omega

/-- Paired groups in which the same ids are alive, one of them at least, route alike. A key is written to two
blocks of partitions, one of each group, whose ids agree position by position. If the name of the first group
sorts first, the positions of the second block are those of the first and the number of ids. -/
theorem shard_of_paired (hpaired : first.PairedWith second a b)
    (hcreate : create [first, second] client PartitionId.idHash = .ok scheme) {alive : PartitionId → Bool}
    (hsame : ∀ id ∈ first.ids, alive ⟨a, id⟩ = alive ⟨b, id⟩) (hsome : ∃ id ∈ first.ids, alive ⟨a, id⟩ = true) :
    ∃ sharder, scheme.createSharder alive = some sharder ∧ ∀ keyHash : UInt32,
      ∃ (front back : List Nat) (ids : List String), sharder.shard keyHash = front ++ back ∧
        front.length = back.length ∧ ids ≠ [] ∧ ids.Nodup ∧
        front.map (scheme.identities[·]?) = ids.map (fun id => some ⟨a, id⟩) ∧
        back.map (scheme.identities[·]?) = ids.map (fun id => some ⟨b, id⟩) ∧
        (compare a b = .lt → back = front.map (· + first.ids.length)) := by
  obtain ⟨hwell, hgroups, -⟩ := wellFormed_of_create hcreate
  have hmembers := hwell.mem_identities
  have hreplicas := hwell.replicas_pos
  simp only [hgroups, List.forall_mem_cons] at hmembers hreplicas
  obtain ⟨id, hid, halive⟩ := hsome
  obtain ⟨sharder, hsharder, hparts⟩ :=
    exists_sharder_of_paired hpaired hcreate hid halive ((hsame id hid).symm.trans halive)
  refine ⟨sharder, hsharder, fun keyHash => ?_⟩
  let bucket := Bucket.ofHash keyHash
  let owners := first.chosenIds (fun id => !first.repartition || alive ⟨a, id⟩) bucket
  have howners : owners = second.chosenIds (fun id => !second.repartition || alive ⟨b, id⟩) bucket :=
    hpaired.chosenIds_eq hsame bucket
  have hshard : sharder.shard keyHash =
      scheme.replicaSet PartitionId.idHash alive first bucket ++
        scheme.replicaSet PartitionId.idHash alive second bucket := by
    rw [SchemeSharder.shard, SchemeSharder.replicas_eq_eraseDups, hparts]
    simp only [List.flatMap_cons, List.flatMap_nil, List.append_nil]
    exact eraseDups_of_nodup (nodup_replicaSets hpaired hcreate alive bucket)
  have hfront : (scheme.replicaSet PartitionId.idHash alive first bucket).map (scheme.identities[·]?) =
      owners.map fun m => some ⟨a, m.member⟩ :=
    GroupSharder.map_getElem?_replicas_named hpaired.named hmembers.1 alive bucket
  have hback : (scheme.replicaSet PartitionId.idHash alive second bucket).map (scheme.identities[·]?) =
      owners.map fun m => some ⟨b, m.member⟩ := by
    rw [howners]
    exact GroupSharder.map_getElem?_replicas_named hpaired.other_named hmembers.2.1 alive bucket
  have hlength := congrArg List.length hfront
  have hlength' := congrArg List.length hback
  simp only [List.length_map] at hlength hlength'
  refine ⟨_, _, owners.map RankedMember.member, hshard, hlength.trans hlength'.symm, ?_,
    PartitionGroup.nodup_chosenIds _ bucket, ?_, ?_, ?_⟩
  · have hmember := (PartitionGroup.mem_ids_iff hpaired.named id).mp hid
    have hne := GroupSharder.replicas_ne_nil scheme.identities PartitionId.idHash first alive bucket hreplicas.1
      (List.any_eq_true.mpr ⟨_, hmember, halive⟩)
    intro hnil
    rw [List.map_eq_nil_iff] at hnil
    rw [hnil] at hlength
    exact hne (List.length_eq_zero_iff.mp hlength)
  · rw [List.map_map]
    exact hfront
  · rw [List.map_map]
    exact hback
  · exact fun hlt => replicaSet_shifted hpaired hcreate hsame hlt bucket

/-- Two groups of three lose the same id, and keys move. -/
theorem shard_of_paired_without_y :
    let group (name : String) : PartitionGroup :=
      ⟨[⟨⟨name, "x"⟩, none, none⟩, ⟨⟨name, "y"⟩, none, none⟩, ⟨⟨name, "z"⟩, none, none⟩], 1, true, true⟩
    let alive (partition : PartitionId) : Bool := partition.id != "y"
    (group "a").PairedWith (group "b") "a" "b" ∧
      ∃ scheme : PartitionScheme Unit,
        create [group "a", group "b"] (fun _ => none) PartitionId.idHash = .ok scheme ∧
          ∃ sharder, scheme.createSharder alive = some sharder ∧
            ∀ keyHash, ∃ front : List Nat, front ≠ [] ∧
              sharder.shard keyHash = front ++ front.map (· + 3) := by
  intro group alive
  have hids : (group "a").ids = ["x", "y", "z"] := sortedDistinct_eq_self (by decide)
  have hpaired : (group "a").PairedWith (group "b") "a" "b" :=
    ⟨by decide, by decide, by decide, fun _ => Iff.rfl, rfl, rfl, rfl, rfl⟩
  obtain ⟨scheme, hcreate⟩ : ∃ scheme : PartitionScheme Unit,
      create [group "a", group "b"] (fun _ => none) PartitionId.idHash = .ok scheme := ⟨_, rfl⟩
  have hsame : ∀ id ∈ (group "a").ids, alive ⟨"a", id⟩ = alive ⟨"b", id⟩ := fun _ _ => rfl
  have hsome : ∃ id ∈ (group "a").ids, alive ⟨"a", id⟩ = true := by
    rw [hids]
    exact ⟨"x", by decide, by decide⟩
  obtain ⟨sharder, hsharder, hroutes⟩ := shard_of_paired hpaired hcreate hsame hsome
  refine ⟨hpaired, scheme, hcreate, sharder, hsharder, fun keyHash => ?_⟩
  obtain ⟨front, back, ids, hshard, -, hne, -, hfront, -, hshifted⟩ := hroutes keyHash
  refine ⟨front, ?_, ?_⟩
  · rintro rfl
    exact hne (List.map_eq_nil_iff.mp hfront.symm)
  · rw [hshard, hshifted (by decide), hids]
    rfl

end PartitionScheme

end ReplicatedStore
