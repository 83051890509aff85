import Mathlib.Data.List.Induction
import ReplicatedStore.Proofs.Routing.Membership
import ReplicatedStore.Proofs.Routing.Scheme
/-!
# Where keys are written

A partition has a number within each of its groups and a position within the scheme. Both denote the same
partition, also after some members were dropped, so a key is written to the members of highest rank in
every active group and to no other partition.
-/

namespace ReplicatedStore

section FirstOccurrences

variable {α β : Type} [DecidableEq α] [DecidableEq β]

private theorem eraseDups_concat (items : List α) (last : α) :
    (items ++ [last]).eraseDups =
      if last ∈ items then items.eraseDups else items.eraseDups ++ [last] := by
  rw [List.eraseDups_append]
  split
  next h => simp [List.removeAll, h]
  next h => simp [List.removeAll, h, List.eraseDups_cons]

private theorem eraseDups_map {f : α → β} {items : List α}
    (h : ∀ a ∈ items, ∀ b ∈ items, f a = f b → a = b) :
    (items.map f).eraseDups = items.eraseDups.map f := by
  induction items using List.reverseRecOn with
  | nil => rfl
  | append_singleton items last ih =>
    have hbefore : ∀ a ∈ items, a ∈ items ++ [last] := fun a ha => List.mem_append_left _ ha
    have hlast : last ∈ items ++ [last] := List.mem_append_right _ (List.mem_singleton_self last)
    have hmem : f last ∈ items.map f ↔ last ∈ items := by
      refine ⟨fun hf => ?_, List.mem_map_of_mem⟩
      obtain ⟨a, ha, heq⟩ := List.mem_map.mp hf
      exact h a (hbefore a ha) last hlast heq ▸ ha
    rw [List.map_append, List.map_singleton, eraseDups_concat, eraseDups_concat,
      ih fun a ha b hb => h a (hbefore a ha) b (hbefore b hb)]
    simp only [hmem]
    split
    next => rfl
    next => rw [List.map_append, List.map_singleton]

theorem eraseDups_of_nodup {items : List α} (h : items.Nodup) : items.eraseDups = items := by
  induction items using List.reverseRecOn with
  | nil => rfl
  | append_singleton items last ih =>
    obtain ⟨hitems, -, hlast⟩ := List.nodup_append.mp h
    have hnew : last ∉ items := fun hmem => hlast last hmem last (List.mem_singleton_self last) rfl
    rw [eraseDups_concat, if_neg hnew, ih hitems]

end FirstOccurrences

theorem SchemeSharder.replicas_eq_eraseDups (sharder : SchemeSharder) (bucket : Bucket) :
    sharder.replicas bucket = (sharder.groups.flatMap fun group => group.replicas bucket).eraseDups := by
  unfold SchemeSharder.replicas
  induction (sharder.groups.flatMap fun group => group.replicas bucket) using List.reverseRecOn with
  | nil => rfl
  | append_singleton items last ih =>
    rw [List.foldl_append, List.foldl_cons, List.foldl_nil, ih, eraseDups_concat]
    unfold SchemeSharder.addOnce
    simp only [List.contains_iff_mem, List.mem_eraseDups]

namespace PartitionGroup

variable (group : PartitionGroup) (hash : PartitionId → UInt32) (alive : PartitionId → Bool)

def candidates : List PartitionId :=
  (sortedDistinct group.members).filter fun member => !group.repartition || alive member

def Outranks (bucket : Bucket) (a b : PartitionId) : Prop :=
  combinedHash (hash b) (UInt32.ofNat bucket) < combinedHash (hash a) (UInt32.ofNat bucket) ∨
    combinedHash (hash a) (UInt32.ofNat bucket) = combinedHash (hash b) (UInt32.ofNat bucket) ∧
      compare a b = .lt

/-- The partitions of a group that a bucket is written to: as many candidates of highest rank as the group
has replicas. They are in the order of their ranks, or of their identities if all candidates are among
them. -/
def IsRoute (bucket : Bucket) (route : List PartitionId) : Prop :=
  ∃ ranked : List PartitionId, ranked.Perm (group.candidates alive) ∧
    ranked.Pairwise (Outranks hash bucket) ∧
    route.Perm (ranked.take group.replicas) ∧
    route = if (group.candidates alive).length ≤ group.replicas then group.candidates alive
      else ranked.take group.replicas

theorem sharing_eq_filter : group.sharing hash alive =
    (group.numbered hash).filter fun m => !group.repartition || alive m.member := by
  unfold sharing
  split
  next h => simp only [h, Bool.not_true, Bool.false_or]
  next h => simp only [h, Bool.not_false, Bool.true_or, List.filter_true]

theorem sharing_all_alive : group.sharing hash (fun _ => true) = group.numbered hash := by
  rw [sharing_eq_filter]
  exact List.filter_eq_self.mpr fun _ _ => Bool.or_true _

theorem map_member_sharing :
    (group.sharing hash alive).map RankedMember.member = group.candidates alive := by
  rw [candidates, ← Rendezvous.map_member_numbered group.members hash, List.filter_map, sharing_eq_filter]
  rfl

def chosen (bucket : Bucket) : List (RankedMember PartitionId) :=
  if (group.sharing hash alive).length ≤ group.replicas then group.sharing hash alive
  else (RankedMember.ranked bucket (group.sharing hash alive)).take group.replicas

/-- The partitions of a group that a bucket is written to. -/
def route (bucket : Bucket) : List PartitionId :=
  (group.chosen hash alive bucket).map RankedMember.member

theorem chosen_subset (bucket : Bucket) : group.chosen hash alive bucket ⊆ group.sharing hash alive := by
  unfold chosen
  split
  next => exact List.Subset.refl _
  next => exact fun m hm => RankedMember.mem_ranked.mp (List.mem_of_mem_take hm)

theorem owners_sharing (bucket : Bucket) :
    (Rendezvous.ofMembers (group.sharing hash alive) group.replicas).owners bucket =
      (group.chosen hash alive bucket).map RankedMember.index := by
  rw [Rendezvous.owners_ofMembers, chosen]
  split
  next => rfl
  next => rw [Rendezvous.ranking_eq, List.map_take]

/-- Numbers are given in the order of identities, so members and partitions rank alike. -/
private theorem outranks_member {bucket : Bucket} {a b : RankedMember PartitionId}
    (ha : a ∈ group.numbered hash) (hb : b ∈ group.numbered hash) (h : a.Outranks bucket b) :
    Outranks hash bucket a.member b.member := by
  obtain ⟨hplacea, hhasha⟩ := (Rendezvous.mem_numbered group.members hash).mp ha
  obtain ⟨hplaceb, hhashb⟩ := (Rendezvous.mem_numbered group.members hash).mp hb
  unfold Outranks
  rw [← hhasha, ← hhashb]
  refine h.imp_right (And.imp_right fun hlt => ?_)
  obtain ⟨hia, hmembera⟩ := List.getElem?_eq_some_iff.mp hplacea
  obtain ⟨hib, hmemberb⟩ := List.getElem?_eq_some_iff.mp hplaceb
  have hascending :=
    List.pairwise_iff_getElem.mp (sortedDistinct_ascending group.members) a.index b.index hia hib hlt
  rwa [hmembera, hmemberb] at hascending

theorem isRoute_route (bucket : Bucket) :
    group.IsRoute hash alive bucket (group.route hash alive bucket) := by
  have hsub := group.sharing_sublist hash alive
  have hcandidates := group.map_member_sharing hash alive
  have hlength : (group.candidates alive).length = (group.sharing hash alive).length := by
    rw [← hcandidates, List.length_map]
  have hnumbers : ((group.sharing hash alive).map RankedMember.index).Nodup :=
    (group.nodup_index_numbered hash).sublist (hsub.map RankedMember.index)
  have hperm := (RankedMember.ranked_perm bucket (group.sharing hash alive)).map RankedMember.member
  rw [hcandidates] at hperm
  have hroute : group.route hash alive bucket =
      if (group.candidates alive).length ≤ group.replicas then group.candidates alive
      else ((RankedMember.ranked bucket (group.sharing hash alive)).map RankedMember.member).take
        group.replicas := by
    rw [route, chosen, hlength]
    split
    next => exact hcandidates
    next => exact List.map_take
  refine ⟨(RankedMember.ranked bucket (group.sharing hash alive)).map RankedMember.member, hperm, ?_, ?_,
    hroute⟩
  · refine List.pairwise_map.mpr ((RankedMember.ranked_outranks bucket hnumbers).imp_of_mem ?_)
    intro a b ha hb h
    exact group.outranks_member hash (hsub.subset (RankedMember.mem_ranked.mp ha))
      (hsub.subset (RankedMember.mem_ranked.mp hb)) h
  · rw [hroute]
    split
    next hfew =>
      rw [List.take_of_length_le (hperm.length_eq ▸ hfew)]
      exact hperm.symm
    next => exact .refl _

theorem subset_candidates {bucket : Bucket} {route : List PartitionId}
    (h : group.IsRoute hash alive bucket route) : route ⊆ group.candidates alive := by
  obtain ⟨ranked, hperm, -, htop, -⟩ := h
  exact fun member hmember => hperm.subset (List.mem_of_mem_take (htop.subset hmember))

end PartitionGroup

namespace GroupSharder

/-- Numbers within a group and positions within the scheme denote the same partitions, and what owns a
bucket is found. -/
structure Denotes (identities : List PartitionId) (part : GroupSharder) : Prop where
  position : ∀ number member, part.sharder.member? number = some member →
    ∃ position, part.positions[number]? = some position ∧ identities.idxOf? member = some position ∧
      identities[position]? = some member
  owners : ∀ bucket : Bucket, part.sharder.owners? bucket = some (part.sharder.owners bucket) ∧
    ∀ number ∈ part.sharder.owners bucket, ∃ member, part.sharder.member? number = some member

variable (identities : List PartitionId) (hash : PartitionId → UInt32) (group : PartitionGroup)
  (alive : PartitionId → Bool)

theorem denotes_adapted (hmembers : ∀ member ∈ group.members, member ∈ identities) :
    ((ofGroup identities hash group).adapted alive).Denotes identities := by
  have hsub := group.sharing_sublist hash alive
  have hasc := (Rendezvous.numbered_ascending group.members hash).sublist hsub
  refine ⟨fun number member hmember => ?_, fun bucket => ?_⟩
  · rw [sharder_adapted] at hmember
    obtain ⟨m, hfind, rfl⟩ := Option.map_eq_some_iff.mp hmember
    have hnumber := List.find?_some hfind
    have hsame : m.index = number := eq_of_beq hnumber
    rw [positions_adapted, ← hsame]
    exact exists_position identities hash group (hsub.subset (List.mem_of_find?_eq_some hfind)) hmembers
  · rw [sharder_adapted]
    refine ⟨Rendezvous.owners?_ofMembers _ _ bucket, fun number hnumber => ?_⟩
    obtain ⟨m, hm, rfl⟩ := List.mem_map.mp (Rendezvous.mem_of_mem_owners_ofMembers hnumber)
    exact ⟨m.member, Rendezvous.member?_ofMembers hasc _ hm⟩

theorem adapted_of_all_alive :
    (ofGroup identities hash group).adapted (fun _ => true) = ofGroup identities hash group := by
  unfold adapted
  split
  next =>
    have hnone : ((ofGroup identities hash group).sharder.recompute fun _ => true).1 = false := by
      refine Bool.eq_false_iff.mpr fun hdrops => ?_
      obtain ⟨member, -, hdead⟩ := (Rendezvous.recompute_fst_iff _ _).mp hdrops
      contradiction
    rw [Rendezvous.recompute_snd_of_fst hnone]
  next => rfl

theorem map_getElem?_replicas (bucket : Bucket) (hmembers : ∀ member ∈ group.members, member ∈ identities) :
    (((ofGroup identities hash group).adapted alive).replicas bucket).map (identities[·]?) =
      (group.route hash alive bucket).map some := by
  rw [replicas_adapted, group.owners_sharing, PartitionGroup.route, List.map_map, List.map_map, List.map_map]
  refine List.map_congr_left fun m hm => ?_
  have hnumbered := (group.sharing_sublist hash alive).subset (group.chosen_subset hash alive bucket hm)
  exact getElem?_position identities hash group hnumbered hmembers

end GroupSharder

namespace PartitionScheme

variable {γ : Type} {hash : PartitionId → UInt32} {scheme : PartitionScheme γ}

private theorem map_getElem?_replicas (hwell : scheme.WellFormed hash) {alive : PartitionId → Bool}
    {sharder : SchemeSharder} (h : scheme.createSharder alive = some sharder) (bucket : Bucket) :
    (sharder.replicas bucket).map (scheme.identities[·]?) =
      ((scheme.groups.filter PartitionGroup.active).flatMap fun group =>
        group.route hash alive bucket).eraseDups.map some := by
  have hparts := (createSharder_eq_some hwell h).1
  have hroutes : (sharder.groups.flatMap fun part => part.replicas bucket).map (scheme.identities[·]?) =
      ((scheme.groups.filter PartitionGroup.active).flatMap fun group =>
        group.route hash alive bucket).map some := by
    rw [hparts, List.flatMap_map, List.map_flatMap, List.map_flatMap]
    refine List.flatMap_congr fun group hgroup => ?_
    exact GroupSharder.map_getElem?_replicas scheme.identities hash group alive bucket
      (hwell.mem_identities group (List.mem_filter.mp hgroup).1)
  have hbound : ∀ index ∈ sharder.groups.flatMap (fun part => part.replicas bucket),
      index < scheme.identities.length := by
    intro index hindex
    obtain ⟨part, hpart, hreplica⟩ := List.mem_flatMap.mp hindex
    rw [hparts] at hpart
    obtain ⟨group, hgroup, rfl⟩ := List.mem_map.mp hpart
    exact GroupSharder.lt_of_mem_replicas scheme.identities hash group alive
      (hwell.mem_identities group (List.mem_filter.mp hgroup).1) hreplica
  rw [SchemeSharder.replicas_eq_eraseDups, ← eraseDups_map, hroutes, eraseDups_map]
  · exact fun a _ b _ hab => Option.some_inj.mp hab
  · exact fun i hi j _ hij => (List.getElem?_inj (hbound i hi) hwell.nodup_identities).mp hij

/-- There is a sharder exactly if some group is active and every active group has a member that is alive.
It writes a key to the partitions of highest rank in every active group, group by group, each once: to
members that are alive where keys move, and to no member of a group that is not active otherwise. -/
theorem shard_routes {groups : List PartitionGroup} {client : Partition → Option γ}
    (hcreate : create groups client hash = .ok scheme) (alive : PartitionId → Bool) :
    scheme.identities.Pairwise (fun a b => compare a b = .lt) ∧
    (∀ part ∈ scheme.base, part.Denotes scheme.identities) ∧
    ((scheme.createSharder alive).isSome = true ↔
      (∃ group ∈ groups, group.active = true) ∧
      ∀ group ∈ groups, group.active = true → ∃ member ∈ group.members, alive member = true) ∧
    ∀ sharder, scheme.createSharder alive = some sharder →
      (∀ part ∈ sharder.groups, part.Denotes scheme.identities) ∧
      ∀ keyHash : UInt32,
        sharder.shard keyHash ≠ [] ∧ (sharder.shard keyHash).Nodup ∧
        (∀ index ∈ sharder.shard keyHash, index < scheme.size) ∧
        (∃ routes : PartitionGroup → List PartitionId,
          (∀ group ∈ groups, group.IsRoute hash alive (Bucket.ofHash keyHash) (routes group)) ∧
          (sharder.shard keyHash).map (scheme.identities[·]?) =
            ((groups.filter PartitionGroup.active).flatMap routes).eraseDups.map some) ∧
        (∀ index ∈ sharder.shard keyHash, ∃ group ∈ groups, group.active = true ∧
          ∃ member ∈ group.members, scheme.identities[index]? = some member) ∧
        ((∀ group ∈ groups, group.active = true → group.repartition = true) →
          ∀ index ∈ sharder.shard keyHash,
            ∃ member, scheme.identities[index]? = some member ∧ alive member = true) := by
  obtain ⟨hwell, rfl, -⟩ := wellFormed_of_create hcreate
  refine ⟨identities_ascending_of_create hcreate, fun part hpart => ?_, ?_, fun sharder hsharder => ?_⟩
  · rw [hwell.base_eq] at hpart
    obtain ⟨group, hgroup, rfl⟩ := List.mem_map.mp hpart
    rw [← GroupSharder.adapted_of_all_alive]
    exact GroupSharder.denotes_adapted _ hash group _ (hwell.mem_identities group hgroup)
  · rw [createSharder_isSome_iff hwell]
    simp only [List.any_eq_true]
  obtain ⟨hparts, hne, halive⟩ := createSharder_eq_some hwell hsharder
  refine ⟨fun part hpart => ?_, fun keyHash => ?_⟩
  · rw [hparts] at hpart
    obtain ⟨group, hgroup, rfl⟩ := List.mem_map.mp hpart
    exact GroupSharder.denotes_adapted _ hash group alive
      (hwell.mem_identities group (List.mem_filter.mp hgroup).1)
  have hroutes := map_getElem?_replicas hwell hsharder (Bucket.ofHash keyHash)
  have hdenotes : ∀ index ∈ sharder.shard keyHash, ∃ group ∈ scheme.groups, group.active = true ∧
      ∃ member ∈ group.candidates alive, scheme.identities[index]? = some member := by
    intro index hindex
    have hmem := List.mem_map_of_mem (f := (scheme.identities[·]?)) hindex
    rw [SchemeSharder.shard, hroutes] at hmem
    obtain ⟨member, hmember, heq⟩ := List.mem_map.mp hmem
    obtain ⟨group, hgroup, hroute⟩ := List.mem_flatMap.mp (List.mem_eraseDups.mp hmember)
    obtain ⟨hgroups, hactive⟩ := List.mem_filter.mp hgroup
    exact ⟨group, hgroups, hactive, member,
      group.subset_candidates hash alive (group.isRoute_route hash alive _) hroute, heq.symm⟩
  refine ⟨?_, SchemeSharder.nodup_shard sharder keyHash, fun index hindex => ?_,
    ⟨fun group => group.route hash alive (Bucket.ofHash keyHash),
      fun group _ => group.isRoute_route hash alive _, hroutes⟩, fun index hindex => ?_,
    fun hmoves index hindex => ?_⟩
  · obtain ⟨part, hpart⟩ := List.exists_mem_of_ne_nil _ hne
    have hmem := hpart
    rw [hparts] at hmem
    obtain ⟨group, hgroup, rfl⟩ := List.mem_map.mp hmem
    obtain ⟨hgroups, hactive⟩ := List.mem_filter.mp hgroup
    obtain ⟨index, hindex⟩ := List.exists_mem_of_ne_nil _
      (GroupSharder.replicas_ne_nil scheme.identities hash group alive (Bucket.ofHash keyHash)
        (hwell.replicas_pos group hgroups) (halive group hgroups hactive))
    exact List.ne_nil_of_mem (SchemeSharder.mem_replicas.mpr ⟨_, hpart, hindex⟩)
  · obtain ⟨-, -, -, member, -, hmember⟩ := hdenotes index hindex
    have hlt := (List.getElem?_eq_some_iff.mp hmember).1
    rwa [identities, List.length_map] at hlt
  · obtain ⟨group, hgroup, hactive, member, hcandidate, hmember⟩ := hdenotes index hindex
    exact ⟨group, hgroup, hactive, member,
      mem_of_mem_sortedDistinct (List.mem_filter.mp hcandidate).1, hmember⟩
  · obtain ⟨group, hgroup, hactive, member, hcandidate, hmember⟩ := hdenotes index hindex
    refine ⟨member, hmember, ?_⟩
    simpa only [hmoves group hgroup hactive, Bool.not_true, Bool.false_or] using
      (List.mem_filter.mp hcandidate).2

/-- Two groups share a partition, and keys of the one that is active move to it. -/
theorem shard_routes_of_shared :
    let a : PartitionId := ⟨"disk", "a"⟩
    let b : PartitionId := ⟨"disk", "b"⟩
    let c : PartitionId := ⟨"disk", "c"⟩
    let groups : List PartitionGroup := [⟨[⟨a, none, none⟩, ⟨b, none, none⟩], 1, true, true⟩,
      ⟨[⟨b, none, none⟩, ⟨c, none, none⟩], 2, false, false⟩]
    ∃ scheme : PartitionScheme Unit, create groups (fun _ => none) PartitionId.identityHash = .ok scheme ∧
      ∃ sharder, scheme.createSharder (fun partition => partition = b) = some sharder ∧
        ∀ keyHash, sharder.shard keyHash ≠ [] ∧
          ∀ index ∈ sharder.shard keyHash, scheme.identities[index]? = some b := by
  intro a b c groups
  obtain ⟨scheme, hcreate⟩ : ∃ scheme : PartitionScheme Unit,
      create groups (fun _ => none) PartitionId.identityHash = .ok scheme := ⟨_, rfl⟩
  obtain ⟨-, -, hsome, hroutes⟩ := shard_routes hcreate fun partition => partition = b
  obtain ⟨sharder, hsharder⟩ := Option.isSome_iff_exists.mp (hsome.mpr (by decide))
  refine ⟨scheme, hcreate, sharder, hsharder, fun keyHash => ?_⟩
  obtain ⟨hne, -, -, -, -, halive⟩ := (hroutes sharder hsharder).2 keyHash
  refine ⟨hne, fun index hindex => ?_⟩
  obtain ⟨member, hmember, hb⟩ := halive (by decide) index hindex
  rw [hmember, of_decide_eq_true hb]

end PartitionScheme

end ReplicatedStore
