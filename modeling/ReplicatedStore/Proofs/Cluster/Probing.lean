import ReplicatedStore.Cluster.Probe
import ReplicatedStore.Proofs.Cluster.Membership
import ReplicatedStore.Proofs.Routing.Quorums
/-!
# What probes find

Partitions are pinged one after the other, and each of them answers or not. A ping of all partitions leaves
those alive that answered, whatever was believed of them before, and fails if some group has lost its quorum
in some bucket. A ping of the dead ones only brings back those that answer.
-/

namespace ReplicatedStore

def answeredOf (answers : List (PartitionId × Bool)) : List PartitionId :=
  (answers.filter Prod.snd).map Prod.fst

def silentOf (answers : List (PartitionId × Bool)) : List PartitionId :=
  (answers.filter fun answer => !answer.2).map Prod.fst

section Answers

variable {answers : List (PartitionId × Bool)} {partition : PartitionId}

theorem mem_answeredOf : partition ∈ answeredOf answers ↔ (partition, true) ∈ answers := by
  simp [answeredOf]

theorem mem_silentOf : partition ∈ silentOf answers ↔ (partition, false) ∈ answers := by
  simp [silentOf]

theorem answeredOf_sublist : (answeredOf answers).Sublist (answers.map Prod.fst) :=
  List.filter_sublist.map Prod.fst

theorem silentOf_sublist : (silentOf answers).Sublist (answers.map Prod.fst) :=
  List.filter_sublist.map Prod.fst

theorem mem_silentOf_iff (hnodup : (answers.map Prod.fst).Nodup) (hmem : partition ∈ answers.map Prod.fst) :
    partition ∈ silentOf answers ↔ partition ∉ answeredOf answers := by
  rw [mem_silentOf, mem_answeredOf]
  obtain ⟨⟨_, answered⟩, hanswer, rfl⟩ := List.mem_map.mp hmem
  constructor
  · intro hsilent hanswered
    have hsame := List.inj_on_of_nodup_map hnodup hsilent hanswered rfl
    simp at hsame
  · intro hnot
    cases answered with
    | true => exact absurd hanswer hnot
    | false => exact hanswer

end Answers

namespace Membership

variable {γ : Type} {scheme : PartitionScheme γ} {alive : List PartitionId} {current : Membership γ}

private theorem topology_update_ofAlive (h : current.topology = .ofAlive scheme alive) (next : List PartitionId) :
    (current.update next).2.topology = .ofAlive scheme next := by
  rw [topology_update, h]
  split
  next hsame => exact congrArg (Topology.ofAlive scheme) hsame.symm
  next => rfl

theorem topology_markAlive (h : current.topology = .ofAlive scheme alive) (partitions : List PartitionId) :
    (current.markAlive partitions).2.topology =
      .ofAlive scheme (scheme.identities.filter fun partition =>
        alive.contains partition || partitions.contains partition) := by
  rw [markAlive, topology_update_ofAlive h, h]
  rfl

theorem topology_markDead (h : current.topology = .ofAlive scheme alive) (partitions : List PartitionId) :
    (current.markDead partitions).2.topology =
      .ofAlive scheme (alive.filter fun partition => !partitions.contains partition) := by
  rw [markDead, topology_update_ofAlive h, h]
  rfl

/-- When all partitions were pinged, those are alive that answered, whichever were before. -/
theorem topology_probed (hnodup : scheme.identities.Nodup) {answers : List (PartitionId × Bool)}
    (hanswers : answers.map Prod.fst = scheme.identities) (h : current.topology = .ofAlive scheme alive) :
    ((current.markAlive (answeredOf answers)).2.markDead (silentOf answers)).2.topology =
      .ofAlive scheme (answeredOf answers) := by
  rw [topology_markDead (topology_markAlive h _), List.filter_filter]
  have hsublist : (answeredOf answers).Sublist scheme.identities := hanswers ▸ answeredOf_sublist
  have hkept : scheme.identities.filter (answeredOf answers).contains = answeredOf answers :=
    filter_contains_of_sublist hsublist hnodup
  refine congrArg (Topology.ofAlive scheme) (Eq.trans (List.filter_congr fun partition hmem => ?_) hkept)
  rw [← hanswers] at hmem hnodup
  have hsilent := mem_silentOf_iff hnodup hmem
  by_cases hanswered : partition ∈ answeredOf answers
  · simp [hanswered, hsilent]
  · simp [hanswered, hsilent]

end Membership

namespace Cluster

variable {μ ρ κ σ : Type}

/-- Partitions are pinged one after the other. One without a client does not answer. -/
inductive Pings (scheme : PartitionScheme (Store μ ρ κ σ)) :
    List Partition → μ → List (PartitionId × Bool) → μ → Prop
  | nil (world : μ) : Pings scheme [] world [] world
  | absent {partition : Partition} {rest : List Partition} {before after : μ}
    {answers : List (PartitionId × Bool)} (hclient : scheme.client partition = none)
    (hrest : Pings scheme rest before answers after) :
    Pings scheme (partition :: rest) before ((partition.identity, false) :: answers) after
  | pinged {partition : Partition} {rest : List Partition} {store : Store μ ρ κ σ}
    {result : Except StoreError Unit} {before between after : μ} {answers : List (PartitionId × Bool)}
    (hclient : scheme.client partition = some store) (hping : store.ping before = (result, between))
    (hrest : Pings scheme rest between answers after) :
    Pings scheme (partition :: rest) before ((partition.identity, result.isOk) :: answers) after

theorem Pings.map_fst {scheme : PartitionScheme (Store μ ρ κ σ)} {partitions : List Partition}
    {before after : μ} {answers : List (PartitionId × Bool)}
    (h : Pings scheme partitions before answers after) :
    answers.map Prod.fst = partitions.map Partition.identity := by
  induction h with
  | nil => rfl
  | absent _ _ ih => simp [ih]
  | pinged _ _ _ ih => simp [ih]

theorem exists_pings (scheme : PartitionScheme (Store μ ρ κ σ)) (partitions : List Partition) (world : μ) :
    ∃ answers after, Pings scheme partitions world answers after ∧
      pingAll scheme partitions world = ((answeredOf answers, silentOf answers), after) := by
  induction partitions generalizing world with
  | nil => exact ⟨[], world, .nil world, rfl⟩
  | cons partition rest ih =>
    unfold pingAll
    cases hclient : scheme.client partition with
    | none =>
      obtain ⟨answers, after, hpings, hrest⟩ := ih world
      refine ⟨_, after, .absent hclient hpings, ?_⟩
      simp only [hrest]
      rfl
    | some store =>
      cases hping : store.ping world with
      | mk result between =>
        obtain ⟨answers, after, hpings, hrest⟩ := ih between
        refine ⟨_, after, .pinged hclient hping hpings, ?_⟩
        simp only [hping, hrest]
        cases hresult : result.isOk with
        | true => simp [answeredOf, silentOf]
        | false => simp [answeredOf, silentOf]

section Verdict

variable {hash : PartitionId → UInt32} {scheme : PartitionScheme (Store μ ρ κ σ)}
  {answers : List (PartitionId × Bool)}

/-- Some group, active or not, has a bucket that needs more of its replica set than have answered. All members
count for the replica set, whether they are alive or not. -/
def LosesQuorum (hash : PartitionId → UInt32) (groups : List PartitionGroup) (quorum : Quorum)
    (answered : List PartitionId) : Prop :=
  ∃ group ∈ groups, ∃ bucket route, group.IsRoute hash (fun _ => true) bucket route ∧
    route.countP answered.contains < quorum.required route.length

private theorem isAt_silent (hwell : scheme.WellFormed hash)
    (hanswers : answers.map Prod.fst = scheme.identities) {partition : PartitionId}
    (hmem : partition ∈ scheme.identities) :
    scheme.isAt (.ofList ((silentOf answers).filterMap scheme.indexOf?)) partition = true ↔
      partition ∉ answeredOf answers := by
  obtain ⟨index, hindex⟩ := List.mem_iff_getElem?.mp hmem
  rw [PartitionScheme.isAt_of_getElem? hwell hindex, Std.TreeSet.contains_iff_mem, Std.TreeSet.mem_ofList,
    List.contains_iff_mem, List.mem_filterMap]
  rw [← mem_silentOf_iff (hanswers ▸ hwell.nodup_identities) (hanswers ▸ hmem)]
  constructor
  · intro h
    obtain ⟨other, hother, hposition⟩ := h
    have hsame := hindex.symm.trans ((PartitionScheme.indexOf?_eq_some_iff hwell).mp hposition)
    rw [Option.some_inj] at hsame
    rw [hsame]
    exact hother
  · intro hsilent
    exact ⟨partition, hsilent, (PartitionScheme.indexOf?_eq_some_iff hwell).mpr hindex⟩

private theorem isHealthy_answers (hwell : scheme.WellFormed hash)
    (hanswers : answers.map Prod.fst = scheme.identities) (quorum : Quorum) :
    scheme.isHealthy (.ofList ((silentOf answers).filterMap scheme.indexOf?)) quorum = true ↔
      ¬LosesQuorum hash scheme.groups quorum (answeredOf answers) := by
  have hcount : ∀ group ∈ scheme.groups, ∀ bucket route, group.IsRoute hash (fun _ => true) bucket route →
      route.countP (fun partition =>
        !scheme.isAt (.ofList ((silentOf answers).filterMap scheme.indexOf?)) partition) =
      route.countP (answeredOf answers).contains := by
    intro group hgroup bucket route hroute
    refine List.countP_congr fun partition hpartition => ?_
    have hcandidate := group.subset_candidates hash (fun _ => true) hroute hpartition
    have hmember := mem_of_mem_sortedDistinct (List.mem_of_mem_filter hcandidate)
    have hsilent := isAt_silent hwell hanswers (hwell.mem_identities group hgroup partition hmember)
    rw [Bool.not_eq_true', ← Bool.not_eq_true, hsilent, not_not, List.contains_iff_mem]
  rw [PartitionScheme.isHealthy_iff hwell]
  constructor
  · intro hkeeps hloses
    obtain ⟨group, hgroup, bucket, route, hroute, hfew⟩ := hloses
    obtain ⟨route', hroute', henough⟩ := hkeeps group hgroup bucket
    rw [hcount group hgroup bucket route' hroute', hroute'.eq_route, ← hroute.eq_route] at henough
    omega
  · intro hnot group hgroup bucket
    have hroute := group.isRoute_route hash (fun _ => true) bucket
    refine ⟨_, hroute, ?_⟩
    rw [hcount group hgroup bucket _ hroute]
    by_contra hfew
    exact hnot ⟨group, hgroup, bucket, _, hroute, Nat.lt_of_not_le hfew⟩

end Verdict

variable {groups : List PartitionGroup} {client : Partition → Option (Store μ ρ κ σ)}
  {hash : PartitionId → UInt32} {scheme : PartitionScheme (Store μ ρ κ σ)} {alive : List PartitionId}
  {cluster : Cluster μ ρ κ σ}

theorem ping_eq {answers : List (PartitionId × Bool)} {world : μ}
    (h : pingAll cluster.topology.scheme cluster.topology.scheme.partitions cluster.world =
      ((answeredOf answers, silentOf answers), world)) :
    let counted := (cluster.count fun s => { s with pings := s.pings + 1 }).membership.countFailures
      (silentOf answers).length
    cluster.ping.1 = (if cluster.topology.scheme.isHealthy
          (.ofList ((silentOf answers).filterMap cluster.topology.scheme.indexOf?))
          cluster.options.pingQuorum then .ok ()
        else .error (.pingFailed (.ofList (silentOf answers) cluster.topology.scheme.size))) ∧
      cluster.ping.2.world = world ∧
      cluster.ping.2.membership = ((counted.markAlive (answeredOf answers)).2.markDead (silentOf answers)).2 := by
  have hcounted : pingAll (cluster.count fun s => { s with pings := s.pings + 1 }).topology.scheme
      (cluster.count fun s => { s with pings := s.pings + 1 }).topology.scheme.partitions
      (cluster.count fun s => { s with pings := s.pings + 1 }).world =
        ((answeredOf answers, silentOf answers), world) := h
  unfold ping probe
  simp only [hcounted]
  split
  next hhealthy => exact ⟨(if_pos hhealthy).symm, rfl, rfl⟩
  next hunhealthy => exact ⟨(if_neg hunhealthy).symm, rfl, rfl⟩

private theorem reviveDead_eq {answers : List (PartitionId × Bool)} {world : μ}
    (htopology : cluster.topology = .ofAlive scheme alive)
    (h : pingAll scheme (scheme.partitions.filter fun partition => !alive.contains partition.identity)
      cluster.world = ((answeredOf answers, silentOf answers), world)) :
    cluster.reviveDead.1 = answeredOf answers ∧ cluster.reviveDead.2.world = world ∧
      cluster.reviveDead.2.membership = (cluster.membership.markAlive (answeredOf answers)).2 := by
  have hdead : pingAll cluster.topology.scheme (cluster.topology.scheme.partitions.filter fun partition =>
      !cluster.topology.alive.contains partition.identity) cluster.world =
        ((answeredOf answers, silentOf answers), world) := by
    rw [htopology]
    exact h
  unfold reviveDead
  dsimp only
  rw [hdead]
  exact ⟨rfl, rfl, rfl⟩

/-- Whatever was believed of the partitions, a ping of all of them leaves those alive that have a client which
answered, with the sharder for these, and fails exactly if some group has lost its quorum in some bucket,
naming those that did not answer. What the ping found means the same to a topology that has changed meanwhile.
A check of the dead partitions pings no others; it finds those that answer, in order, and makes them alive
beside those that were. -/
theorem probes_set_liveness (hscheme : PartitionScheme.create groups client hash = .ok scheme)
    (halive : ∀ partition ∈ alive, partition ∈ scheme.identities)
    (htopology : cluster.topology = .ofAlive scheme alive) :
    (∃ answers world, Pings scheme scheme.partitions cluster.world answers world ∧
      cluster.ping.2.world = world ∧ cluster.ping.2.topology = .ofAlive scheme (answeredOf answers) ∧
      (∀ (current : Membership (Store μ ρ κ σ)) (others : List PartitionId),
        current.topology = .ofAlive scheme others →
        ((current.markAlive (answeredOf answers)).2.markDead (silentOf answers)).2.topology =
          .ofAlive scheme (answeredOf answers)) ∧
      (cluster.ping.1 = .error (.pingFailed ⟨silentOf answers, scheme.size⟩) ↔
        LosesQuorum hash groups cluster.options.pingQuorum (answeredOf answers)) ∧
      (cluster.ping.1 = .ok () ↔
        ¬LosesQuorum hash groups cluster.options.pingQuorum (answeredOf answers))) ∧
    ∃ answers world, Pings scheme (scheme.partitions.filter fun partition => !alive.contains partition.identity)
        cluster.world answers world ∧
      cluster.reviveDead.1 = answeredOf answers ∧ (answeredOf answers).Sublist scheme.identities ∧
      cluster.reviveDead.2.world = world ∧
      ∃ revived, cluster.reviveDead.2.topology = .ofAlive scheme revived ∧
        revived.Sublist scheme.identities ∧
        ∀ partition, partition ∈ revived ↔ partition ∈ alive ∨ partition ∈ answeredOf answers := by
  obtain ⟨hwell, rfl, -⟩ := PartitionScheme.wellFormed_of_create hscheme
  have hstarted : cluster.topology.scheme = scheme := by
    rw [htopology]
    rfl
  constructor
  · obtain ⟨answers, world, hpings, hall⟩ := exists_pings scheme scheme.partitions cluster.world
    have hanswers : answers.map Prod.fst = scheme.identities := hpings.map_fst
    have hascending : (silentOf answers).Pairwise fun a b => compare a b = .lt :=
      (PartitionScheme.identities_ascending_of_create hscheme).sublist (hanswers ▸ silentOf_sublist)
    have hnodup := hwell.nodup_identities
    have hhealthy := isHealthy_answers hwell hanswers cluster.options.pingQuorum
    obtain ⟨hanswer, hworld, hmembership⟩ := ping_eq (hstarted ▸ hall)
    rw [hstarted, FailedPartitions.ofList, sortedDistinct_eq_self hascending] at hanswer
    refine ⟨answers, world, hpings, hworld, ?_, ?_, ?_, ?_⟩
    · rw [topology, hmembership]
      exact Membership.topology_probed hnodup hanswers htopology
    · intro current others hcurrent
      exact Membership.topology_probed hnodup hanswers hcurrent
    · rw [hanswer, ← not_iff_not, ← hhealthy]
      split
      next hyes => simp [hyes]
      next hno => simp [hno]
    · rw [hanswer, ← hhealthy]
      split
      next hyes => simp [hyes]
      next hno => simp [hno]
  · obtain ⟨answers, world, hpings, hdead⟩ := exists_pings scheme
      (scheme.partitions.filter fun partition => !alive.contains partition.identity) cluster.world
    have hfound : (answeredOf answers).Sublist scheme.identities := by
      have hasked : (answers.map Prod.fst).Sublist scheme.identities := by
        rw [hpings.map_fst]
        exact List.filter_sublist.map Partition.identity
      exact answeredOf_sublist.trans hasked
    obtain ⟨hrevived, hworld, hmembership⟩ := reviveDead_eq htopology hdead
    have hmarked := Membership.topology_markAlive htopology (answeredOf answers)
    rw [← hmembership] at hmarked
    refine ⟨answers, world, hpings, hrevived, hfound, hworld, _, hmarked, List.filter_sublist, ?_⟩
    intro partition
    rw [List.mem_filter, Bool.or_eq_true, List.contains_iff_mem, List.contains_iff_mem]
    constructor
    · exact fun h => h.2
    · intro h
      exact ⟨h.elim (halive partition) fun hmem => hfound.subset hmem, h⟩

/-- A partition that was believed to be the only one alive does not answer any more, and the others do. -/
theorem probes_set_liveness_trio :
    let cluster := { Trio.cluster { Faults.healthy with killed := true } with
      membership := .counted (.ofAlive Trio.scheme [⟨"g", "b"⟩]) .zero }
    cluster.ping.2.topology = .ofAlive Trio.scheme [⟨"g", "a"⟩, ⟨"g", "c"⟩] ∧
      LosesQuorum PartitionId.identityHash [Trio.group] .all [⟨"g", "a"⟩, ⟨"g", "c"⟩] ∧
      cluster.ping.1 = .error (.pingFailed ⟨[⟨"g", "b"⟩], 3⟩) ∧
      ∀ partition ∈ cluster.reviveDead.2.topology.alive, partition = ⟨"g", "b"⟩ ∨
        partition ∈ [⟨"g", "a"⟩, (⟨"g", "c"⟩ : PartitionId)] := by
  intro cluster
  have halive : ∀ partition ∈ [(⟨"g", "b"⟩ : PartitionId)], partition ∈ Trio.scheme.identities := by
    decide +kernel
  have htopology : cluster.topology = .ofAlive Trio.scheme [⟨"g", "b"⟩] := rfl
  obtain ⟨⟨answers, world, hpings, -, hleft, -, hfails, hsucceeds⟩, others, -, -, hrevived, -, -, revived,
    hnext, -, hmem⟩ := probes_set_liveness Trio.create_eq halive htopology
  have hanswered : answeredOf answers = [⟨"g", "a"⟩, ⟨"g", "c"⟩] := by
    have hsame := congrArg Topology.alive hleft
    exact hsame.symm.trans (by decide +kernel)
  have hothers : answeredOf others = [⟨"g", "a"⟩, ⟨"g", "c"⟩] := hrevived.symm.trans (by decide +kernel)
  have hloses : LosesQuorum PartitionId.identityHash [Trio.group] .all (answeredOf answers) := by
    by_contra hkeeps
    exact absurd (hsucceeds.mpr hkeeps) (by decide +kernel)
  have herror : cluster.ping.1 = .error (.pingFailed ⟨[⟨"g", "b"⟩], 3⟩) := by decide +kernel
  refine ⟨hanswered ▸ hleft, hanswered ▸ hloses, herror, ?_⟩
  intro partition hpartition
  rw [hnext] at hpartition
  rw [← hothers]
  exact ((hmem partition).mp hpartition).imp_left List.mem_singleton.mp

end Cluster

end ReplicatedStore
