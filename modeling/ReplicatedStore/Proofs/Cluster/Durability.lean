import ReplicatedStore.Cluster.Fleet
import ReplicatedStore.Proofs.Cluster.Sessions
import ReplicatedStore.Proofs.Store.Feed
import ReplicatedStore.Store.Node
/-!
# Durability of uploads

Every upload to a cluster is a run of uploads to single stores. If it succeeds, its source was read as a
whole, each replica set written keeps a quorum of partitions that have not failed, and each of those took
all that is written to it.
-/

namespace ReplicatedStore.Cluster

variable {μ ρ κ σ : Type}

/-- What a successful upload of some entries did to the stores of partitions: the partitions `failed` are
those that are recorded. -/
structure Uploaded [Fingerprint κ] (cluster after : Cluster μ ρ κ σ) (sharder : SchemeSharder)
    (entries : List (Entry κ σ)) (failed : IndexSet) (uploads : List (SessionUpload κ σ)) : Prop where
  run : SessionRun cluster.topology.scheme.clientAt? uploads cluster.world after.world
  recorded : after = { cluster with
    membership := (cluster.countUpload.membership.recordFailures cluster.topology failed).2
    world := after.world }
  satisfied : ∀ entry ∈ entries, ∀ group ∈ sharder.groups,
    group.bucketSatisfies failed cluster.options.uploadQuorum (Bucket.ofHash (hash32 entry.key)) = true
  healthy : ∀ index, index ∉ failed → entries.any (sharder.targets index) = true →
    (uploads.filter fun upload => upload.index == index) =
      [⟨index, .ofEntries (entries.filter (sharder.targets index)), .ok ()⟩]
  fed : ∀ upload ∈ uploads, ∀ entry, .ok entry ∈ upload.feed → entry ∈ entries

theorem recordFailures_of_isEmpty (cluster : Cluster μ ρ κ σ)
    (started : Topology (Store μ ρ κ σ)) {failed : IndexSet} (h : failed.isEmpty = true) :
    (cluster.membership.recordFailures started failed).2 = cluster.membership := by
  have hnone : failed.toList = [] := by
    rw [← List.isEmpty_iff, Std.TreeSet.isEmpty_toList, h]
  have hfilter : cluster.membership.topology.alive.filter
      (fun partition => !([] : List PartitionId).contains partition) =
      cluster.membership.topology.alive := by simp
  simp only [Membership.recordFailures, Topology.identitiesAt, hnone, List.filterMap_nil,
    List.length_nil, Membership.countFailures, Membership.markDead, Membership.update, hfilter,
    if_true, Nat.add_zero]

private theorem mem_delivered_feedOf {sent : List (Entry κ σ)} {complete : Bool} {entry : Entry κ σ}
    (h : .ok entry ∈ UploadSessions.feedOf sent complete) : entry ∈ sent := by
  unfold UploadSessions.feedOf at h
  rcases List.mem_append.mp h with hsent | herror
  · obtain ⟨e, he, heq⟩ := List.mem_map.mp hsent
    cases heq
    exact List.mem_reverse.mp he
  · cases complete <;> simp at herror

private theorem feedOf_reverse (entries : List (Entry κ σ)) :
    UploadSessions.feedOf entries.reverse true = .ofEntries entries := by
  simp [UploadSessions.feedOf]

private theorem uploaded_of_completion [Fingerprint κ] {cluster after : Cluster μ ρ κ σ}
    {sharder : SchemeSharder} {interleaving : Interleaving} {entries : List (Entry κ σ)}
    {sessions : UploadSessions κ σ} {failed : IndexSet} {uploads : List (SessionUpload κ σ)}
    (hholds : sessions.Holds sharder entries) (hkept : ∀ index, index ∈ sessions.failed → index ∈ failed)
    (hcompletion : UploadSessions.Completion cluster.topology.scheme.clientAt? interleaving
      sessions.sent.toList failed uploads cluster.world after.world)
    (hsatisfied : sharder.isWriteSatisfied failed sessions.buckets cluster.options.uploadQuorum = true)
    (hrecorded : after = { cluster with
      membership := (cluster.countUpload.membership.recordFailures cluster.topology failed).2
      world := after.world }) :
    Uploaded cluster after sharder entries failed uploads where
  run := hcompletion.run
  recorded := hrecorded
  satisfied entry hentry group hgroup :=
    SchemeSharder.bucketSatisfies_of_isWriteSatisfied hsatisfied hgroup (hholds.buckets entry hentry)
  healthy index hindex htargeted := by
    have hsent := hholds.sent index fun hmem => hindex (hkept index hmem)
    have hnonempty : entries.filter (sharder.targets index) ≠ [] := by
      obtain ⟨entry, hentry, htarget⟩ := List.any_eq_true.mp htargeted
      exact List.ne_nil_of_mem (List.mem_filter.mpr ⟨hentry, htarget⟩)
    cases hfilter : entries.filter (sharder.targets index) with
    | nil => exact absurd hfilter hnonempty
    | cons first rest =>
      rw [hfilter, UploadSessions.sessionOf] at hsent
      · have hmem := Std.TreeMap.mem_toList_iff_getElem?_eq_some.mpr hsent
        rw [hcompletion.healthy index _ hmem hindex, feedOf_reverse]
      · exact List.cons_ne_nil first rest
  fed upload hupload entry hentry := by
    obtain ⟨sent, hsession, hfeed⟩ := hcompletion.fed upload hupload
    apply hholds.mem_read upload.index
    have hsent := Std.TreeMap.mem_toList_iff_getElem?_eq_some.mp hsession
    rw [Std.TreeMap.getD_eq_getD_getElem?, hsent, Option.getD_some]
    rcases hfeed with hfeed | hfeed
    · exact mem_delivered_feedOf (hfeed ▸ hentry)
    · exact List.mem_of_mem_drop (mem_delivered_feedOf (hfeed ▸ hentry))

theorem exists_sharder_of_ok [Fingerprint κ] {cluster after : Cluster μ ρ κ σ}
    {interleaving : Interleaving} {source : Feed κ σ}
    (h : cluster.uploadWith interleaving source = (.ok (), after)) :
    ∃ sharder, cluster.topology.sharder = some sharder := by
  cases hsharder : cluster.topology.sharder with
  | some sharder => exact ⟨sharder, rfl⟩
  | none =>
    have hnone : cluster.countUpload.topology.sharder = none := hsharder
    unfold uploadWith uploadUntil at h
    simp only [hnone] at h
    cases h

theorem uploaded_of_ok [Fingerprint κ] {cluster after : Cluster μ ρ κ σ} {sharder : SchemeSharder}
    {interleaving : Interleaving} {source : Feed κ σ}
    (hsharder : cluster.topology.sharder = some sharder)
    (h : cluster.uploadWith interleaving source = (.ok (), after)) :
    ∃ entries failed uploads, source = .ofEntries entries ∧
      Uploaded cluster after sharder entries failed uploads := by
  unfold uploadWith uploadUntil at h
  have hstarted : cluster.countUpload.topology.sharder = some sharder := hsharder
  simp only [hstarted] at h
  split at h
  next => cases h
  next => cases h
  next sessions hsend =>
    obtain ⟨entries, hholds, hended⟩ := (UploadSessions.Holds.empty sharder).sendAll hsend
    rw [List.nil_append] at hholds
    have hnodup : (sessions.sent.toList.map Prod.fst).Nodup := by
      rw [Std.TreeMap.map_fst_toList_eq_keys]
      exact Std.TreeMap.nodup_keys
    unfold finishUpload at h
    dsimp only at h
    generalize hcomplete : UploadSessions.completeAll Store.upload
      cluster.countUpload.topology.scheme.clientAt? interleaving sessions.sent.toList sessions.failed
      cluster.countUpload.world = completed at h
    obtain ⟨failed, world⟩ := completed
    obtain ⟨hkept, uploads, hcompletion⟩ := UploadSessions.completeAll_completion hnodup hcomplete
    dsimp only at h
    split at h
    next hsatisfied =>
      refine ⟨entries, failed, uploads, hended rfl, ?_⟩
      split at h
      next hempty =>
        cases h
        refine uploaded_of_completion hholds hkept hcompletion hsatisfied ?_
        rw [recordFailures_of_isEmpty _ _ hempty]
        rfl
      next =>
        cases h
        exact uploaded_of_completion hholds hkept hcompletion hsatisfied rfl
    next => cases h

theorem eq_ok_of_isOk {ε α : Type} {answer : Except ε Unit × α} (h : answer.1.isOk = true) :
    answer = (.ok (), answer.2) := by
  obtain ⟨result, after⟩ := answer
  cases result with
  | ok => rfl
  | error => contradiction

/-- If an upload succeeds, then in each active group a quorum of the replica set of each entry is not
recorded as failed, and each partition written to that is not recorded as failed completed one session:
it was fed exactly the entries routed to it, in the order of the source. -/
theorem upload_durable [Fingerprint κ] {groups : List PartitionGroup}
    {client : Partition → Option (Store μ ρ κ σ)} {hash : PartitionId → UInt32}
    {scheme : PartitionScheme (Store μ ρ κ σ)} {alive : List PartitionId} {sharder : SchemeSharder}
    {cluster after : Cluster μ ρ κ σ} {interleaving : Interleaving} {entries : List (Entry κ σ)}
    (hscheme : PartitionScheme.create groups client hash = .ok scheme)
    (htopology : cluster.topology = .ofAlive scheme alive)
    (hsharder : cluster.topology.sharder = some sharder)
    (h : cluster.uploadWith interleaving (.ofEntries entries) = (.ok (), after)) :
    ∃ failed uploads,
      SessionRun scheme.clientAt? uploads cluster.world after.world ∧
      after.membership =
        (cluster.countUpload.membership.recordFailures cluster.topology failed).2 ∧
      (∀ entry ∈ entries, ∀ group ∈ groups, group.active = true →
        let replicas := scheme.replicaSet hash alive.contains group (Bucket.ofHash (hash32 entry.key))
        replicas.Nodup ∧ (∀ index ∈ replicas, index ∈ sharder.shard (hash32 entry.key)) ∧
        cluster.options.uploadQuorum.required replicas.length ≤
          replicas.countP fun index => !failed.contains index) ∧
      ∀ index, index ∉ failed → entries.any (sharder.targets index) = true →
        (uploads.filter fun upload => upload.index == index) =
          [⟨index, .ofEntries (entries.filter (sharder.targets index)), .ok ()⟩] := by
  obtain ⟨read, failed, uploads, hsource, huploaded⟩ := uploaded_of_ok hsharder h
  obtain rfl := Feed.ofEntries_injective hsource
  obtain ⟨hwell, rfl, -⟩ := PartitionScheme.wellFormed_of_create hscheme
  have hstarted : cluster.topology.scheme = scheme := by rw [htopology]; rfl
  have hcreate : scheme.createSharder alive.contains = some sharder := by
    rw [htopology] at hsharder
    exact hsharder
  obtain ⟨hgroups, -, -⟩ := PartitionScheme.createSharder_eq_some hwell hcreate
  refine ⟨failed, uploads, hstarted ▸ huploaded.run, ?_, ?_, huploaded.healthy⟩
  · rw [huploaded.recorded]
  · intro entry hentry group hgroup hactive
    have hmem : (GroupSharder.ofGroup scheme.identities hash group).adapted alive.contains ∈
        sharder.groups := by
      rw [hgroups]
      exact List.mem_map_of_mem (List.mem_filter.mpr ⟨hgroup, hactive⟩)
    refine ⟨?_, ?_, ?_⟩
    · exact GroupSharder.nodup_replicas _ _ _ _ _ (hwell.mem_identities group hgroup)
    · intro index hindex
      exact SchemeSharder.mem_replicas.mpr ⟨_, hmem, hindex⟩
    · exact of_decide_eq_true (huploaded.satisfied entry hentry _ hmem)

namespace Trio

/-! Three partitions that share one group, each of which takes every key. -/

def partition (id : String) : Partition := ⟨⟨"g", id⟩, none, none⟩

def group : PartitionGroup := ⟨[partition "a", partition "b", partition "c"], 3, false, true⟩

def function : MergeFunction Nat := .ignoringTime max

def client (partition : Partition) :
    Option (Store (Fleet (Node UInt64 Nat)) (List (UInt64 × Nat)) UInt64 Nat) :=
  some (Fleet.member (Node.requests function) partition.identity.name)

def sharder : GroupSharder where
  sharder :=
    { members := group.members.zipIdx.map fun (m, index) => ⟨m, index, PartitionId.identityHash m⟩
      width := 3
      table := .everyone [0, 1, 2] }
  positions := #[0, 1, 2]
  repartition := false
  active := true

def scheme : PartitionScheme (Store (Fleet (Node UInt64 Nat)) (List (UInt64 × Nat)) UInt64 Nat) :=
  ⟨[group], group.partitions, client, [sharder]⟩

theorem sortedDistinct_members : sortedDistinct group.members = group.members :=
  sortedDistinct_eq_self (by decide +kernel)

theorem ofGroup_eq : GroupSharder.ofGroup group.members PartitionId.identityHash group = sharder := by
  rw [GroupSharder.ofGroup, Rendezvous.create, sortedDistinct_members]
  rfl

theorem create_members {γ : Type} (client : Partition → Option γ) :
    PartitionScheme.create [group] client PartitionId.identityHash =
      .ok ⟨[group], group.partitions, client, [sharder]⟩ := by
  have hpartitions : sortedDistinct ([group].flatMap PartitionGroup.partitions) = group.partitions :=
    sortedDistinct_eq_self (by decide +kernel)
  have hfault : PartitionScheme.fault? [group] = none := by decide
  rw [PartitionScheme.create, hfault, hpartitions, ← ofGroup_eq]
  rfl

theorem create_eq : PartitionScheme.create [group] client PartitionId.identityHash = .ok scheme :=
  create_members client

def cluster (faults : Faults) : Cluster (Fleet (Node UInt64 Nat)) (List (UInt64 × Nat)) UInt64 Nat where
  membership := .start scheme .zero
  function := function
  options := .standard
  world := .ofInitial fun name =>
    ⟨if name = "g|b" then faults else .healthy, .empty⟩

end Trio

/-- Of three partitions, one of which refuses uploads, at least two take an entry. -/
theorem upload_durable_trio :
    ∃ (failed : IndexSet) (uploads : List (SessionUpload UInt64 Nat)),
      2 ≤ [0, 1, 2].countP (fun index => !failed.contains index) ∧
      ∀ index ∈ [0, 1, 2], index ∉ failed →
        (uploads.filter fun upload => upload.index == index) =
          [⟨index, .ofEntries [⟨1, 5, 7⟩], .ok ()⟩] := by
  let cluster := Trio.cluster { Faults.healthy with upload := true }
  obtain ⟨after, hok⟩ : ∃ after,
      cluster.uploadWith .patient (.ofEntries [⟨1, 5, 7⟩]) = (.ok (), after) :=
    ⟨_, eq_ok_of_isOk (by decide +kernel)⟩
  have hsharder : cluster.topology.sharder = some ⟨[Trio.sharder]⟩ := rfl
  have hgroup : GroupSharder.ofGroup Trio.scheme.identities PartitionId.identityHash Trio.group =
      Trio.sharder := Trio.ofGroup_eq
  have hreplicas : Trio.scheme.replicaSet PartitionId.identityHash Trio.scheme.identities.contains
      Trio.group (Bucket.ofHash (hash32 (1 : UInt64))) = [0, 1, 2] := by
    rw [PartitionScheme.replicaSet, hgroup]
    decide +kernel
  have htargets : ∀ index ∈ [0, 1, 2],
      SchemeSharder.targets ⟨[Trio.sharder]⟩ index (⟨1, 5, 7⟩ : Entry UInt64 Nat) = true := by
    decide +kernel
  obtain ⟨failed, uploads, -, -, hquorum, hcomplete⟩ := upload_durable Trio.create_eq rfl hsharder hok
  have ⟨_, _, hcount⟩ := hquorum _ (List.mem_singleton_self _) Trio.group (List.mem_singleton_self _) rfl
  rw [hreplicas] at hcount
  refine ⟨failed, uploads, hcount, ?_⟩
  intro index hindex hhealthy
  have hall := hcomplete index hhealthy
  simp only [List.any_cons, List.filter_cons, htargets index hindex, if_true] at hall
  exact hall rfl

end ReplicatedStore.Cluster
