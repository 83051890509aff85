import ReplicatedStore.Proofs.Cluster.Completion
import ReplicatedStore.Proofs.Cluster.Evolution
import ReplicatedStore.Proofs.Cluster.Fleet
import ReplicatedStore.Proofs.Store.Takes
/-!
# Takes of a cluster

A take of a cluster is polled some times, while other things happen to the cluster. At every moment the
partitions it has completed are partitions whose entries it has all handed out. Committing it then removes
nothing that was not handed out before, and nothing that was written since.
-/

namespace ReplicatedStore.Cluster

variable {μ ρ κ σ : Type}

abbrev Answers (κ σ : Type) := List (Option (Except ClusterError (Entry κ σ)))

/-- An entry of a partition was merged into one that a read has yielded. -/
def Handed (f : MergeFunction σ) (feeds : List (Nat × Feed κ σ)) (answers : Answers κ σ) (index : Nat)
    (entry : Entry κ σ) : Prop :=
  ∃ merged copies, some (.ok merged) ∈ answers ∧ Merge.Copies f feeds copies merged ∧ (index, entry) ∈ copies

section Polls

variable [Ord κ]

/-- A read is polled, while other things happen to the cluster between the polls. -/
inductive Consumed (read : ClusterRead μ ρ κ σ) (cluster : Cluster μ ρ κ σ) :
    Answers κ σ → ClusterRead μ ρ κ σ → Cluster μ ρ κ σ → Prop
  | opened : Consumed read cluster [] read cluster
  | poll {answers : Answers κ σ} {current : ClusterRead μ ρ κ σ} {now : Cluster μ ρ κ σ}
    (h : Consumed read cluster answers current now) :
    Consumed read cluster (answers ++ [(next current now).1]) (next current now).2.1 (next current now).2.2
  | beside {answers : Answers κ σ} {current : ClusterRead μ ρ κ σ} {now later : Cluster μ ρ κ σ}
    (h : Consumed read cluster answers current now) (hfunction : later.function = now.function) :
    Consumed read cluster answers current later

structure Underway (f : MergeFunction σ) (feeds : List (Nat × Feed κ σ)) (answers : Answers κ σ)
    (read : ClusterRead μ ρ κ σ) : Prop where
  progress : read.merge.Progress feeds (Handed f feeds answers) (∃ error, some (.error error) ∈ answers)
  ended : none ∈ answers → ∀ source ∈ read.merge.sources, source.isOver

variable {feeds : List (Nat × Feed κ σ)} {answers : Answers κ σ} {read current : ClusterRead μ ρ κ σ}
  {cluster now : Cluster μ ρ κ σ}

omit [Ord κ] in
private theorem Handed.append {f : MergeFunction σ} {index : Nat} {entry : Entry κ σ}
    (h : Handed f feeds answers index entry) (more : Answers κ σ) :
    Handed f feeds (answers ++ more) index entry := by
  obtain ⟨merged, copies, hmem, hcopies, hentry⟩ := h
  exact ⟨merged, copies, List.mem_append_left _ hmem, hcopies, hentry⟩

variable [Std.TransOrd κ] [Std.LawfulEqOrd κ]

theorem Underway.next (h : Underway cluster.function feeds answers read)
    (hdistinct : (feeds.map Prod.fst).Nodup) :
    Underway cluster.function feeds (answers ++ [(next read cluster).1]) (next read cluster).2.1 := by
  obtain ⟨step, membership, hstep, hnext⟩ := next_eq read cluster
  have hprogressed := h.progress.next hdistinct cluster.function (cluster.isValidWithout read.started)
    (interruptionAt read.started cluster.world)
  have hover := fun hnone => Merge.next_of_isOver cluster.function (cluster.isValidWithout read.started)
    (interruptionAt read.started cluster.world) (h.ended hnone)
  rw [← hstep] at hprogressed hover
  rw [hnext]
  cases hprogressed with
  | entry hcopies hafter =>
    refine ⟨hafter.mono (fun index entry => ?_) ?_, fun hnone => ?_⟩
    · rintro (hold | hnew)
      · exact hold.append _
      · exact ⟨_, _, List.mem_append_right _ (List.mem_singleton_self _), hcopies, hnew⟩
    · rintro ⟨error, hmem⟩
      exact ⟨error, List.mem_append_left _ hmem⟩
    · have hold : none ∈ answers := by simpa [itemOf] using hnone
      cases (hover hold).1
  | ended hafter hspent =>
    refine ⟨hafter.mono (fun index entry hold => hold.append _) ?_, fun _ => hspent⟩
    rintro ⟨error, hmem⟩
    exact ⟨error, List.mem_append_left _ hmem⟩
  | invalid hafter =>
    refine ⟨hafter.mono (fun index entry hold => hold.append _) fun _ => ?_, fun hnone => ?_⟩
    · exact ⟨_, List.mem_append_right _ (List.mem_singleton_self _)⟩
    · have hold : none ∈ answers := by simpa [itemOf] using hnone
      cases (hover hold).1

theorem Consumed.underway (h : Consumed read cluster answers current now) {unhealthy : IndexSet}
    (hmerge : read.merge = .ofFeeds feeds unhealthy) (hdistinct : (feeds.map Prod.fst).Nodup) :
    now.function = cluster.function ∧ current.started = read.started ∧
      Underway cluster.function feeds answers current := by
  induction h with
  | opened =>
    refine ⟨rfl, rfl, ?_, fun hnone => absurd hnone List.not_mem_nil⟩
    rw [hmerge]
    exact (Merge.Progress.ofFeeds feeds unhealthy).mono (fun _ _ => False.elim) False.elim
  | @poll answers current now _ ih =>
    obtain ⟨hfunction, hstarted, hunderway⟩ := ih
    have hnow := hfunction ▸
      (hfunction.symm ▸ hunderway : Underway now.function feeds answers current).next hdistinct
    obtain ⟨step, membership, -, hnext⟩ := next_eq current now
    rw [hnext] at hnow ⊢
    exact ⟨hfunction, hstarted, hnow⟩
  | beside _ hsame ih =>
    obtain ⟨hfunction, hstarted, hunderway⟩ := ih
    exact ⟨hsame.trans hfunction, hstarted, hunderway⟩

end Polls

section Commits

/-- The stores of some partitions commit takes, one after the other, each by its receipt. -/
inductive Commits (client : Nat → Option (Store μ ρ κ σ)) : ClusterReceipt ρ → μ → μ → Prop
  | nil (world : μ) : Commits client [] world world
  | cons {index : Nat} {receipt : ρ} {rest : ClusterReceipt ρ} {store : Store μ ρ κ σ}
    {answer : Except StoreError Unit} {before between after : μ} (hclient : client index = some store)
    (hcommit : store.commit receipt true before = (answer, between))
    (hrest : Commits client rest between after) : Commits client ((index, receipt) :: rest) before after

theorem commitAll_commits {scheme : PartitionScheme (Store μ ρ κ σ)} {receipts : ClusterReceipt ρ}
    (hclients : ∀ item ∈ receipts, ∃ store, scheme.clientAt? item.1 = some store) (world : μ) :
    Commits scheme.clientAt? receipts world (commitAll scheme receipts world).2 := by
  induction receipts generalizing world with
  | nil => exact .nil world
  | cons item rest ih =>
    obtain ⟨index, receipt⟩ := item
    obtain ⟨store, hstore⟩ := hclients _ (List.mem_cons_self ..)
    have hrest := ih fun item hmem => hclients item (List.mem_cons_of_mem _ hmem)
    unfold commitAll
    simp only [hstore]
    exact .cons hstore rfl (hrest _)

/-- The takes of a cluster take that are committed with it: those of the partitions read to their end. -/
def committed (receipts : ClusterReceipt ρ) (read : ClusterRead μ ρ κ σ) : ClusterReceipt ρ :=
  receipts.filter fun item => read.merge.completed.contains item.1

def givenUp (receipts : ClusterReceipt ρ) (read : ClusterRead μ ρ κ σ) : ClusterReceipt ρ :=
  receipts.filter fun item => !read.merge.completed.contains item.1

variable {receipts : ClusterReceipt ρ} {read : ClusterRead μ ρ κ σ}

theorem commit_commits (cluster : Cluster μ ρ κ σ)
    (hclients : ∀ item ∈ receipts, ∃ store, read.started.scheme.clientAt? item.1 = some store) :
    Commits read.started.scheme.clientAt? (committed receipts read)
      (releaseAll read.started.scheme (givenUp receipts read) cluster.world)
      (cluster.commit receipts read).2.world := by
  have hcommitted : ∀ item ∈ committed receipts read,
      ∃ store, read.started.scheme.clientAt? item.1 = some store :=
    fun item hmem => hclients item (List.mem_of_mem_filter hmem)
  have hrun := commitAll_commits hcommitted
    (releaseAll read.started.scheme (givenUp receipts read) cluster.world)
  unfold commit
  rw [List.partition_eq_filter_filter]
  exact hrun

end Commits

section Maps

variable [Ord κ]

/-- The store of each partition keeps a map of its own, of which takes see all, and of which commits remove
what was taken, or nothing. `versions` are the numbers of writes that a receipt stands for. -/
structure TakesMaps (f : MergeFunction σ) (client : Nat → Option (Store μ ρ κ σ))
    (held : Nat → μ → MapStore κ σ) (versions : ρ → List (κ × Nat)) : Prop extends KeepsMaps f client held where
  sees : ∀ {index store before feed receipt after}, client index = some store →
    store.take before = (.ok (feed, receipt), after) →
    versions receipt = (held index before).versions ∧
      ∀ entries, feed = .ofEntries entries → entries = (held index before).entries
  removes : ∀ {index store receipt before answer after}, client index = some store →
    store.commit receipt true before = (answer, after) →
    held index after = held index before ∨
      held index after = (held index before).removeTaken (versions receipt)
  keeps : ∀ {index other store receipt before answer after}, client index = some store →
    store.commit receipt true before = (answer, after) → other ≠ index → held other after = held other before

variable {f : MergeFunction σ} {client : Nat → Option (Store μ ρ κ σ)} {held : Nat → μ → MapStore κ σ}
  {versions : ρ → List (κ × Nat)} {receipts : ClusterReceipt ρ} {before after : μ}

theorem Commits.held_cases (h : Commits client receipts before after) (hmaps : TakesMaps f client held versions)
    (hdistinct : (receipts.map Prod.fst).Nodup) (index : Nat) :
    held index after = held index before ∨ ∃ receipt, (index, receipt) ∈ receipts ∧
      held index after = (held index before).removeTaken (versions receipt) := by
  induction h with
  | nil => exact .inl rfl
  | @cons first receipt rest store answer before between after hclient hcommit _ ih =>
    obtain ⟨hfirst, hrest⟩ := List.nodup_cons.mp hdistinct
    have hlater := ih hrest
    by_cases hindex : index = first
    · subst hindex
      have hsame : held index after = held index between := by
        rcases hlater with hsame | ⟨other, hmem, -⟩
        · exact hsame
        · exact absurd (List.mem_map_of_mem hmem) hfirst
      rw [hsame]
      rcases hmaps.removes hclient hcommit with hkept | hremoved
      · exact .inl hkept
      · exact .inr ⟨receipt, List.mem_cons_self .., hremoved⟩
    · rw [hmaps.keeps hclient hcommit hindex] at hlater
      rcases hlater with hsame | ⟨other, hmem, hremoved⟩
      · exact .inl hsame
      · exact .inr ⟨other, List.mem_cons_of_mem _ hmem, hremoved⟩

/-- Stores in memory under names that differ keep maps of which takes see all, whatever their faults. -/
theorem TakesMaps.ofNames {names : List String}
    {client : Nat → Option (Store (Fleet (Node κ σ)) (List (κ × Nat)) κ σ)} (hnames : names.Nodup)
    (hclient : ∀ {index store}, client index = some store →
      ∃ name, names[index]? = some name ∧ store = Fleet.member (Node.requests f) name) :
    TakesMaps f client (Fleet.heldAt names) id := by
  constructor
  case toKeepsMaps => exact Fleet.keepsMaps hnames hclient
  case sees =>
    intro index store before feed receipt after hstore h
    obtain ⟨name, hname, rfl⟩ := hclient hstore
    have hanswer : ((Node.requests f).take (before.get name)).1 = .ok (feed, receipt) := congrArg Prod.fst h
    obtain ⟨rfl, rfl⟩ := Node.snapshot_of_take (Prod.ext hanswer rfl)
    rw [Fleet.heldAt_eq hname]
    exact ⟨rfl, fun entries hfeed => (Feed.ofEntries_injective hfeed).symm⟩
  case removes =>
    intro index store receipt before answer after hstore h
    obtain ⟨name, hname, rfl⟩ := hclient hstore
    obtain ⟨-, rfl⟩ := Prod.mk.inj h
    rw [Fleet.heldAt_set_self hname, Fleet.heldAt_eq hname]
    exact Node.store_of_commit f receipt _
  case keeps =>
    intro index other store receipt before answer after hstore h hother
    obtain ⟨name, hname, rfl⟩ := hclient hstore
    obtain ⟨-, rfl⟩ := Prod.mk.inj h
    exact Fleet.heldAt_set_of_ne hnames hname hother

end Maps

structure TakeOf (cluster after : Cluster μ ρ κ σ) (read : ClusterRead μ ρ κ σ) (receipts : ClusterReceipt ρ)
    (taken : Opened ρ κ σ) : Prop where
  merge : ∃ unhealthy, read.merge = .ofFeeds (feedsOf taken) unhealthy
  started : read.started = cluster.topology
  function : after.function = cluster.function
  receipts : receipts = receiptsOf taken
  distinct : (taken.sources.map Prod.fst).Nodup
  opening : ∃ indices,
    Opening Store.take cluster.topology.scheme.clientAt? indices cluster.world taken after.world

namespace TakeOf

variable {cluster after : Cluster μ ρ κ σ} {read : ClusterRead μ ρ κ σ} {receipts : ClusterReceipt ρ}
  {taken : Opened ρ κ σ} {order : List Nat → List Nat}

theorem of_ok (horder : ∀ indices, (order indices).Perm indices)
    (h : cluster.takeIn order = (.ok (read, receipts), after)) :
    TakeOf cluster after read receipts (cluster.opening Store.take order).1 := by
  obtain ⟨membership, rfl, rfl, rfl, -⟩ := openRead_of_ok h
  have hopening := openPartitions_opening Store.take cluster.topology.scheme
    (order cluster.topology.aliveIndices) cluster.world
  have halive : cluster.topology.aliveIndices.Nodup := List.nodup_range.filter _
  exact ⟨⟨_, rfl⟩, rfl, rfl, rfl, hopening.positions.nodup ((horder _).nodup_iff.mpr halive), _, hopening⟩

variable (h : TakeOf cluster after read receipts taken)
include h

theorem positions : receipts.map Prod.fst = (feedsOf taken).map Prod.fst := by
  rw [h.receipts, receiptsOf, feedsOf, List.map_map, List.map_map]
  rfl

theorem nodup : ((feedsOf taken).map Prod.fst).Nodup := by
  have hmap : (feedsOf taken).map Prod.fst = (byPosition taken.sources).map Prod.fst := by
    rw [feedsOf, List.map_map]
    rfl
  rw [hmap]
  exact ((List.mergeSort_perm ..).map Prod.fst).nodup_iff.mpr h.distinct

theorem mem_receipts {index : Nat} {receipt : ρ} :
    (index, receipt) ∈ receipts ↔ ∃ feed, (index, feed, receipt) ∈ taken.sources := by
  rw [h.receipts]
  simp only [receiptsOf, byPosition, List.mem_map, List.mem_mergeSort, Prod.exists, Prod.mk.injEq]
  constructor
  · rintro ⟨_, feed, _, hmem, rfl, rfl⟩
    exact ⟨feed, hmem⟩
  · rintro ⟨feed, hmem⟩
    exact ⟨_, feed, _, hmem, rfl, rfl⟩

theorem exists_client {item : Nat × ρ} (hmem : item ∈ receipts) :
    ∃ store, cluster.topology.scheme.clientAt? item.1 = some store := by
  obtain ⟨feed, hsource⟩ := h.mem_receipts.mp hmem
  obtain ⟨indices, hopening⟩ := h.opening
  obtain ⟨store, -, -, hclient, -⟩ :=
    @Opening.asked _ _ _ _ _ _ _ _ _ _ _ Unit (fun _ _ => ()) hopening (fun _ _ => rfl) _ _ hsource
  exact ⟨store, hclient⟩

theorem nodup_committed (current : ClusterRead μ ρ κ σ) :
    ((committed receipts current).map Prod.fst).Nodup :=
  (List.filter_sublist.map Prod.fst).nodup (h.positions ▸ h.nodup)

theorem commits {current : ClusterRead μ ρ κ σ} (hstarted : current.started = cluster.topology)
    (last : Cluster μ ρ κ σ) :
    Commits cluster.topology.scheme.clientAt? (committed receipts current)
      (releaseAll cluster.topology.scheme (givenUp receipts current) last.world)
      (last.commit receipts current).2.world := by
  rw [← hstarted]
  refine commit_commits last fun item hmem => ?_
  rw [hstarted]
  exact h.exists_client hmem

theorem sees [Ord κ] {f : MergeFunction σ}
    {held : Nat → μ → MapStore κ σ} {versions : ρ → List (κ × Nat)}
    (hmaps : TakesMaps f cluster.topology.scheme.clientAt? held versions) {index : Nat} {feed : Feed κ σ}
    {receipt : ρ} (hsource : (index, feed, receipt) ∈ taken.sources) :
    versions receipt = (held index cluster.world).versions ∧
      ∀ entries, feed = .ofEntries entries → entries = (held index cluster.world).entries := by
  obtain ⟨indices, hopening⟩ := h.opening
  obtain ⟨store, between, next, hclient, hanswer, hheld⟩ := hopening.asked hmaps.taken hsource
  rw [← hheld]
  exact hmaps.sees hclient hanswer

end TakeOf

section Takes

variable [Ord κ] [Std.TransOrd κ] [Std.LawfulEqOrd κ] {cluster opened last : Cluster μ ρ κ σ}
  {read current : ClusterRead μ ρ κ σ} {receipts : ClusterReceipt ρ} {taken : Opened ρ κ σ}
  {answers : Answers κ σ}

omit [Ord κ] [Std.TransOrd κ] [Std.LawfulEqOrd κ] in
/-- A partition that a take has completed has handed out all that it delivers. -/
theorem Underway.handed_of_completed {f : MergeFunction σ} {feeds : List (Nat × Feed κ σ)}
    (h : Underway f feeds answers current) {index : Nat} (hindex : index ∈ current.merge.completed) :
    index ∉ current.merge.failed ∧ ∃ entries, (index, .ofEntries entries) ∈ feeds ∧
      ∀ entry ∈ entries, Handed f feeds answers index entry := by
  obtain ⟨source, hsource, rfl⟩ := h.progress.exists_source (h.progress.opened index hindex)
  obtain ⟨feed, entries, hfeed, hhanded, hfate⟩ := h.progress.fates source hsource
  obtain rfl := hfate.feed_eq hindex
  exact ⟨hfate.not_mem_failed hindex, entries, hfeed, hhanded⟩

omit [Ord κ] [Std.TransOrd κ] [Std.LawfulEqOrd κ] in
theorem Underway.mem_completed_iff {f : MergeFunction σ} {feeds : List (Nat × Feed κ σ)}
    (h : Underway f feeds answers current) (hended : none ∈ answers)
    (hclean : ∀ error, some (.error error) ∉ answers) {index : Nat} (hindex : index ∈ feeds.map Prod.fst) :
    index ∈ current.merge.completed ↔ index ∉ current.merge.failed := by
  obtain ⟨source, hmem, rfl⟩ := h.progress.exists_source hindex
  obtain ⟨_, _, -, -, hfate⟩ := h.progress.fates source hmem
  have hrecorded := hfate.mem_or_mem (h.ended hended source hmem) fun ⟨error, herror⟩ => hclean error herror
  exact ⟨hfate.not_mem_failed, hrecorded.resolve_right⟩

omit [Ord κ] [Std.TransOrd κ] [Std.LawfulEqOrd κ] in
theorem TakeOf.mem_committed_iff (h : TakeOf cluster opened read receipts taken) {f : MergeFunction σ}
    (hunderway : Underway f (feedsOf taken) answers current) (index : Nat) :
    index ∈ (committed receipts current).map Prod.fst ↔ index ∈ current.merge.completed := by
  constructor
  · intro hmem
    obtain ⟨item, hitem, rfl⟩ := List.mem_map.mp hmem
    exact (List.mem_filter.mp hitem).2
  · intro hindex
    have hposition := h.positions ▸ hunderway.progress.opened index hindex
    obtain ⟨item, hitem, rfl⟩ := List.mem_map.mp hposition
    exact List.mem_map_of_mem (List.mem_filter.mpr ⟨hitem, hindex⟩)

/-- What the commit of a take removes from a partition was handed out, and was not written since the take. -/
theorem TakeOf.slots_commit (htake : TakeOf cluster opened read receipts taken)
    (hstarted : current.started = cluster.topology)
    (hunderway : Underway cluster.function (feedsOf taken) answers current) {f : MergeFunction σ}
    {held : Nat → μ → MapStore κ σ} {versions : ρ → List (κ × Nat)}
    (hmaps : TakesMaps f cluster.topology.scheme.clientAt? held versions)
    (hreached : ∀ index, (held index cluster.world).Reached f) {written : Nat → List (Entry κ σ)}
    (hchanged : ∀ index, MapStore.Changed f (held index cluster.world) (written index) (held index last.world))
    (index : Nat) (key : κ) :
    (held index (last.commit receipts current).2.world).slots[key]? = (held index last.world).slots[key]? ∨
      ∃ slot, (held index last.world).slots[key]? = some slot ∧
        (held index (last.commit receipts current).2.world).slots[key]? = none ∧
        index ∈ current.merge.completed ∧ (held index cluster.world).slots[key]? = some slot ∧
        (∀ entry ∈ written index, entry.key ≠ key) ∧
        Handed cluster.function (feedsOf taken) answers index slot.entry := by
  have hbefore := held_releaseAll hmaps.toKeepsMaps (givenUp receipts current) last.world index
  have hcases := (htake.commits hstarted last).held_cases hmaps (htake.nodup_committed current) index
  rcases hcases with hsame | ⟨receipt, hmem, hremoved⟩
  · exact .inl (by rw [hsame, hbefore])
  · obtain ⟨hreceipt, hcompleted⟩ := List.mem_filter.mp hmem
    obtain ⟨feed, hsource⟩ := htake.mem_receipts.mp hreceipt
    rw [hbefore, (htake.sees hmaps hsource).1] at hremoved
    have hkeyed := (hreached index).keyed f
    have hcases := (hchanged index).commit_cases hkeyed (hreached index).fresh key
    rw [← hremoved] at hcases
    refine hcases.imp_right ?_
    rintro ⟨slot, hslot, hgone, hsnapshot, hunwritten⟩
    have hindex : index ∈ current.merge.completed := hcompleted
    refine ⟨slot, hslot, hgone, hindex, hsnapshot, hunwritten, ?_⟩
    obtain ⟨-, entries, hfeed, hhanded⟩ := hunderway.handed_of_completed hindex
    obtain ⟨other, hother⟩ := mem_feedsOf.mp hfeed
    obtain rfl := (htake.sees hmaps hother).2 entries rfl
    refine hhanded slot.entry (hkeyed.mem_entries.mpr ?_)
    rw [hkeyed key slot hsnapshot, MapStore.get?, hsnapshot, Option.map_some]

omit [Ord κ] [Std.TransOrd κ] [Std.LawfulEqOrd κ] in
theorem exists_takeIn {order : List Nat → List Nat}
    (hdead : cluster.isValidWithout cluster.topology cluster.topology.deadIndices = true)
    (hvalid : cluster.isValidWithout cluster.topology
      (missing cluster.topology (cluster.opening Store.take order).1) = true) :
    ∃ item after, cluster.takeIn order = (.ok item, after) := by
  unfold takeIn
  let counted := cluster.count fun s => { s with takes := s.takes + 1 }
  have hready : counted.isValidWithout counted.topology counted.topology.deadIndices = true := hdead
  have hstill : counted.isValidWithout counted.topology
      (missing counted.topology (counted.opening Store.take order).1) = true := hvalid
  exact exists_openRead .take releaseAll hready hstill

/-- At every moment of a take the partitions it has completed have not failed, and have handed out all that
their stores gave for it; once it has ended without an error, it has completed all partitions it opened but
those that failed. Its commit then has exactly the stores of completed partitions commit, each once and by the
receipt it gave. Where partitions keep maps, what a commit removes was handed out, and not written since the
take. -/
theorem commit_removes_handed {order : List Nat → List Nat} (horder : ∀ indices, (order indices).Perm indices)
    (htake : cluster.takeIn order = (.ok (read, receipts), opened))
    (hrun : Consumed read opened answers current last) :
    let taken := (cluster.opening Store.take order).1
    let scheme := cluster.topology.scheme
    let completed := current.merge.completed
    let after := (last.commit receipts current).2.world
    (∀ index ∈ completed, index ∉ current.merge.failed) ∧
    (∀ index ∈ completed, ∃ entries, (index, .ofEntries entries) ∈ feedsOf taken ∧
      ∀ entry ∈ entries, Handed cluster.function (feedsOf taken) answers index entry) ∧
    (none ∈ answers → (∀ error, some (.error error) ∉ answers) →
      ∀ source ∈ taken.sources, source.1 ∈ completed ↔ source.1 ∉ current.merge.failed) ∧
    (receipts = receiptsOf taken ∧
      ((committed receipts current).map Prod.fst).Nodup ∧
      (∀ index, index ∈ (committed receipts current).map Prod.fst ↔ index ∈ completed) ∧
      Commits scheme.clientAt? (committed receipts current)
        (releaseAll scheme (givenUp receipts current) last.world) after) ∧
    ∀ {f : MergeFunction σ} {held : Nat → μ → MapStore κ σ} {versions : ρ → List (κ × Nat)},
      TakesMaps f scheme.clientAt? held versions → (∀ index, (held index cluster.world).Reached f) →
      ∀ written : Nat → List (Entry κ σ),
      (∀ index, MapStore.Changed f (held index cluster.world) (written index) (held index last.world)) →
      ∀ index key, (held index after).slots[key]? = (held index last.world).slots[key]? ∨
        ∃ slot, (held index last.world).slots[key]? = some slot ∧ (held index after).slots[key]? = none ∧
          index ∈ completed ∧ (held index cluster.world).slots[key]? = some slot ∧
          (∀ entry ∈ written index, entry.key ≠ key) ∧
          Handed cluster.function (feedsOf taken) answers index slot.entry := by
  intro taken scheme completed after
  have hopened := TakeOf.of_ok horder htake
  obtain ⟨unhealthy, hmerge⟩ := hopened.merge
  obtain ⟨-, hstarted, hunderway⟩ := hrun.underway hmerge hopened.nodup
  rw [hopened.function] at hunderway
  rw [hopened.started] at hstarted
  refine ⟨?_, ?_, ?_, ⟨hopened.receipts, ?_, ?_, ?_⟩, ?_⟩
  · exact fun index hindex => (hunderway.handed_of_completed hindex).1
  · exact fun index hindex => (hunderway.handed_of_completed hindex).2
  · rintro hended hclean ⟨index, feed, receipt⟩ hsource
    have hindex : index ∈ (feedsOf taken).map Prod.fst :=
      List.mem_map_of_mem (mem_feedsOf.mpr ⟨receipt, hsource⟩)
    exact hunderway.mem_completed_iff hended hclean hindex
  · exact hopened.nodup_committed current
  · exact hopened.mem_committed_iff hunderway
  · exact hopened.commits hstarted last
  · intro f held versions hmaps hreached written hchanged index key
    exact hopened.slots_commit hstarted hunderway hmaps hreached hchanged index key

end Takes

/-- Three partitions that hold two entries each, one of which breaks off after the first that it sends. -/
def Trio.stocked : Cluster (Fleet (Node UInt64 Nat)) (List (UInt64 × Nat)) UInt64 Nat :=
  { Trio.cluster .healthy with
    world := .ofInitial fun name =>
      ⟨if name = "g|b" then { Faults.healthy with readAfter := some 1 } else .healthy,
        (MapStore.empty.upload Trio.function (.ofEntries [⟨1, 5, 7⟩, ⟨2, 5, 1⟩])).2⟩ }

theorem Trio.reached_stocked (index : Nat) :
    (Fleet.heldAt Trio.names index Trio.stocked.world).Reached Trio.function := by
  cases hname : Trio.names[index]? with
  | none =>
    rw [Fleet.heldAt, hname, Option.elim_none]
    exact .empty
  | some name =>
    have hheld : Fleet.heldAt Trio.names index Trio.stocked.world =
        (MapStore.empty.upload Trio.function (.ofEntries [⟨1, 5, 7⟩, ⟨2, 5, 1⟩])).2 := by
      simp [Trio.stocked, Fleet.heldAt_eq hname, Fleet.get, Fleet.ofInitial]
    rw [hheld]
    exact .upload .empty _

/-- A take of these partitions is polled three times. What its commit removes was handed out by then. -/
theorem commit_removes_handed_trio :
    let held : Nat → Fleet (Node UInt64 Nat) → MapStore UInt64 Nat := Fleet.heldAt Trio.names
    ∃ read receipts opened answers current, ∃ last : Cluster (Fleet (Node UInt64 Nat)) _ UInt64 Nat,
      Trio.stocked.takeIn id = (.ok (read, receipts), opened) ∧
      Consumed read opened answers current last ∧ answers.length = 3 ∧
      ∀ (index : Nat) (key : UInt64),
        (held index (last.commit receipts current).2.world).slots[key]? = (held index last.world).slots[key]? ∨
          ∃ slot feeds, (held index last.world).slots[key]? = some slot ∧ index ∈ current.merge.completed ∧
            Handed Trio.function feeds answers index slot.entry := by
  intro held
  have hmaps : TakesMaps Trio.function Trio.stocked.topology.scheme.clientAt? held id :=
    .ofNames Trio.nodup_names Trio.clientAt?_eq_member
  have hdead : Trio.stocked.isValidWithout Trio.stocked.topology Trio.stocked.topology.deadIndices = true := by
    decide +kernel
  have hvalid : Trio.stocked.isValidWithout Trio.stocked.topology
      (missing Trio.stocked.topology (Trio.stocked.opening Store.take id).1) = true := by
    decide +kernel
  obtain ⟨⟨read, receipts⟩, opened, htake⟩ := exists_takeIn hdead hvalid
  have hstart : Consumed read opened [] read opened := .opened
  have hrun := hstart.poll.poll.poll
  refine ⟨read, receipts, opened, _, _, _, htake, hrun, rfl, fun index key => ?_⟩
  obtain ⟨indices, hopening⟩ := (TakeOf.of_ok (fun _ => List.Perm.refl _) htake).opening
  have hunchanged : ∀ index, MapStore.Changed Trio.function (held index Trio.stocked.world) []
      (held index opened.world) := by
    intro index
    rw [hopening.held_eq hmaps.taken index]
    exact .refl
  obtain ⟨-, -, -, -, hcommit⟩ := commit_removes_handed (fun _ => List.Perm.refl _) htake hrun
  have hslots := hcommit hmaps Trio.reached_stocked (fun _ => []) fun index => by
    rw [world_next, world_next, world_next]
    exact hunchanged index
  refine (hslots index key).imp_right ?_
  rintro ⟨slot, hslot, -, hindex, -, -, hhanded⟩
  exact ⟨slot, _, hslot, hindex, hhanded⟩

end ReplicatedStore.Cluster
