import ReplicatedStore.Proofs.Cluster.Durability
import ReplicatedStore.Proofs.Store.Growth
/-!
# Partitions that keep maps

Each partition of a cluster may be a store in memory, reached in some way or other. What it holds then
grows with every upload to a cluster, whether that succeeds or not, and after one that succeeded each
entry is held by every partition of its replica sets that has not failed.
-/

namespace ReplicatedStore

variable {μ ρ κ σ : Type} [Ord κ]

def DeliversFrom (f : MergeFunction σ) (store : MapStore κ σ) (horizon : UInt64) (feed : Feed κ σ) : Prop :=
  feed.delivered <+: store.since f horizon ∧
    (feed.fails = false → feed.delivered = store.since f horizon)

/-- The store of each partition keeps a map of its own. An upload merges all it was fed, or nothing if it
fails, or all before it fails; a download reads all, unless it fails on its way. No other request but a
commit changes what is held. -/
structure KeepsMaps (f : MergeFunction σ) (client : Nat → Option (Store μ ρ κ σ))
    (held : Nat → μ → MapStore κ σ) : Prop where
  uploaded : ∀ {index store feed before after}, client index = some store →
    store.upload feed before = (.ok (), after) →
    ∃ entries, feed = .ofEntries entries ∧
      held index after = (held index before).putAll f entries
  refused : ∀ {index store feed before cause after}, client index = some store →
    store.upload feed before = (.error cause, after) →
    held index after = held index before ∨
      held index after = (held index before).putAll f feed.delivered
  apart : ∀ {index other store feed before answer after}, client index = some store →
    store.upload feed before = (answer, after) → other ≠ index → held other after = held other before
  delivers : ∀ {index store horizon before feed after}, client index = some store →
    store.download horizon before = (.ok feed, after) →
    DeliversFrom f (held index before) horizon feed
  downloaded : ∀ {index other store horizon before answer after}, client index = some store →
    store.download horizon before = (answer, after) → held other after = held other before
  taken : ∀ {index other store before answer after}, client index = some store →
    store.take before = (answer, after) → held other after = held other before
  released : ∀ {index other store receipt before}, client index = some store →
    held other (store.release receipt before) = held other before
  pinged : ∀ {index other store before answer after}, client index = some store →
    store.ping before = (answer, after) → held other after = held other before

/-- Partitions hold what they held, with some entries merged into it. -/
def GrownBy (f : MergeFunction σ) (held : Nat → μ → MapStore κ σ) (written : Entry κ σ → Prop)
    (before after : μ) : Prop :=
  ∀ index, ∃ arriving, (∀ entry ∈ arriving, written entry) ∧
    held index after = (held index before).putAll f arriving

namespace GrownBy

variable {f : MergeFunction σ} {held : Nat → μ → MapStore κ σ} {written : Entry κ σ → Prop}
  {before between after : μ}

theorem of_eq (h : ∀ index, held index after = held index before) :
    GrownBy f held written before after :=
  fun index => ⟨[], by simp, h index⟩

theorem mono {more : Entry κ σ → Prop} (h : GrownBy f held written before after)
    (hmore : ∀ entry, written entry → more entry) : GrownBy f held more before after := by
  intro index
  obtain ⟨arriving, harriving, hafter⟩ := h index
  exact ⟨arriving, fun entry hmem => hmore entry (harriving entry hmem), hafter⟩

theorem trans (hfirst : GrownBy f held written before between)
    (hsecond : GrownBy f held written between after) : GrownBy f held written before after := by
  intro index
  obtain ⟨first, hfirst, hbetween⟩ := hfirst index
  obtain ⟨second, hsecond, hafter⟩ := hsecond index
  refine ⟨first ++ second, ?_, ?_⟩
  · intro entry hmem
    rcases List.mem_append.mp hmem with hold | hnew
    · exact hfirst entry hold
    · exact hsecond entry hnew
  · rw [hafter, hbetween]
    simp only [MapStore.putAll, List.foldl_append]

variable [Std.TransOrd κ] [Std.LawfulEqOrd κ]

theorem keyed (h : GrownBy f held written before after) (hkeyed : ∀ index, (held index before).Keyed) :
    ∀ index, (held index after).Keyed := by
  intro index
  obtain ⟨arriving, -, hafter⟩ := h index
  rw [hafter]
  exact (hkeyed index).putAll f arriving

theorem holds (hf : f.Lawful) (h : GrownBy f held written before after)
    (hkeyed : ∀ index, (held index before).Keyed) {index : Nat} {entry : Entry κ σ}
    (hholds : (held index before).Holds f entry) : (held index after).Holds f entry := by
  obtain ⟨arriving, -, hafter⟩ := h index
  rw [hafter]
  exact hholds.putAll hf (hkeyed index) arriving

end GrownBy

section Sessions

variable {f : MergeFunction σ} {client : Nat → Option (Store μ ρ κ σ)}
  {held : Nat → μ → MapStore κ σ} {uploads : List (SessionUpload κ σ)} {before after : μ}

theorem KeepsMaps.grown_of_upload (hmaps : KeepsMaps f client held) {written : Entry κ σ → Prop}
    {index : Nat} {store : Store μ ρ κ σ} {feed : Feed κ σ} {answer : Except StoreError Unit}
    (hclient : client index = some store) (h : store.upload feed before = (answer, after))
    (hwritten : ∀ entry ∈ feed.delivered, written entry) : GrownBy f held written before after := by
  intro other
  by_cases hother : other = index
  · subst hother
    cases answer with
    | ok =>
      obtain ⟨entries, rfl, hheld⟩ := hmaps.uploaded hclient h
      rw [Feed.delivered_ofEntries] at hwritten
      exact ⟨entries, hwritten, hheld⟩
    | error cause =>
      rcases hmaps.refused hclient h with hheld | hheld
      · exact ⟨[], by simp, hheld⟩
      · exact ⟨feed.delivered, hwritten, hheld⟩
  · exact ⟨[], by simp, hmaps.apart hclient h hother⟩

theorem SessionRun.grown (hmaps : KeepsMaps f client held) {written : Entry κ σ → Prop}
    (hrun : SessionRun client uploads before after)
    (hwritten : ∀ upload ∈ uploads, ∀ entry ∈ upload.feed.delivered, written entry) :
    GrownBy f held written before after := by
  induction hrun with
  | nil world => exact .of_eq fun _ => rfl
  | cons hclient hupload hrest ih =>
    have hfirst := hmaps.grown_of_upload hclient hupload (hwritten _ (List.mem_cons_self ..))
    exact hfirst.trans (ih fun upload hmem => hwritten upload (List.mem_cons_of_mem _ hmem))

variable [Std.TransOrd κ] [Std.LawfulEqOrd κ]

/-- What a store said it took is held after the whole run. -/
theorem SessionRun.holds (hf : f.Lawful) (hmaps : KeepsMaps f client held)
    (hrun : SessionRun client uploads before after) (hkeyed : ∀ index, (held index before).Keyed)
    {upload : SessionUpload κ σ} (hmem : upload ∈ uploads) (hok : upload.answer = .ok ())
    {entry : Entry κ σ} (hentry : entry ∈ upload.feed.delivered) :
    (held upload.index after).Holds f entry := by
  induction hrun with
  | nil world => contradiction
  | @cons first rest before between after store hclient hupload hrest ih =>
    have hfirst : GrownBy f held (fun _ => True) before between :=
      hmaps.grown_of_upload hclient hupload fun _ _ => trivial
    rcases List.mem_cons.mp hmem with rfl | hlater
    · have hgrown : GrownBy f held (fun _ => True) between after :=
        hrest.grown hmaps fun _ _ _ _ => trivial
      refine hgrown.holds hf (hfirst.keyed hkeyed) ?_
      rw [hok] at hupload
      obtain ⟨entries, hfeed, hheld⟩ := hmaps.uploaded hclient hupload
      rw [hfeed, Feed.delivered_ofEntries] at hentry
      rw [hheld]
      exact MapStore.holds_putAll hf hentry (hkeyed _)
    · exact ih (hfirst.keyed hkeyed) hlater

end Sessions

namespace Cluster

variable [Fingerprint κ] {f : MergeFunction σ} {held : Nat → μ → MapStore κ σ}
  {cluster after : Cluster μ ρ κ σ}

structure Replicated (f : MergeFunction σ) (held : Nat → μ → MapStore κ σ) (cluster after : Cluster μ ρ κ σ)
    (hash : PartitionId → UInt32) (alive : PartitionId → Bool) (groups : List PartitionGroup)
    (entries : List (Entry κ σ)) (failed : IndexSet) : Prop where
  grown : GrownBy f held (fun entry => entry ∈ entries) cluster.world after.world
  active : ∃ group ∈ groups, group.active = true
  quorum : ∀ entry ∈ entries, ∀ group ∈ groups, group.active = true →
    let replicas := cluster.topology.scheme.replicaSet hash alive group (Bucket.ofHash (hash32 entry.key))
    replicas ≠ [] ∧ cluster.options.uploadQuorum.required replicas.length ≤
      replicas.countP fun index => !failed.contains index
  holds : ∀ entry ∈ entries, ∀ group ∈ groups, group.active = true → ∀ index ∈
    cluster.topology.scheme.replicaSet hash alive group (Bucket.ofHash (hash32 entry.key)),
    index ∉ failed → (held index after.world).Holds f entry

theorem Replicated.exists_holds {hash : PartitionId → UInt32} {alive : PartitionId → Bool}
    {entries : List (Entry κ σ)} {failed : IndexSet}
    (hwell : cluster.topology.scheme.WellFormed hash)
    (h : Replicated f held cluster after hash alive cluster.topology.scheme.groups entries failed)
    {entry : Entry κ σ} (hentry : entry ∈ entries) :
    ∃ index < cluster.topology.scheme.size, (held index after.world).Holds f entry := by
  obtain ⟨group, hgroup, hactive⟩ := h.active
  obtain ⟨hnonempty, hcount⟩ := h.quorum entry hentry group hgroup hactive
  have hsome : 0 < cluster.options.uploadQuorum.required (cluster.topology.scheme.replicaSet hash alive
      group (Bucket.ofHash (hash32 entry.key))).length :=
    Quorum.required_pos _ (List.length_pos_iff.mpr hnonempty)
  obtain ⟨index, hindex, hhealthy⟩ := List.countP_pos_iff.mp (Nat.lt_of_lt_of_le hsome hcount)
  rw [Bool.not_eq_true', IndexSet.contains_eq_false_iff] at hhealthy
  exact ⟨index, hwell.lt_size hgroup hindex, h.holds entry hentry group hgroup hactive index hindex hhealthy⟩

variable [Std.TransOrd κ] [Std.LawfulEqOrd κ]

theorem replicated_of_ok {groups : List PartitionGroup} {client : Partition → Option (Store μ ρ κ σ)}
    {hash : PartitionId → UInt32} {scheme : PartitionScheme (Store μ ρ κ σ)} {alive : List PartitionId}
    {interleaving : Interleaving} {source : Feed κ σ} (hf : f.Lawful)
    (hmaps : KeepsMaps f scheme.clientAt? held) (hkeyed : ∀ index, (held index cluster.world).Keyed)
    (hscheme : PartitionScheme.create groups client hash = .ok scheme)
    (htopology : cluster.topology = .ofAlive scheme alive)
    (h : cluster.uploadWith interleaving source = (.ok (), after)) :
    ∃ entries failed, source = .ofEntries entries ∧
      Replicated f held cluster after hash alive.contains groups entries failed := by
  obtain ⟨sharder, hsharder⟩ := exists_sharder_of_ok h
  obtain ⟨entries, failed, uploads, rfl, huploaded⟩ := uploaded_of_ok hsharder h
  obtain ⟨hwell, rfl, -⟩ := PartitionScheme.wellFormed_of_create hscheme
  have hstarted : cluster.topology.scheme = scheme := by
    rw [htopology]
    rfl
  have hrun := huploaded.run
  rw [hstarted] at hrun
  rw [htopology] at hsharder
  obtain ⟨hgroups, hnonempty, halive⟩ := PartitionScheme.createSharder_eq_some hwell hsharder
  have hpart : ∀ group ∈ scheme.groups, group.active = true →
      (GroupSharder.ofGroup scheme.identities hash group).adapted alive.contains ∈ sharder.groups := by
    intro group hgroup hactive
    rw [hgroups]
    exact List.mem_map_of_mem (List.mem_filter.mpr ⟨hgroup, hactive⟩)
  refine ⟨entries, failed, rfl, ⟨?_, ?_, ?_, ?_⟩⟩
  · exact hrun.grown hmaps fun upload hmem entry hentry =>
      huploaded.fed upload hmem entry (Feed.mem_of_mem_delivered hentry)
  · rw [hgroups] at hnonempty
    obtain ⟨part, hmem⟩ := List.exists_mem_of_ne_nil _ hnonempty
    obtain ⟨group, hgroup, -⟩ := List.mem_map.mp hmem
    obtain ⟨hmem, hactive⟩ := List.mem_filter.mp hgroup
    exact ⟨group, hmem, hactive⟩
  · intro entry hentry group hgroup hactive
    rw [hstarted]
    refine ⟨?_, of_decide_eq_true (huploaded.satisfied entry hentry _ (hpart group hgroup hactive))⟩
    exact GroupSharder.replicas_ne_nil _ _ _ _ _ (hwell.replicas_pos group hgroup)
      (halive group hgroup hactive)
  · intro entry hentry group hgroup hactive index hindex hhealthy
    rw [hstarted] at hindex
    have htarget : sharder.targets index entry = true :=
      List.contains_iff_mem.mpr (SchemeSharder.mem_replicas.mpr ⟨_, hpart group hgroup hactive, hindex⟩)
    have hsessions := huploaded.healthy index hhealthy (List.any_eq_true.mpr ⟨entry, hentry, htarget⟩)
    have hmem := List.mem_of_mem_filter (hsessions ▸ List.mem_singleton_self _)
    refine hrun.holds hf hmaps hkeyed hmem rfl ?_
    rw [Feed.delivered_ofEntries]
    exact List.mem_filter.mpr ⟨hentry, htarget⟩

end Cluster

end ReplicatedStore
