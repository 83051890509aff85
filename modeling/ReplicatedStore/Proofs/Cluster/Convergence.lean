import ReplicatedStore.Proofs.Cluster.Evolution
import ReplicatedStore.Proofs.Cluster.Fleet
/-!
# Convergence of a cluster

While uploads succeed, the partitions of a cluster hold together what one store would hold alone: each of
them only what was written, and some partition each entry written. So a download that misses no partition
yields what the one store holds.
-/

namespace ReplicatedStore

variable {μ ρ κ σ : Type} [Ord κ]

structure Spread (f : MergeFunction σ) (held : Nat → MapStore κ σ) (size : Nat)
    (written : List (Entry κ σ)) : Prop where
  keyed : ∀ index, (held index).Keyed
  made : ∀ index, (held index).MadeOf f written
  holds : ∀ entry ∈ written, ∃ index < size, (held index).Holds f entry

namespace Spread

variable [Std.TransOrd κ] {f : MergeFunction σ} {held : Nat → MapStore κ σ} {size : Nat}
  {written : List (Entry κ σ)}

theorem of_empty (h : ∀ index, held index = .empty) : Spread f held size [] := by
  refine ⟨fun index => ?_, fun index => ?_, by simp⟩
  · rw [h index]
    exact MapStore.keyed_empty
  · rw [h index]
    exact MapStore.madeOf_empty f []

variable [Std.LawfulEqOrd κ]

theorem upload {world : Nat → μ → MapStore κ σ} {before after : μ} {entries : List (Entry κ σ)}
    (hf : f.Lawful) (h : Spread f (fun index => world index before) size written)
    (hgrown : GrownBy f world (fun entry => entry ∈ entries) before after)
    (hholds : ∀ entry ∈ entries, ∃ index < size, (world index after).Holds f entry) :
    Spread f (fun index => world index after) size (written ++ entries) := by
  refine ⟨hgrown.keyed h.keyed, fun index => ?_, fun entry hentry => ?_⟩
  · obtain ⟨arriving, harriving, hafter⟩ := hgrown index
    have hmore : (world index before).MadeOf f (written ++ entries) :=
      (h.made index).mono fun entry hmem => List.mem_append_left _ hmem
    show (world index after).MadeOf f (written ++ entries)
    rw [hafter]
    exact hmore.putAll (h.keyed index) fun entry hmem => List.mem_append_right _ (harriving entry hmem)
  · rcases List.mem_append.mp hentry with hold | hnew
    · obtain ⟨index, hindex, hheld⟩ := h.holds entry hold
      exact ⟨index, hindex, hgrown.holds hf h.keyed hheld⟩
    · exact hholds entry hnew

section Merged

variable {indices : List Nat} {out : List (Entry κ σ)} (hf : f.Lawful) (h : Spread f held size written)
  (hall : ∀ index < size, index ∈ indices)
  (hout : Merge.FanIn f (indices.map fun index => (held index).entries) out)
include h hout

private theorem lookup?_eq_none {key : κ} (hkey : ∀ entry ∈ written, entry.key ≠ key) :
    Entry.lookup? key out = none := by
  have hnone : (indices.map fun index => (held index).entries).filterMap (Entry.lookup? key) = [] := by
    refine List.filterMap_eq_nil_iff.mpr fun list hlist => ?_
    obtain ⟨index, -, rfl⟩ := List.mem_map.mp hlist
    rw [(h.keyed index).lookup?_entries]
    by_contra hsome
    obtain ⟨copy, hcopy⟩ := Option.ne_none_iff_exists'.mp hsome
    obtain ⟨parts, hparts, hjoin⟩ := h.made index key copy hcopy
    cases parts with
    | nil => contradiction
    | cons first rest =>
      obtain ⟨hmem, hfirst⟩ := hparts first (List.mem_cons_self ..)
      exact hkey first hmem hfirst
  rw [hout.lookup, hnone]
  rfl

include hf hall

private theorem exists_lookup? {entry : Entry κ σ} (hentry : entry ∈ written) :
    ∃ found, Entry.lookup? entry.key out = some found ∧ found.Absorbs f entry ∧
      ∀ upper : Entry κ σ, (∀ other ∈ written, other.key = entry.key → upper.Absorbs f other) →
        upper.Absorbs f found := by
  obtain ⟨index, hindex, copy, hget, hcopy⟩ := h.holds entry hentry
  rw [← (h.keyed index).lookup?_entries] at hget
  obtain ⟨found, hfound, habsorbs, hleast⟩ :=
    hout.absorbs hf (List.mem_map_of_mem (hall index hindex)) hget
  refine ⟨found, hfound, habsorbs.trans hf.semilattice hcopy, fun upper hupper => hleast upper ?_⟩
  intro list hlist other hother
  obtain ⟨position, -, rfl⟩ := List.mem_map.mp hlist
  rw [(h.keyed position).lookup?_entries] at hother
  exact (h.made position).absorbed hf hother hupper

/-- Merged, the stores hold what one store would hold alone. -/
theorem merged_eq : out = (MapStore.putAll f .empty written).entries := by
  have hjoins := MapStore.joins_putAll_empty f written
  refine hout.ascending.eq_of_lookup? hjoins.ascending fun key => ?_
  rw [hjoins.lookup]
  have hkeys : ∀ entry ∈ written.filter (Entry.hasKey key), entry.key = key := fun entry hmem =>
    Entry.hasKey_iff.mp (List.mem_filter.mp hmem).2
  cases hparts : written.filter (Entry.hasKey key) with
  | nil =>
    refine h.lookup?_eq_none hout fun entry hmem hkey => ?_
    have hpart := List.mem_filter.mpr ⟨hmem, Entry.hasKey_iff.mpr hkey⟩
    rw [hparts] at hpart
    contradiction
  | cons first rest =>
    have hfirst : first ∈ written.filter (Entry.hasKey key) := hparts ▸ List.mem_cons_self ..
    obtain ⟨found, hfound, -, hleast⟩ := h.exists_lookup? hf hall hout (List.mem_filter.mp hfirst).1
    rw [hkeys first hfirst] at hfound hleast
    have hjoin : Entry.joined f (first :: rest) = some (Entry.mergeAll f first rest) := rfl
    obtain ⟨habsorbs, hjoinLeast⟩ := Entry.absorbs_joined hf.semilattice (hparts ▸ hkeys) hjoin
    rw [hfound, hjoin]
    refine congrArg some (Entry.Absorbs.antisymm hf.semilattice (hjoinLeast found ?_) (hleast _ ?_))
    · intro entry hmem
      have hentry := List.mem_filter.mp (hparts ▸ hmem : entry ∈ written.filter (Entry.hasKey key))
      obtain ⟨same, hsame, hentryAbsorbed, -⟩ := h.exists_lookup? hf hall hout hentry.1
      rw [Entry.hasKey_iff.mp hentry.2, hfound] at hsame
      cases hsame
      exact hentryAbsorbed
    · intro entry hmem hkey
      have hentry := List.mem_filter.mpr ⟨hmem, Entry.hasKey_iff.mpr hkey⟩
      exact habsorbs entry (hparts ▸ hentry)

end Merged

end Spread

namespace Cluster

/-- A run of uploads to a cluster, all of which succeeded, with the store that took them alone. Between two
uploads anything may happen that keeps what partitions hold: they may die, fail and come back. -/
inductive Mirrored [Fingerprint κ] (scheme : PartitionScheme (Store μ ρ κ σ)) (f : MergeFunction σ)
    (held : Nat → μ → MapStore κ σ) : MapStore κ σ → Cluster μ ρ κ σ → Prop
  | start {cluster : Cluster μ ρ κ σ} (hfollows : cluster.membership.Follows scheme)
    (hfunction : cluster.function = f) (hempty : ∀ index, held index cluster.world = .empty) :
    Mirrored scheme f held .empty cluster
  | upload {single : MapStore κ σ} {before after : Cluster μ ρ κ σ} {interleaving : Interleaving}
    {source : Feed κ σ} (h : Mirrored scheme f held single before)
    (hupload : before.uploadWith interleaving source = (.ok (), after)) :
    Mirrored scheme f held (single.upload f source).2 after
  | beside {single : MapStore κ σ} {before after : Cluster μ ρ κ σ}
    (h : Mirrored scheme f held single before) (hfollows : after.membership.Follows scheme)
    (hfunction : after.function = before.function)
    (hheld : ∀ index, held index after.world = held index before.world) :
    Mirrored scheme f held single after

variable [Fingerprint κ] {f : MergeFunction σ} {held : Nat → μ → MapStore κ σ}
  {groups : List PartitionGroup} {client : Partition → Option (Store μ ρ κ σ)}
  {hash : PartitionId → UInt32} {scheme : PartitionScheme (Store μ ρ κ σ)} {single : MapStore κ σ}
  {cluster : Cluster μ ρ κ σ}

theorem Mirrored.restarted (h : Mirrored scheme f held single cluster)
    (statistics : ClusterStatistics) :
    Mirrored scheme f held single { cluster with membership := .start scheme statistics } :=
  .beside h ⟨_, rfl⟩ rfl fun _ => rfl

variable [Std.TransOrd κ] [Std.LawfulEqOrd κ]

/-- While uploads succeed, partitions hold together what the single store holds alone. -/
private theorem Mirrored.spread (hscheme : PartitionScheme.create groups client hash = .ok scheme)
    (hf : f.Lawful) (hmaps : KeepsMaps f scheme.clientAt? held)
    (h : Mirrored scheme f held single cluster) :
    cluster.membership.Follows scheme ∧ cluster.function = f ∧
      ∃ written, single = .putAll f .empty written ∧
        Spread f (fun index => held index cluster.world) scheme.size written := by
  induction h with
  | start hfollows hfunction hempty =>
    exact ⟨hfollows, hfunction, [], rfl, .of_empty hempty⟩
  | @upload single before after interleaving source _ hupload ih =>
    obtain ⟨hfollows, hfunction, written, rfl, hspread⟩ := ih
    have hevolved : Evolved scheme f held before after := by
      have hafter : (before.uploadWith interleaving source).2 = after := by rw [hupload]
      exact hafter ▸ evolved_uploadWith hmaps hfollows interleaving source
    obtain rfl := scheme_of_follows hfollows
    obtain ⟨alive, htopology⟩ := hfollows
    obtain ⟨entries, failed, rfl, hreplicated⟩ :=
      replicated_of_ok hf hmaps hspread.keyed hscheme htopology hupload
    obtain ⟨hwell, rfl, -⟩ := PartitionScheme.wellFormed_of_create hscheme
    refine ⟨hevolved.follows, hevolved.function.trans hfunction, written ++ entries, ?_, ?_⟩
    · simp only [MapStore.upload, Feed.collect_ofEntries, MapStore.putAll, List.foldl_append]
    · exact hspread.upload hf hreplicated.grown fun entry hentry =>
        hreplicated.exists_holds hwell hentry
  | beside _ hfollows hfunction hheld ih =>
    obtain ⟨-, hbefore, written, rfl, hspread⟩ := ih
    refine ⟨hfollows, hfunction.trans hbefore, written, rfl, ?_⟩
    simp only [hheld]
    exact hspread

/-- After uploads that succeeded, a download that reads all partitions to their end yields what a single
store holds that took the same uploads in the same order. -/
theorem yields_of_mirrored (hscheme : PartitionScheme.create groups client hash = .ok scheme)
    (hf : f.Lawful) (hmaps : KeepsMaps f scheme.clientAt? held)
    (h : Mirrored scheme f held single cluster) {order : List Nat → List Nat}
    (horder : ∀ indices, (order indices).Perm indices) (hwhole : cluster.ReadsWhole order) :
    ∃ read after, cluster.downloadIn order 0 = (.ok read, after) ∧
      Yields read after (single.entries.map .ok) := by
  obtain ⟨hfollows, hfunction, written, rfl, hspread⟩ := h.spread hscheme hf hmaps
  obtain rfl := scheme_of_follows hfollows
  obtain ⟨hwell, -, -⟩ := PartitionScheme.wellFormed_of_create hscheme
  obtain ⟨read, after, out, indices, hopen, hall, hfanIn, hyields⟩ :=
    hwhole.yields hwell hf hmaps hspread.keyed horder
  rw [hfunction] at hfanIn
  refine ⟨read, after, hopen, ?_⟩
  rw [← hspread.merged_eq hf hall hfanIn]
  exact hyields

/-- Three partitions, one of which refuses uploads but comes back after each of them. -/
theorem yields_of_mirrored_trio :
    ∃ cluster read after, Mirrored Trio.scheme Trio.function (Fleet.heldAt Trio.names)
        (.putAll Trio.function .empty [⟨2, 5, 7⟩, ⟨1, 6, 3⟩, ⟨2, 6, 9⟩]) cluster ∧
      cluster.downloadIn id 0 = (.ok read, after) ∧ Yields read after [.ok ⟨1, 6, 3⟩, .ok ⟨2, 6, 9⟩] := by
  let start := Trio.cluster { Faults.healthy with upload := true }
  let first := (start.uploadWith .patient (.ofEntries [⟨2, 5, 7⟩])).2
  let revived := { first with membership := .start Trio.scheme .zero }
  let second := (revived.uploadWith .patient (.ofEntries [⟨1, 6, 3⟩, ⟨2, 6, 9⟩])).2
  let whole := { second with membership := .start Trio.scheme .zero }
  have hfirst := eq_ok_of_isOk
    (by decide +kernel : (start.uploadWith .patient (.ofEntries [⟨2, 5, 7⟩])).1.isOk = true)
  have hsecond := eq_ok_of_isOk (by decide +kernel :
    (revived.uploadWith .patient (.ofEntries [⟨1, 6, 3⟩, ⟨2, 6, 9⟩])).1.isOk = true)
  have hstart : Mirrored Trio.scheme Trio.function (Fleet.heldAt Trio.names) .empty start :=
    .start ⟨_, rfl⟩ rfl (Trio.heldAt_eq_empty _)
  have hrevived : Mirrored Trio.scheme Trio.function (Fleet.heldAt Trio.names) _ revived :=
    (hstart.upload hfirst).restarted .zero
  have hrun : Mirrored Trio.scheme Trio.function (Fleet.heldAt Trio.names) _ whole :=
    (hrevived.upload hsecond).restarted .zero
  have hwhole : whole.ReadsWhole id := by
    constructor <;> decide +kernel
  obtain ⟨read, after, hopen, hyields⟩ := yields_of_mirrored Trio.create_eq Trio.lawful Trio.keepsMaps hrun
    (fun indices => .refl indices) hwhole
  exact ⟨whole, read, after, hrun, hopen, hyields⟩

end Cluster

end ReplicatedStore
