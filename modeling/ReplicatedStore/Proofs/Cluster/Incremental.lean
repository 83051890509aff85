import ReplicatedStore.Proofs.Cluster.Evolution
import ReplicatedStore.Proofs.Cluster.Fleet
import ReplicatedStore.Proofs.Entry.Covering
/-!
# Incremental downloads

States that carry the time of their latest change can be read from a horizon on. A store leaves out what is
older on either of its two times, before the copies of a key are merged, so a read may see some copies of a
key and not others. Still nothing is missed: what was read before the horizon's uploads, merged with what is
read since, is all that there is.
-/

namespace ReplicatedStore

variable {μ ρ κ σ : Type} {combine : σ → σ → σ} {horizon : UInt64}

namespace Entry

def Since (horizon : UInt64) (entry : Entry κ (Stamped σ)) : Prop :=
  horizon ≤ entry.timestamp ∧ horizon ≤ entry.state.timestamp

instance (horizon : UInt64) (entry : Entry κ (Stamped σ)) : Decidable (entry.Since horizon) :=
  inferInstanceAs (Decidable (_ ∧ _))

theorem extract_stamped (combine : σ → σ → σ) (horizon : UInt64) (entry : Entry κ (Stamped σ)) :
    entry.extract (.stamped combine) horizon = if entry.Since horizon then some entry else none := by
  unfold extract
  by_cases hentry : entry.timestamp < horizon
  · have hnot : ¬entry.Since horizon := fun h => UInt64.not_lt.mpr h.1 hentry
    rw [if_pos hentry, if_neg hnot]
  · rw [if_neg hentry]
    by_cases hstate : entry.state.timestamp < horizon
    · have hnot : ¬entry.Since horizon := fun h => UInt64.not_lt.mpr h.2 hstate
      have hnone : (MergeFunction.stamped combine).extract entry.state horizon = none := if_pos hstate
      rw [hnone, if_neg hnot, Option.map_none]
    · have hboth : entry.Since horizon := ⟨UInt64.not_lt.mp hentry, UInt64.not_lt.mp hstate⟩
      have hsome : (MergeFunction.stamped combine).extract entry.state horizon = some entry.state :=
        if_neg hstate
      rw [hsome, if_pos hboth, Option.map_some]

theorem le_max_timestamp {a b : UInt64} (h : horizon ≤ a ∨ horizon ≤ b) : horizon ≤ max a b := by
  rw [UInt64.le_iff_toNat_le, toNat_max]
  rw [UInt64.le_iff_toNat_le, UInt64.le_iff_toNat_le] at h
  omega

theorem since_merge (combine : σ → σ → σ) {a b : Entry κ (Stamped σ)}
    (h : a.Since horizon ∨ b.Since horizon) : (a.merge (.stamped combine) b).Since horizon :=
  ⟨le_max_timestamp (h.imp And.left And.left), le_max_timestamp (h.imp And.right And.right)⟩

end Entry

variable [Ord κ]

namespace MapStore

theorem mem_since {store : MapStore κ (Stamped σ)} {entry : Entry κ (Stamped σ)} :
    entry ∈ store.since (.stamped combine) horizon ↔ entry ∈ store.entries ∧ entry.Since horizon := by
  simp only [since, List.mem_filterMap, Entry.extract_stamped]
  constructor
  · intro h
    obtain ⟨other, hmem, hextract⟩ := h
    split at hextract
    next hsince =>
      cases hextract
      exact ⟨hmem, hsince⟩
    next => contradiction
  · intro h
    exact ⟨entry, h.1, if_pos h.2⟩

variable [Std.TransOrd κ] [Std.LawfulEqOrd κ]

theorem get?_putAll_since {store : MapStore κ (Stamped σ)} (hkeyed : store.Keyed)
    {arriving : List (Entry κ (Stamped σ))} (harriving : ∀ entry ∈ arriving, entry.Since horizon)
    {key : κ} {found : Entry κ (Stamped σ)}
    (hfound : (store.putAll (.stamped combine) arriving).get? key = some found) :
    store.get? key = some found ∨ found.Since horizon := by
  unfold putAll at hfound
  induction arriving generalizing store with
  | nil => exact .inl hfound
  | cons first rest ih =>
    have hrest : ∀ entry ∈ rest, entry.Since horizon := fun entry hmem =>
      harriving entry (List.mem_cons_of_mem _ hmem)
    have hfirst : first.Since horizon := harriving first (List.mem_cons_self ..)
    rcases ih (hkeyed.put _ first) hrest hfound with hput | hsince
    · by_cases hkey : first.key = key
      · subst hkey
        rw [get?_put_self _ hkeyed, Option.some_inj] at hput
        right
        rw [← hput]
        cases store.get? first.key with
        | none => exact hfirst
        | some held => exact Entry.since_merge combine (.inr hfirst)
      · rw [get?_put_of_ne _ hkeyed hkey] at hput
        exact .inl hput
    · exact .inr hsince

end MapStore

variable [Std.TransOrd κ] [Std.LawfulEqOrd κ]

section Stores

variable {held : Nat → μ → MapStore κ (Stamped σ)} {first last : μ}

private theorem GrownBy.mem_or_mem_since (hkeyed : ∀ index, (held index first).Keyed)
    (hgrown : GrownBy (.stamped combine) held (Entry.Since horizon) first last) {index : Nat}
    {entry : Entry κ (Stamped σ)} (hentry : entry ∈ (held index last).entries) :
    entry ∈ (held index first).entries ∨ entry ∈ (held index last).since (.stamped combine) horizon := by
  have hget := (hgrown.keyed hkeyed index).mem_entries.mp hentry
  obtain ⟨arriving, harriving, hlast⟩ := hgrown index
  rw [hlast] at hget
  rcases MapStore.get?_putAll_since (hkeyed index) harriving hget with hbefore | hsince
  · exact .inl ((hkeyed index).mem_entries.mpr hbefore)
  · exact .inr (MapStore.mem_since.mpr ⟨hentry, hsince⟩)

private theorem GrownBy.exists_absorbs {f : MergeFunction (Stamped σ)} {written : Entry κ (Stamped σ) → Prop}
    (hf : f.Lawful) (hkeyed : ∀ index, (held index first).Keyed)
    (hgrown : GrownBy f held written first last) {index : Nat} {entry : Entry κ (Stamped σ)}
    (hentry : entry ∈ (held index first).entries) :
    ∃ found ∈ (held index last).entries, found.Absorbs f entry := by
  have hholds : (held index first).Holds f entry :=
    ⟨entry, (hkeyed index).mem_entries.mp hentry, .refl hf.semilattice entry⟩
  obtain ⟨found, hget, habsorbs⟩ := hgrown.holds hf hkeyed hholds
  rw [← habsorbs.1] at hget
  exact ⟨found, (hgrown.keyed hkeyed index).mem_entries.mpr hget, habsorbs⟩

/-- Stores that have only taken entries since the horizon: what they held, merged with what they have since
the horizon, is what they hold. -/
theorem GrownBy.fanIn_since {size : Nat} {before between after : List Nat}
    {whole recent current : List (Entry κ (Stamped σ))} (hf : (MergeFunction.stamped combine).Lawful)
    (hkeyed : ∀ index, (held index first).Keyed)
    (hgrown : GrownBy (.stamped combine) held (Entry.Since horizon) first last)
    (hbefore : ∀ index, index ∈ before ↔ index < size) (hbetween : ∀ index, index ∈ between ↔ index < size)
    (hafter : ∀ index, index ∈ after ↔ index < size)
    (hwhole : Merge.FanIn (.stamped combine) (before.map fun index => (held index first).entries) whole)
    (hrecent : Merge.FanIn (.stamped combine)
      (between.map fun index => (held index last).since (.stamped combine) horizon) recent)
    (hcurrent : Merge.FanIn (.stamped combine) (after.map fun index => (held index last).entries) current) :
    Merge.FanIn (.stamped combine) [whole, recent] current := by
  have hlater := hgrown.keyed hkeyed
  have hlists : ∀ list ∈ [whole, recent], Entry.Ascending list := by
    simp [hwhole.ascending, hrecent.ascending]
  have hmerged := Merge.FanIn.ofAscending (.stamped combine) hlists
  suffices heq : current = (MapStore.putAll (.stamped combine) .empty [whole, recent].flatten).entries by
    rw [heq]
    exact hmerged
  have hwhole := hwhole.joins (by simp [fun index => (hkeyed index).ascending_entries])
  have hrecent := hrecent.joins (by simp [fun index => (hlater index).ascending_since])
  have hcurrent := hcurrent.joins (by simp [fun index => (hlater index).ascending_entries])
  have hmerged := hmerged.joins hlists
  have hcovers := hcurrent.covers hf.semilattice
  have hparts := hmerged.covers hf.semilattice
  simp only [← List.flatMap_def] at hwhole hrecent hcurrent hcovers
  apply hcurrent.eq_of_covers hf.semilattice hmerged
  · have hold : Entry.Covers (.stamped combine) current whole := by
      apply hwhole.least hf.semilattice hcurrent.ascending
      refine hcovers.trans hf.semilattice fun copy hcopy => ?_
      obtain ⟨index, hindex, hmem⟩ := List.mem_flatMap.mp hcopy
      obtain ⟨found, hfound, habsorbs⟩ := hgrown.exists_absorbs hf hkeyed hmem
      have hthere := (hafter index).mpr ((hbefore index).mp hindex)
      exact ⟨found, List.mem_flatMap.mpr ⟨index, hthere, hfound⟩, habsorbs⟩
    have hnew : Entry.Covers (.stamped combine) current recent := by
      apply hrecent.least hf.semilattice hcurrent.ascending
      intro copy hcopy
      obtain ⟨index, hindex, hmem⟩ := List.mem_flatMap.mp hcopy
      have hthere := (hafter index).mpr ((hbetween index).mp hindex)
      exact hcovers copy (List.mem_flatMap.mpr ⟨index, hthere, (MapStore.mem_since.mp hmem).1⟩)
    intro part hpart
    simp only [List.flatten_cons, List.flatten_nil, List.append_nil, List.mem_append] at hpart
    exact hpart.elim (hold part) (hnew part)
  · have hold := Entry.Covers.trans hf.semilattice (fun part hpart => hparts part (by simp [hpart]))
      (hwhole.covers hf.semilattice)
    have hnew := Entry.Covers.trans hf.semilattice (fun part hpart => hparts part (by simp [hpart]))
      (hrecent.covers hf.semilattice)
    intro copy hcopy
    obtain ⟨index, hindex, hmem⟩ := List.mem_flatMap.mp hcopy
    have hsize := (hafter index).mp hindex
    rcases hgrown.mem_or_mem_since hkeyed hmem with hkept | harrived
    · exact hold copy (List.mem_flatMap.mpr ⟨index, (hbefore index).mpr hsize, hkept⟩)
    · exact hnew copy (List.mem_flatMap.mpr ⟨index, (hbetween index).mpr hsize, harrived⟩)

end Stores

namespace Cluster

/-- A cluster goes on with its scheme, and its partitions hold what they held. -/
structure Keeps (scheme : PartitionScheme (Store μ ρ κ σ)) (held : Nat → μ → MapStore κ σ)
    (before after : Cluster μ ρ κ σ) : Prop where
  follows : after.membership.Follows scheme
  function : after.function = before.function
  held : ∀ index, held index after.world = held index before.world

omit [Std.TransOrd κ] [Std.LawfulEqOrd κ] in
theorem Keeps.restarted {held : Nat → μ → MapStore κ σ} {scheme : PartitionScheme (Store μ ρ κ σ)}
    (cluster : Cluster μ ρ κ σ) (statistics : ClusterStatistics) :
    Keeps scheme held cluster { cluster with membership := .start scheme statistics } :=
  ⟨⟨_, rfl⟩, rfl, fun _ => rfl⟩

/-- A download of a cluster from the horizon on is opened, and polled to its end it yields some entries. -/
def Downloads (cluster : Cluster μ ρ κ σ) (order : List Nat → List Nat) (horizon : UInt64)
    (entries : List (Entry κ σ)) : Prop :=
  ∃ read after, cluster.downloadIn order horizon = (.ok read, after) ∧ Yields read after (entries.map .ok)

/-- Uploads of entries since the horizon, one after the other, all of which succeeded. Between two of them
anything may happen that keeps what partitions hold: they may die, fail, be read and come back. -/
inductive Updated [Fingerprint κ] (scheme : PartitionScheme (Store μ ρ κ (Stamped σ)))
    (held : Nat → μ → MapStore κ (Stamped σ)) (horizon : UInt64) (start : Cluster μ ρ κ (Stamped σ)) :
    Cluster μ ρ κ (Stamped σ) → Prop
  | start : Updated scheme held horizon start start
  | upload {before after : Cluster μ ρ κ (Stamped σ)} {interleaving : Interleaving}
    {source : Feed κ (Stamped σ)} (h : Updated scheme held horizon start before)
    (hsince : ∀ entry ∈ source.delivered, entry.Since horizon)
    (hupload : before.uploadWith interleaving source = (.ok (), after)) :
    Updated scheme held horizon start after
  | beside {before after : Cluster μ ρ κ (Stamped σ)} (h : Updated scheme held horizon start before)
    (hkeeps : Keeps scheme held before after) : Updated scheme held horizon start after

variable [Fingerprint κ] {held : Nat → μ → MapStore κ (Stamped σ)} {groups : List PartitionGroup}
  {client : Partition → Option (Store μ ρ κ (Stamped σ))} {hash : PartitionId → UInt32}
  {scheme : PartitionScheme (Store μ ρ κ (Stamped σ))}
  {before updated between after : Cluster μ ρ κ (Stamped σ)}

private theorem Updated.grown (hscheme : PartitionScheme.create groups client hash = .ok scheme)
    (hf : (MergeFunction.stamped combine).Lawful)
    (hmaps : KeepsMaps (.stamped combine) scheme.clientAt? held)
    (hfollows : before.membership.Follows scheme) (hkeyed : ∀ index, (held index before.world).Keyed)
    (h : Updated scheme held horizon before updated) :
    updated.membership.Follows scheme ∧ updated.function = before.function ∧
      GrownBy (.stamped combine) held (Entry.Since horizon) before.world updated.world := by
  induction h with
  | start => exact ⟨hfollows, rfl, .of_eq fun _ => rfl⟩
  | @upload current after interleaving source _ hsince hupload ih =>
    obtain ⟨hfollows, hfunction, hgrown⟩ := ih
    have hevolved : Evolved scheme (.stamped combine) held current after := by
      have hafter : (current.uploadWith interleaving source).2 = after := by rw [hupload]
      rw [← hafter]
      exact evolved_uploadWith hmaps hfollows interleaving source
    obtain ⟨alive, htopology⟩ := hfollows
    obtain ⟨entries, failed, rfl, hreplicated⟩ :=
      replicated_of_ok hf hmaps (hgrown.keyed hkeyed) hscheme htopology hupload
    rw [Feed.delivered_ofEntries] at hsince
    exact ⟨hevolved.follows, hevolved.function.trans hfunction,
      hgrown.trans (hreplicated.grown.mono hsince)⟩
  | beside _ hkeeps ih =>
    obtain ⟨-, hfunction, hgrown⟩ := ih
    exact ⟨hkeeps.follows, hkeeps.function.trans hfunction, hgrown.trans (.of_eq hkeeps.held)⟩

omit [Fingerprint κ] in
private theorem ReadsSince.downloads {f : MergeFunction (Stamped σ)} {cluster : Cluster μ ρ κ (Stamped σ)}
    {order : List Nat → List Nat} (hscheme : PartitionScheme.create groups client hash = .ok scheme)
    (hmaps : KeepsMaps f scheme.clientAt? held) (hfollows : cluster.membership.Follows scheme)
    (hkeyed : ∀ index, (held index cluster.world).Keyed)
    (horder : ∀ indices, (order indices).Perm indices) (h : cluster.ReadsSince horizon order) :
    ∃ entries, ∃ indices : List Nat, cluster.Downloads order horizon entries ∧
      (∀ index, index ∈ indices ↔ index < scheme.size) ∧
      Merge.FanIn cluster.function (indices.map fun index => (held index cluster.world).since f horizon)
        entries := by
  obtain rfl := scheme_of_follows hfollows
  obtain ⟨hwell, -, -⟩ := PartitionScheme.wellFormed_of_create hscheme
  obtain ⟨read, after, entries, indices, hopen, hindices, hfanIn, hyields⟩ :=
    h.yields hwell hmaps hkeyed horder
  exact ⟨entries, indices, ⟨read, after, hopen, hyields⟩, hindices, hfanIn⟩

/-- What is downloaded before some uploads of entries since the horizon, merged key by key with what is
downloaded from the horizon on after them, is what is downloaded after them from the start. -/
theorem downloads_incremental (hscheme : PartitionScheme.create groups client hash = .ok scheme)
    (hassoc : ∀ a b c, combine (combine a b) c = combine a (combine b c))
    (hcomm : ∀ a b, combine a b = combine b a) (hidem : ∀ a, combine a a = a)
    (hmaps : KeepsMaps (.stamped combine) scheme.clientAt? held)
    (hfollows : before.membership.Follows scheme) (hfunction : before.function = .stamped combine)
    (hkeyed : ∀ index, (held index before.world).Keyed)
    (hupdated : Updated scheme held horizon before updated) (hbetween : Keeps scheme held updated between)
    (hafter : Keeps scheme held updated after) {first second third : List Nat → List Nat}
    (hfirst : ∀ indices, (first indices).Perm indices) (hsecond : ∀ indices, (second indices).Perm indices)
    (hthird : ∀ indices, (third indices).Perm indices) (hreadsBefore : before.ReadsSince 0 first)
    (hreadsBetween : between.ReadsSince horizon second) (hreadsAfter : after.ReadsSince 0 third) :
    ∃ whole recent current, before.Downloads first 0 whole ∧ between.Downloads second horizon recent ∧
      after.Downloads third 0 current ∧ Merge.FanIn (.stamped combine) [whole, recent] current := by
  have hf := MergeFunction.lawful_stamped hassoc hcomm hidem
  obtain ⟨-, hsame, hgrown⟩ := hupdated.grown hscheme hf hmaps hfollows hkeyed
  have hlater := hgrown.keyed hkeyed
  have hkeyedBetween : ∀ index, (held index between.world).Keyed := fun index => by
    rw [hbetween.held]
    exact hlater index
  have hkeyedAfter : ∀ index, (held index after.world).Keyed := fun index => by
    rw [hafter.held]
    exact hlater index
  obtain ⟨whole, indices, hwhole, hindices, hfanInWhole⟩ :=
    hreadsBefore.downloads hscheme hmaps hfollows hkeyed hfirst
  obtain ⟨recent, indicesRecent, hrecent, hindicesRecent, hfanInRecent⟩ :=
    hreadsBetween.downloads hscheme hmaps hbetween.follows hkeyedBetween hsecond
  obtain ⟨current, indicesCurrent, hcurrent, hindicesCurrent, hfanInCurrent⟩ :=
    hreadsAfter.downloads hscheme hmaps hafter.follows hkeyedAfter hthird
  rw [hfunction] at hfanInWhole
  rw [hbetween.function, hsame, hfunction] at hfanInRecent
  rw [hafter.function, hsame, hfunction] at hfanInCurrent
  simp only [MapStore.since_zero hf] at hfanInWhole hfanInCurrent
  simp only [hbetween.held] at hfanInRecent
  simp only [hafter.held] at hfanInCurrent
  exact ⟨whole, recent, current, hwhole, hrecent, hcurrent, hgrown.fanIn_since hf hkeyed hindices
    hindicesRecent hindicesCurrent hfanInWhole hfanInRecent hfanInCurrent⟩

namespace Trio

def stampedMax : MergeFunction (Stamped Nat) := .stamped max

def stampedClient (partition : Partition) :
    Option (Store (Fleet (Node UInt64 (Stamped Nat))) (List (UInt64 × Nat)) UInt64 (Stamped Nat)) :=
  some (Fleet.member (Node.requests stampedMax) partition.identity.name)

def stampedScheme :
    PartitionScheme (Store (Fleet (Node UInt64 (Stamped Nat))) (List (UInt64 × Nat)) UInt64 (Stamped Nat)) :=
  ⟨[group], group.partitions, stampedClient, [sharder]⟩

theorem keepsMaps_stamped : KeepsMaps stampedMax stampedScheme.clientAt? (Fleet.heldAt names) :=
  Fleet.keepsMaps nodup_names fun hstore => Fleet.exists_member (fun _ => rfl) hstore

/-- One of the partitions holds another copy than the others, and refuses uploads. -/
def diverged : Cluster (Fleet (Node UInt64 (Stamped Nat))) (List (UInt64 × Nat)) UInt64 (Stamped Nat) where
  membership := .start stampedScheme .zero
  function := stampedMax
  options := .standard
  world := .ofInitial fun name =>
    if name = "g|b" then ⟨{ Faults.healthy with upload := true }, .putAll stampedMax .empty [⟨1, 3, ⟨9, 4⟩⟩]⟩
    else ⟨.healthy, .putAll stampedMax .empty [⟨1, 2, ⟨2, 1⟩⟩, ⟨2, 2, ⟨2, 5⟩⟩]⟩

theorem keyed_diverged (index : Nat) : (Fleet.heldAt names index diverged.world).Keyed := by
  unfold Fleet.heldAt
  cases names[index]? with
  | none => exact MapStore.keyed_empty
  | some name =>
    simp only [Option.elim_some, Fleet.get, diverged, Fleet.ofInitial]
    simp only [Std.TreeMap.getD_emptyc]
    split
    · exact MapStore.keyed_empty.putAll _ _
    · exact MapStore.keyed_empty.putAll _ _

def refreshed : Cluster (Fleet (Node UInt64 (Stamped Nat))) (List (UInt64 × Nat)) UInt64 (Stamped Nat) :=
  { (diverged.uploadWith .patient (.ofEntries [⟨1, 6, ⟨7, 3⟩⟩])).2 with
    membership := .start stampedScheme .zero }

end Trio

/-- The partition that refused the upload holds a copy that is too old for the second download, and newer
than what the others held. -/
theorem downloads_incremental_trio :
    Updated Trio.stampedScheme (Fleet.heldAt Trio.names) 5 Trio.diverged Trio.refreshed ∧
      ∃ whole recent current, Trio.diverged.Downloads id 0 whole ∧ Trio.refreshed.Downloads id 5 recent ∧
        Trio.refreshed.Downloads id 0 current ∧ Merge.FanIn Trio.stampedMax [whole, recent] current := by
  have hupload := eq_ok_of_isOk (by decide +kernel :
    (Trio.diverged.uploadWith .patient (.ofEntries [⟨1, 6, ⟨7, 3⟩⟩])).1.isOk = true)
  have hsince : ∀ entry ∈ (Feed.ofEntries [⟨1, 6, ⟨7, 3⟩⟩] : Feed UInt64 (Stamped Nat)).delivered,
      entry.Since 5 := by decide
  have hupdated : Updated Trio.stampedScheme (Fleet.heldAt Trio.names) 5 Trio.diverged Trio.refreshed :=
    (Updated.start.upload hsince hupload).beside (.restarted _ .zero)
  have hkeeps : Keeps Trio.stampedScheme (Fleet.heldAt Trio.names) Trio.refreshed Trio.refreshed :=
    ⟨⟨_, rfl⟩, rfl, fun _ => rfl⟩
  have hbefore : Trio.diverged.ReadsSince 0 id := by
    constructor <;> decide +kernel
  have hbetween : Trio.refreshed.ReadsSince 5 id := by
    constructor <;> decide +kernel
  have hafter : Trio.refreshed.ReadsSince 0 id := by
    constructor <;> decide +kernel
  have horder : ∀ indices : List Nat, (id indices).Perm indices := fun indices => .refl indices
  exact ⟨hupdated, downloads_incremental (Trio.create_members Trio.stampedClient) Nat.max_assoc Nat.max_comm
    Nat.max_self Trio.keepsMaps_stamped ⟨_, rfl⟩ rfl Trio.keyed_diverged hupdated hkeeps hkeeps horder horder
    horder hbefore hbetween hafter⟩

end Cluster

end ReplicatedStore
