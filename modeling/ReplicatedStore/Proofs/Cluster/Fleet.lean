import ReplicatedStore.Proofs.Cluster.Replicas
/-!
# Fleets of stores in memory

Stores in memory under names that differ keep maps, whatever their faults.
-/

namespace ReplicatedStore

variable {ν κ σ : Type}

namespace Fleet

theorem get_set_self (fleet : Fleet ν) (name : String) (state : ν) :
    (fleet.set name state).get name = state := by
  simp [get, set]

theorem get_set_of_ne (fleet : Fleet ν) {name other : String} (h : other ≠ name) (state : ν) :
    (fleet.set name state).get other = fleet.get other := by
  have hne : compare name other ≠ .eq := fun heq => h (Std.LawfulEqOrd.eq_of_compare heq).symm
  simp only [get, set, Std.TreeMap.getD_insert, if_neg hne]

end Fleet

variable [Ord κ] {f : MergeFunction σ}

namespace Node

variable {node after : Node κ σ} {feed : Feed κ σ}

private theorem store_of_upload_ok (h : node.upload f feed = (.ok (), after)) :
    ∃ entries, feed = .ofEntries entries ∧ after.store = node.store.putAll f entries := by
  unfold upload at h
  split at h
  next => cases h
  next =>
    split at h
    next => cases h
    next =>
      unfold MapStore.upload at h
      cases hcollect : (feed.interrupted node.faults.uploadInterruption 0).collect with
      | error cause =>
        rw [hcollect] at h
        cases h
      | ok entries =>
        rw [hcollect] at h
        cases h
        have hpolled := Feed.eq_ofEntries_of_collect hcollect
        obtain ⟨-, hclean⟩ := Feed.delivered_interrupted node.faults.uploadInterruption 0 feed
        rw [hpolled, Feed.fails_ofEntries, Feed.delivered_ofEntries] at hclean
        obtain ⟨hfails, hdelivered⟩ := hclean rfl
        refine ⟨entries, ?_, rfl⟩
        rw [hdelivered]
        exact Feed.eq_ofEntries_of_not_fails hfails

private theorem store_of_upload_error {cause : StoreError}
    (h : node.upload f feed = (.error cause, after)) : after.store = node.store := by
  unfold upload at h
  split at h
  next =>
    cases h
    rfl
  next =>
    split at h
    next =>
      cases h
      rfl
    next =>
      unfold MapStore.upload at h
      cases hcollect : (feed.interrupted node.faults.uploadInterruption 0).collect with
      | error cause =>
        rw [hcollect] at h
        cases h
        rfl
      | ok entries =>
        rw [hcollect] at h
        cases h

private theorem feed_of_download {horizon : UInt64}
    (h : (requests f).download horizon node = (.ok feed, after)) :
    feed = .ofEntries (node.store.since f horizon) := by
  unfold requests at h
  dsimp only at h
  split at h
  next => cases h
  next =>
    cases h
    rfl

private theorem store_of_download (f : MergeFunction σ) (horizon : UInt64) (node : Node κ σ) :
    ((requests f).download horizon node).2.store = node.store := by
  unfold requests
  dsimp only
  split <;> rfl

private theorem store_of_take (f : MergeFunction σ) (node : Node κ σ) :
    ((requests f).take node).2.store = node.store := by
  unfold requests
  dsimp only
  split <;> rfl

theorem snapshot_of_take {receipt : List (κ × Nat)}
    (h : (requests f).take node = (.ok (feed, receipt), after)) :
    feed = .ofEntries node.store.entries ∧ receipt = node.store.versions := by
  unfold requests at h
  dsimp only at h
  split at h
  next => cases h
  next =>
    cases h
    exact ⟨rfl, rfl⟩

theorem store_of_commit (f : MergeFunction σ) (taken : List (κ × Nat)) (node : Node κ σ) :
    ((requests f).commit taken true node).2.store = node.store ∨
      ((requests f).commit taken true node).2.store = node.store.removeTaken taken := by
  unfold requests
  dsimp only
  split
  next => exact .inl rfl
  next => exact .inr rfl

private theorem store_of_ping (f : MergeFunction σ) (node : Node κ σ) :
    ((requests f).ping node).2.store = node.store := by
  unfold requests
  dsimp only
  split <;> rfl

end Node

namespace Fleet

/-- What the store of a name holds, by the position of the name. -/
def heldAt (names : List String) (index : Nat) (fleet : Fleet (Node κ σ)) : MapStore κ σ :=
  (names[index]?).elim .empty fun name => (fleet.get name).store

variable {names : List String} {name : String} {index other : Nat} {fleet : Fleet (Node κ σ)}
  {node : Node κ σ}

theorem heldAt_eq (hname : names[index]? = some name) :
    heldAt names index fleet = (fleet.get name).store := by
  rw [heldAt, hname, Option.elim_some]

theorem heldAt_set_self (hname : names[index]? = some name) :
    heldAt names index (fleet.set name node) = node.store := by
  rw [heldAt_eq hname, get_set_self]

theorem heldAt_set_of_ne (hnames : names.Nodup) (hname : names[index]? = some name)
    (hother : other ≠ index) : heldAt names other (fleet.set name node) = heldAt names other fleet := by
  unfold heldAt
  cases hotherName : names[other]? with
  | none => rfl
  | some otherName =>
    have hne : otherName ≠ name := by
      rintro rfl
      obtain ⟨hlt, -⟩ := List.getElem?_eq_some_iff.mp hotherName
      exact hother ((List.getElem?_inj hlt hnames).mp (hotherName.trans hname.symm))
    rw [Option.elim_some, Option.elim_some, get_set_of_ne _ hne]

theorem heldAt_set_same (hstore : node.store = (fleet.get name).store) :
    heldAt names other (fleet.set name node) = heldAt names other fleet := by
  unfold heldAt
  cases names[other]? with
  | none => rfl
  | some otherName =>
    rw [Option.elim_some, Option.elim_some]
    by_cases hname : otherName = name
    · rw [hname, get_set_self, hstore]
    · rw [get_set_of_ne _ hname]

theorem exists_member {scheme : PartitionScheme (Store (Fleet (Node κ σ)) (List (κ × Nat)) κ σ)}
    (hscheme : ∀ partition, scheme.client partition = some (member (Node.requests f) partition.identity.name))
    {store : Store (Fleet (Node κ σ)) (List (κ × Nat)) κ σ} (hstore : scheme.clientAt? index = some store) :
    ∃ name, (scheme.partitions.map fun partition => partition.identity.name)[index]? = some name ∧
      store = member (Node.requests f) name := by
  obtain ⟨partition, hpartition, hclient⟩ := Option.bind_eq_some_iff.mp hstore
  rw [hscheme, Option.some_inj] at hclient
  refine ⟨partition.identity.name, ?_, hclient.symm⟩
  have hposition : scheme.partitions[index]? = some partition := hpartition
  rw [List.getElem?_map, hposition, Option.map_some]

/-- Partitions whose stores are in memory, under names that differ, keep maps. -/
theorem keepsMaps {client : Nat → Option (Store (Fleet (Node κ σ)) (List (κ × Nat)) κ σ)}
    (hnames : names.Nodup)
    (hclient : ∀ {index store}, client index = some store →
      ∃ name, names[index]? = some name ∧ store = member (Node.requests f) name) :
    KeepsMaps f client (heldAt names) := by
  constructor
  case uploaded =>
    intro index store feed before after hstore h
    obtain ⟨name, hname, rfl⟩ := hclient hstore
    obtain ⟨hanswer, rfl⟩ := Prod.mk.inj h
    obtain ⟨entries, hfeed, hheld⟩ := Node.store_of_upload_ok (Prod.ext hanswer rfl)
    refine ⟨entries, hfeed, ?_⟩
    rw [heldAt_set_self hname, heldAt_eq hname]
    exact hheld
  case refused =>
    intro index store feed before cause after hstore h
    obtain ⟨name, hname, rfl⟩ := hclient hstore
    obtain ⟨hanswer, rfl⟩ := Prod.mk.inj h
    exact .inl (heldAt_set_same (Node.store_of_upload_error (Prod.ext hanswer rfl)))
  case apart =>
    intro index other store feed before answer after hstore h hother
    obtain ⟨name, hname, rfl⟩ := hclient hstore
    obtain ⟨-, rfl⟩ := Prod.mk.inj h
    exact heldAt_set_of_ne hnames hname hother
  case delivers =>
    intro index store horizon before feed after hstore h
    obtain ⟨name, hname, rfl⟩ := hclient hstore
    obtain ⟨hanswer, -⟩ := Prod.mk.inj h
    rw [heldAt_eq hname, Node.feed_of_download (Prod.ext hanswer rfl)]
    simp [DeliversFrom]
  case downloaded =>
    intro index other store horizon before answer after hstore h
    obtain ⟨name, -, rfl⟩ := hclient hstore
    obtain ⟨-, rfl⟩ := Prod.mk.inj h
    exact heldAt_set_same (Node.store_of_download f _ _)
  case taken =>
    intro index other store before answer after hstore h
    obtain ⟨name, -, rfl⟩ := hclient hstore
    obtain ⟨-, rfl⟩ := Prod.mk.inj h
    exact heldAt_set_same (Node.store_of_take f _)
  case released =>
    intro index other store receipt before hstore
    obtain ⟨name, -, rfl⟩ := hclient hstore
    exact heldAt_set_same rfl
  case pinged =>
    intro index other store before answer after hstore h
    obtain ⟨name, -, rfl⟩ := hclient hstore
    obtain ⟨-, rfl⟩ := Prod.mk.inj h
    exact heldAt_set_same (Node.store_of_ping f _)

end Fleet

namespace Cluster.Trio

theorem lawful : function.Lawful := by
  refine ⟨Nat.max_assoc, Nat.max_comm, Nat.max_self, fun _ => rfl⟩

def names : List String := scheme.partitions.map fun partition => partition.identity.name

theorem nodup_names : names.Nodup := by decide +kernel

theorem clientAt?_eq_member {index : Nat}
    {store : Store (Fleet (Node UInt64 Nat)) (List (UInt64 × Nat)) UInt64 Nat}
    (hstore : scheme.clientAt? index = some store) :
    ∃ name, names[index]? = some name ∧ store = Fleet.member (Node.requests function) name :=
  Fleet.exists_member (fun _ => rfl) hstore

theorem keepsMaps : KeepsMaps function scheme.clientAt? (Fleet.heldAt names) :=
  Fleet.keepsMaps nodup_names clientAt?_eq_member

theorem heldAt_eq_empty (faults : Faults) (index : Nat) :
    Fleet.heldAt names index (cluster faults).world = .empty := by
  unfold Fleet.heldAt
  cases names[index]? with
  | none => rfl
  | some name => simp [Fleet.get, cluster, Fleet.ofInitial]

end Cluster.Trio

end ReplicatedStore
