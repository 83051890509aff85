import ReplicatedStore.Proofs.Entry.Join
import ReplicatedStore.Store.Map
/-!
# What a store in memory holds

A store that entries were merged into holds for each key the entries of that key, joined in the order in
which they arrived.
-/

namespace ReplicatedStore.MapStore

variable {κ σ : Type} [Ord κ]

def Keyed (store : MapStore κ σ) : Prop :=
  ∀ (key : κ) (slot : Slot κ σ), store.slots[key]? = some slot → slot.entry.key = key

variable (f : MergeFunction σ)

theorem Keyed.key_of_get? {store : MapStore κ σ} (h : store.Keyed) {key : κ} {entry : Entry κ σ}
    (hget : store.get? key = some entry) : entry.key = key := by
  obtain ⟨slot, hslot, rfl⟩ := Option.map_eq_some_iff.mp hget
  exact h key slot hslot

theorem slots_put {store : MapStore κ σ} (h : store.Keyed) (arriving : Entry κ σ) :
    (store.put f arriving).slots = store.slots.insert arriving.key
      ⟨store.writes + 1, ((store.get? arriving.key).map fun held => held.merge f arriving).getD arriving⟩ := by
  unfold put get?
  cases hslot : store.slots[arriving.key]? with
  | none => rfl
  | some slot =>
    dsimp only [Option.map_some, Option.getD_some]
    rw [Entry.key_merge, h _ _ hslot]

variable [Std.TransOrd κ]

theorem keyed_empty : Keyed (empty : MapStore κ σ) := by
  intro key slot h
  simp [empty] at h

theorem get?_put_self {store : MapStore κ σ} (h : store.Keyed) (arriving : Entry κ σ) :
    (store.put f arriving).get? arriving.key =
      some (((store.get? arriving.key).map fun held => held.merge f arriving).getD arriving) := by
  rw [get?, slots_put f h, Std.TreeMap.getElem?_insert_self, Option.map_some]

private theorem Keyed.removeUnchanged {store : MapStore κ σ} (h : store.Keyed) (taken : κ × Nat) :
    (store.removeUnchanged taken).Keyed := by
  intro key slot hslot
  unfold MapStore.removeUnchanged at hslot
  split at hslot
  next =>
    rw [Std.TreeMap.getElem?_erase] at hslot
    split at hslot
    next => contradiction
    next => exact h key slot hslot
  next => exact h key slot hslot

theorem Keyed.removeTaken {store : MapStore κ σ} (h : store.Keyed) (taken : List (κ × Nat)) :
    (store.removeTaken taken).Keyed := by
  unfold MapStore.removeTaken
  induction taken generalizing store with
  | nil => exact h
  | cons first rest ih => exact ih (h.removeUnchanged first)

variable [Std.LawfulEqOrd κ]

theorem Keyed.put {store : MapStore κ σ} (h : store.Keyed) (arriving : Entry κ σ) :
    (store.put f arriving).Keyed := by
  intro key slot hslot
  rw [slots_put f h, Std.TreeMap.getElem?_insert] at hslot
  split at hslot
  next heq =>
    cases hslot
    rw [← Std.LawfulEqOrd.eq_of_compare heq]
    cases hget : store.get? arriving.key with
    | none => rfl
    | some held =>
      rw [Option.map_some, Option.getD_some, Entry.key_merge]
      exact h.key_of_get? hget
  next => exact h key slot hslot

theorem Keyed.putAll {store : MapStore κ σ} (h : store.Keyed) (arriving : List (Entry κ σ)) :
    (store.putAll f arriving).Keyed := by
  unfold MapStore.putAll
  induction arriving generalizing store with
  | nil => exact h
  | cons first rest ih => exact ih (h.put f first)

inductive Reached : MapStore κ σ → Prop
  | empty : Reached .empty
  | upload {store : MapStore κ σ} (h : Reached store) (feed : Feed κ σ) : Reached (store.upload f feed).2
  | commit {store : MapStore κ σ} (h : Reached store) (taken : List (κ × Nat)) :
    Reached (store.removeTaken taken)

theorem Reached.keyed {store : MapStore κ σ} (h : Reached f store) : store.Keyed := by
  induction h with
  | empty => exact keyed_empty
  | @upload store _ feed ih =>
    unfold MapStore.upload
    cases feed.collect with
    | ok arriving => exact ih.putAll f arriving
    | error cause => exact ih
  | commit _ taken ih => exact ih.removeTaken taken

theorem get?_put_of_ne {store : MapStore κ σ} (h : store.Keyed) {arriving : Entry κ σ} {key : κ}
    (hne : arriving.key ≠ key) : (store.put f arriving).get? key = store.get? key := by
  have hlookup : compare arriving.key key ≠ .eq := fun heq => hne (Std.LawfulEqOrd.eq_of_compare heq)
  rw [get?, slots_put f h, Std.TreeMap.getElem?_insert, if_neg hlookup, ← get?]

/-- What a store has for a key is joined with what arrives for it, from left to right. -/
theorem get?_putAll {store : MapStore κ σ} (h : store.Keyed) {before arriving : List (Entry κ σ)} {key : κ}
    (hget : store.get? key = Entry.joined f before) :
    (store.putAll f arriving).get? key = Entry.joined f (before ++ arriving.filter (Entry.hasKey key)) := by
  unfold putAll
  induction arriving generalizing store before with
  | nil => rw [List.foldl_nil, List.filter_nil, List.append_nil, hget]
  | cons first rest ih =>
    rw [List.foldl_cons]
    by_cases hkey : first.key = key
    · subst hkey
      have hfirst : (store.put f first).get? first.key = Entry.joined f (before ++ [first]) := by
        rw [get?_put_self f h, hget, Entry.joined_concat]
      rw [ih (h.put f first) hfirst, Entry.filter_hasKey_cons_of_eq rfl, List.append_assoc]
      rfl
    · have hsame : (store.put f first).get? key = Entry.joined f before :=
        (get?_put_of_ne f h hkey).trans hget
      rw [ih (h.put f first) hsame, Entry.filter_hasKey_cons_of_ne hkey]

theorem get?_putAll_empty (arriving : List (Entry κ σ)) (key : κ) :
    (putAll f empty arriving).get? key = Entry.joined f (arriving.filter (Entry.hasKey key)) := by
  have hnone : (empty : MapStore κ σ).get? key = Entry.joined f [] := by simp [get?, empty, Entry.joined]
  exact get?_putAll f keyed_empty hnone

theorem Keyed.ascending_entries {store : MapStore κ σ} (h : store.Keyed) :
    Entry.Ascending store.entries := by
  unfold entries Entry.Ascending
  rw [List.pairwise_map]
  refine Std.TreeMap.ordered_keys_toList.imp_of_mem ?_
  rintro ⟨k, slot⟩ ⟨k', slot'⟩ hmem hmem' hlt
  rw [h k slot (Std.TreeMap.mem_toList_iff_getElem?_eq_some.mp hmem),
    h k' slot' (Std.TreeMap.mem_toList_iff_getElem?_eq_some.mp hmem')]
  exact hlt

theorem Keyed.ascending_since {store : MapStore κ σ} (h : store.Keyed) (f : MergeFunction σ)
    (horizon : UInt64) : Entry.Ascending (store.since f horizon) :=
  h.ascending_entries.filterMap_extract f horizon

theorem Keyed.mem_entries {store : MapStore κ σ} (h : store.Keyed) {entry : Entry κ σ} :
    entry ∈ store.entries ↔ store.get? entry.key = some entry := by
  unfold entries get?
  rw [List.mem_map, Option.map_eq_some_iff]
  constructor
  · rintro ⟨⟨key, slot⟩, hmem, rfl⟩
    have hslot := Std.TreeMap.mem_toList_iff_getElem?_eq_some.mp hmem
    exact ⟨slot, by rw [h key slot hslot]; exact hslot, rfl⟩
  · rintro ⟨slot, hslot, heq⟩
    exact ⟨(entry.key, slot), Std.TreeMap.mem_toList_iff_getElem?_eq_some.mpr hslot, heq⟩

theorem Keyed.lookup?_entries {store : MapStore κ σ} (h : store.Keyed) (key : κ) :
    Entry.lookup? key store.entries = store.get? key := by
  cases hget : store.get? key with
  | none =>
    refine Entry.lookup?_eq_none.mpr ?_
    rintro entry hmem rfl
    rw [h.mem_entries, hget] at hmem
    contradiction
  | some entry =>
    obtain rfl := h.key_of_get? hget
    exact h.ascending_entries.lookup?_of_mem (h.mem_entries.mpr hget)

variable {f}

theorem Keyed.joins {store : MapStore κ σ} (h : store.Keyed) {parts : List (Entry κ σ)}
    (hget : ∀ key, store.get? key = Entry.joined f (parts.filter (Entry.hasKey key))) :
    Entry.Joins f parts store.entries :=
  ⟨h.ascending_entries, fun key => (h.lookup?_entries key).trans (hget key)⟩

variable (f) in
/-- A store filled from empty holds the join of what arrived. -/
theorem joins_putAll_empty (arriving : List (Entry κ σ)) :
    Entry.Joins f arriving (putAll f empty arriving).entries :=
  (keyed_empty.putAll f arriving).joins (get?_putAll_empty f arriving)

end ReplicatedStore.MapStore
