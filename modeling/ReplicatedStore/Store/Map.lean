import ReplicatedStore.Store.Basic
import Std.Data.TreeMap
/-!
# The store in memory

Each key has a slot with its merged entry and the number of the write that changed it last. A take
remembers these numbers, so that its commit removes only what was not written since.
-/

namespace ReplicatedStore

/-- An entry with the number of its last write. -/
structure Slot (κ σ : Type) where
  version : Nat
  entry : Entry κ σ
deriving DecidableEq, Repr

structure MapStore (κ σ : Type) [Ord κ] where
  slots : Std.TreeMap κ (Slot κ σ)
  writes : Nat

namespace MapStore

variable {κ σ : Type} [Ord κ]

def empty : MapStore κ σ := ⟨∅, 0⟩

instance : Inhabited (MapStore κ σ) := ⟨empty⟩

def put (f : MergeFunction σ) (store : MapStore κ σ) (arriving : Entry κ σ) : MapStore κ σ :=
  let version := store.writes + 1
  let entry := match store.slots[arriving.key]? with
    | some slot => slot.entry.merge f arriving
    | none => arriving
  ⟨store.slots.insert entry.key ⟨version, entry⟩, version⟩

def putAll (f : MergeFunction σ) (store : MapStore κ σ) (arriving : List (Entry κ σ)) : MapStore κ σ :=
  arriving.foldl (put f) store

def get? (store : MapStore κ σ) (key : κ) : Option (Entry κ σ) := store.slots[key]?.map Slot.entry

def size (store : MapStore κ σ) : Nat := store.slots.size

def isEmpty (store : MapStore κ σ) : Bool := store.size == 0

def entries (store : MapStore κ σ) : List (Entry κ σ) :=
  store.slots.toList.map fun (_, slot) => slot.entry

def snapshot (store : MapStore κ σ) (keep : Entry κ σ → Bool) : List (Entry κ σ) :=
  store.entries.filter keep

def since (f : MergeFunction σ) (store : MapStore κ σ) (horizon : UInt64) : List (Entry κ σ) :=
  store.entries.filterMap (Entry.extract f horizon)

def versions (store : MapStore κ σ) : List (κ × Nat) :=
  store.slots.toList.map fun (key, slot) => (key, slot.version)

def removeUnchanged (store : MapStore κ σ) (taken : κ × Nat) : MapStore κ σ :=
  if (store.slots[taken.1]?.map Slot.version) = some taken.2 then
    { store with slots := store.slots.erase taken.1 }
  else store

/-- Removes the keys of a take, except those written since. -/
def removeTaken (store : MapStore κ σ) (taken : List (κ × Nat)) : MapStore κ σ :=
  taken.foldl removeUnchanged store

/-- A feed is collected before any of it is merged, so a failed upload changes nothing. -/
def upload (f : MergeFunction σ) (feed : Feed κ σ) (store : MapStore κ σ) :
    Except StoreError Unit × MapStore κ σ :=
  match feed.collect with
  | .ok arriving => (.ok (), store.putAll f arriving)
  | .error e => (.error e, store)

/-- The requests answered by a store in memory; a take's receipt lists the versions it saw. -/
def requests (f : MergeFunction σ) : Store (MapStore κ σ) (List (κ × Nat)) κ σ where
  upload := upload f
  intake feed _ := feed.firstError
  download horizon store := (.ok (.ofEntries (store.since f horizon)), store)
  take store := (.ok (.ofEntries store.entries, store.versions), store)
  commit taken _ store := (.ok (), store.removeTaken taken)
  release _ store := store
  ping store := (.ok (), store)
  interruption _ := .never

end MapStore

end ReplicatedStore
