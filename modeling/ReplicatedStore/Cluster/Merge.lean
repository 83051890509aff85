import ReplicatedStore.Routing.Group
import ReplicatedStore.Store.Basic
/-!
# Merging the feeds of partitions

The feeds of several partitions, each in key order, are merged into one: in every step the heads with the
least key are joined in the order of the partitions. A source that fails is left out from then on, as
long as the reads that remain are valid; otherwise the merge is over.
-/

namespace ReplicatedStore

variable {κ σ : Type}

inductive SourceNews where
  | same
  | completed
  | failed
deriving DecidableEq, Repr

/-- The feed of a partition within a merge. -/
structure MergeSource (κ σ : Type) where
  index : Nat
  head : Option (Entry κ σ)
  feed : OpenFeed κ σ

namespace MergeSource

def ofFeed (index : Nat) (feed : Feed κ σ) : MergeSource κ σ := ⟨index, none, .ofFeed feed⟩

def advance (interruption : Interruption) (source : MergeSource κ σ) :
    SourceNews × MergeSource κ σ :=
  match source.head with
  | some _ => (.same, source)
  | none =>
    match source.feed.poll interruption with
    | (.entry entry, feed) => (.same, { source with head := some entry, feed })
    | (.failed _, feed) => (.failed, { source with feed })
    | (.ended, feed) => (.completed, { source with feed })
    | (.closed, feed) => (.same, { source with feed })

def cleared (source : MergeSource κ σ) : MergeSource κ σ := ⟨source.index, none, source.feed.closed⟩

def hasHead [Ord κ] (key : κ) (source : MergeSource κ σ) : Bool :=
  source.head.any fun entry => compare entry.key key == .eq

def passed [Ord κ] (key : κ) (source : MergeSource κ σ) : MergeSource κ σ :=
  if source.hasHead key then { source with head := none } else source

def pending (source : MergeSource κ σ) : Nat := source.head.toList.length + source.feed.pending

end MergeSource

/-- A merge in progress. -/
structure Merge (κ σ : Type) where
  sources : List (MergeSource κ σ)
  /-- The partitions whose data the merge does without. -/
  unhealthy : IndexSet
  completed : IndexSet
  failed : IndexSet

/-- What a step of a merge yields. -/
inductive MergeStep (κ σ : Type) where
  | entry (entry : Entry κ σ)
  | ended
  | invalid

namespace Merge

def ofFeeds (feeds : List (Nat × Feed κ σ)) (unhealthy : IndexSet) : Merge κ σ :=
  ⟨feeds.map fun (index, feed) => .ofFeed index feed, unhealthy, ∅, ∅⟩

def indicesOf (news : SourceNews) (advanced : List (SourceNews × MergeSource κ σ)) : List Nat :=
  (advanced.filter fun item => item.1 == news).map fun item => item.2.index

/-- Fills all empty heads; the positions are those of the sources that fail. -/
def fill (interruption : Nat → Interruption) (merge : Merge κ σ) : IndexSet × Merge κ σ :=
  let advanced := merge.sources.map fun source => source.advance (interruption source.index)
  let failures := indicesOf .failed advanced
  (.ofList failures,
    { sources := advanced.map Prod.snd
      unhealthy := merge.unhealthy.insertAll failures
      completed := merge.completed.insertAll (indicesOf .completed advanced)
      failed := merge.failed.insertAll failures })

def lesser [Ord κ] (a b : κ) : κ := if compare b a == .lt then b else a

def leastKey? [Ord κ] (merge : Merge κ σ) : Option κ :=
  match merge.sources.filterMap fun source => source.head.map Entry.key with
  | [] => none
  | key :: keys => some (keys.foldl lesser key)

def mergeHeads [Ord κ] (f : MergeFunction σ) (merge : Merge κ σ) : MergeStep κ σ × Merge κ σ :=
  match merge.leastKey? with
  | none => (.ended, merge)
  | some key =>
    match (merge.sources.filter (MergeSource.hasHead key)).filterMap MergeSource.head with
    | [] => (.ended, merge)
    | first :: rest =>
      (.entry (Entry.mergeAll f first rest),
        { merge with sources := merge.sources.map (MergeSource.passed key) })

def abandoned (merge : Merge κ σ) : Merge κ σ :=
  { merge with sources := merge.sources.map MergeSource.cleared }

/-- The next entry of a merge that may do without the partitions for which `valid` holds; the positions
are those of the sources that fail in this step. -/
def next [Ord κ] (f : MergeFunction σ) (valid : IndexSet → Bool)
    (interruption : Nat → Interruption) (merge : Merge κ σ) :
    MergeStep κ σ × IndexSet × Merge κ σ :=
  let (failures, filled) := merge.fill interruption
  if failures.isEmpty || valid filled.unhealthy then
    let (step, after) := filled.mergeHeads f
    (step, failures, after)
  else (.invalid, failures, filled.abandoned)

def pending (merge : Merge κ σ) : Nat :=
  merge.sources.foldl (fun count source => count + source.pending) 0

end Merge

end ReplicatedStore
