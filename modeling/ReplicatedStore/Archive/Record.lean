import ReplicatedStore.Archive.Basic
/-!
# Archived pairs and records

The fields of a pair follow one another, each at the next position its alignment allows, with zero
padding between and after them. Longer records are nested pairs.
-/

namespace ReplicatedStore.Archive

variable {α β : Type} [Archive α] [Archive β]

def pairAlign (α β : Type) [Archive α] [Archive β] : Nat := max (align α) (align β)

def secondField (α β : Type) [Archive α] [Archive β] : Nat := alignUp (align β) (size α)

def pairSize (α β : Type) [Archive α] [Archive β] : Nat :=
  alignUp (pairAlign α β) (secondField α β + size β)

def readPair (archive : Bytes) (own : Nat) (bounds : Bounds) : Option ((α × β) × Bounds) := do
  let (first, bounds) ← read archive own bounds
  let (second, bounds) ← read archive (own + secondField α β) bounds
  return ((first, second), bounds)

instance : Archive (α × β) where
  size := pairSize α β
  align := pairAlign α β
  loose start pair :=
    let first := loose start pair.1
    first ++ loose (start + first.length) pair.2
  fixed start own pair :=
    fixed start own pair.1 ++ zeros (secondField α β - size α) ++
      fixed (start + (loose start pair.1).length) (own + secondField α β) pair.2 ++
      zeros (pairSize α β - (secondField α β + size β))
  read := readPair

end ReplicatedStore.Archive
