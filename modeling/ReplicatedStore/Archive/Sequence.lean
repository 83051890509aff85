import ReplicatedStore.Archive.Basic
/-!
# Archived lists

The loose part of a list holds the loose parts of all items, then padding, then the fixed parts of all
items. Its fixed part is the offset of the first item and the number of items.
-/

namespace ReplicatedStore.Archive

variable {α : Type} [Archive α]

def looseItems (start : Nat) : List α → Bytes
  | [] => []
  | item :: items =>
    let body := loose start item
    body ++ looseItems (start + body.length) items

/-- The fixed parts of the items from `own` on, when their loose parts were written from `start`. -/
def fixedItems (start own : Nat) : List α → Bytes
  | [] => []
  | item :: items =>
    fixed start own item ++ fixedItems (start + (loose start item).length) (own + size α) items

def firstItem (start : Nat) (items : List α) : Nat :=
  alignUp (align α) (start + (looseItems start items).length)

def readItems (archive : Bytes) (own : Nat) (bounds : Bounds) : Nat → Option (List α × Bounds)
  | 0 => some ([], bounds)
  | count + 1 => do
    let (item, bounds) ← read archive own bounds
    let (items, bounds) ← readItems archive (own + size α) bounds count
    return (item :: items, bounds)

def readList (archive : Bytes) (own : Nat) (bounds : Bounds) : Option (List α × Bounds) := do
  let count := Bytes.toNat (Bytes.slice archive (own + 4) 4)
  let span := count * size α
  let target := own + offsetOfBytes (Bytes.slice archive own 4)
  let first ← bounds.claim archive.length target span (align α)
  let (items, _) ← readItems archive first (bounds.before first) count
  return (items, bounds.after (first + span))

instance : Archive (List α) where
  size := 8
  align := 4
  loose start items :=
    let body := looseItems start items
    let first := firstItem start items
    body ++ zeros (first - (start + body.length)) ++ fixedItems start first items
  fixed start own items :=
    offsetBytes ((firstItem start items : Int) - own) ++ Bytes.ofNat 4 items.length
  read := readList

end ReplicatedStore.Archive
