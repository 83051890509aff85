import ReplicatedStore.Bytes.LittleEndian
/-!
# Archives

An archive holds one value so that it can be read in place. Each type has a fixed part of known size
and alignment, and a loose part of any length to which the fixed part points by signed offsets. The
loose part of a value precedes its fixed part, and the fixed part of the whole value ends the archive.

Reading claims every part it follows a pointer to. `Bounds` is the range in which claims are still
allowed: parts must lie one after the other, so no two parts of one archive overlap.
-/

namespace ReplicatedStore

namespace Archive

def alignUp (align position : Nat) : Nat := position + (align - position % align) % align

def zeros (count : Nat) : Bytes := List.replicate count 0

def offsetBytes (offset : Int) : Bytes := Bytes.ofNat 4 (offset % 4294967296).toNat

def offsetOfBytes (bs : Bytes) : Int := Int.bmod (Bytes.toNat bs) 4294967296

/-- The range in which parts may still be claimed. -/
structure Bounds where
  lower : Nat
  upper : Nat
deriving DecidableEq, Repr

namespace Bounds

/-- The position of a claimed part: it must be aligned, and lie within the bounds and the archive. -/
def claim (b : Bounds) (total : Nat) (target : Int) (size align : Nat) : Option Nat :=
  let t := target.toNat
  if 0 ≤ target ∧ b.lower ≤ t ∧ (if size = 0 then t ≤ b.upper else t < b.upper ∧ size ≤ b.upper - t) ∧
      t + size ≤ total ∧ t % align = 0
  then some t else none

def before (b : Bounds) (position : Nat) : Bounds := ⟨b.lower, position⟩

/-- What may be claimed once a part that ends at `position` is checked. -/
def after (b : Bounds) (position : Nat) : Bounds := ⟨position, b.upper⟩

end Bounds

end Archive

open Archive in
/-- The types that can be archived. -/
class Archive (α : Type) where
  /-- The length of the fixed part. -/
  size : Nat
  /-- Positions of fixed parts are multiples of this. -/
  align : Nat
  /-- The loose part, when it is written at `start`. -/
  loose (start : Nat) (value : α) : Bytes
  /-- The fixed part at `own`, when the loose part was written at `start`. -/
  fixed (start own : Nat) (value : α) : Bytes
  /-- Checks and reads the value whose fixed part is at `own`, and what may be claimed afterwards. -/
  read (archive : Bytes) (own : Nat) (bounds : Bounds) : Option (α × Bounds)

namespace Archive

variable {α β : Type}

def encode [Archive α] (value : α) : Bytes :=
  let body := loose 0 value
  let own := alignUp (align α) body.length
  body ++ zeros (own - body.length) ++ fixed 0 own value

def decode [Archive α] (archive : Bytes) : Option α := do
  let bounds : Bounds := ⟨0, archive.length⟩
  let own ← bounds.claim archive.length ((archive.length : Int) - size α) (size α) (align α)
  let (value, _) ← read archive own (bounds.before own)
  return value

@[reducible] def via [Archive α] (layout : β → α) (restore : α → β) : Archive β where
  size := size α
  align := align α
  loose start value := loose start (layout value)
  fixed start own value := fixed start own (layout value)
  read archive own bounds := (read archive own bounds).map fun (value, rest) => (restore value, rest)

end Archive

end ReplicatedStore
