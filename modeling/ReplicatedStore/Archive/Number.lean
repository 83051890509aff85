import ReplicatedStore.Archive.Basic
/-!
# Archived numbers

A number is its little-endian bytes, aligned to its width, and has no loose part. A value of a type
with one member takes no space.
-/

namespace ReplicatedStore.Archive

@[reducible] def number {α : Type} (width : Nat) (toNat : α → Nat) (ofNat : Nat → α) : Archive α where
  size := width
  align := width
  loose _ _ := []
  fixed _ _ value := Bytes.ofNat width (toNat value)
  read archive own bounds := some (ofNat (Bytes.toNat (Bytes.slice archive own width)), bounds)

instance : Archive UInt8 := number 1 UInt8.toNat UInt8.ofNat
instance : Archive UInt32 := number 4 UInt32.toNat UInt32.ofNat
instance : Archive UInt64 := number 8 UInt64.toNat UInt64.ofNat
instance : Archive Int64 := via Int64.toUInt64 UInt64.toInt64

instance : Archive Unit where
  size := 0
  align := 1
  loose _ _ := []
  fixed _ _ _ := []
  read _ _ bounds := some ((), bounds)

end ReplicatedStore.Archive
