import ReplicatedStore.Bytes.Crc32
/-!
# Fingerprints

The 32 bit hash by which keys and partitions are routed: the checksum of a byte form in which no value
continues another of its type.
-/

namespace ReplicatedStore

class Fingerprint (α : Type) where
  feed : α → Bytes

namespace Fingerprint

instance : Fingerprint UInt8 := ⟨fun n => [n]⟩
instance : Fingerprint UInt16 := ⟨Bytes.ofUInt16⟩
instance : Fingerprint UInt32 := ⟨Bytes.ofUInt32⟩
instance : Fingerprint UInt64 := ⟨Bytes.ofUInt64⟩
instance : Fingerprint Int8 := ⟨fun n => feed n.toUInt8⟩
instance : Fingerprint Int32 := ⟨fun n => feed n.toUInt32⟩
instance : Fingerprint Int64 := ⟨fun n => feed n.toUInt64⟩
instance : Fingerprint Bool := ⟨fun b => [if b then 1 else 0]⟩
instance : Fingerprint Char := ⟨fun c => feed c.val⟩
instance : Fingerprint Unit := ⟨fun _ => []⟩

instance : Fingerprint String := ⟨fun s => Bytes.ofString s ++ [0xFF]⟩

instance {α : Type} [Fingerprint α] : Fingerprint (List α) :=
  ⟨fun items => Bytes.ofNat 8 items.length ++ items.flatMap feed⟩

instance {α : Type} [Fingerprint α] : Fingerprint (Option α) where
  feed
    | none => Bytes.ofNat 8 0
    | some value => Bytes.ofNat 8 1 ++ feed value

instance {α β : Type} [Fingerprint α] [Fingerprint β] : Fingerprint (α × β) :=
  ⟨fun (a, b) => feed a ++ feed b⟩

end Fingerprint

def hash32 {α : Type} [Fingerprint α] (value : α) : UInt32 := Bytes.crc32 (Fingerprint.feed value)

end ReplicatedStore
