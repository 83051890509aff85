/-!
# Little-endian numbers

Byte strings are lists of bytes. `ofNat w n` writes the lowest `w` bytes of `n`, least significant
first, and `toNat` reads such a string back; the fixed widths of the wire formats are instances.
-/

namespace ReplicatedStore

abbrev Bytes := List UInt8

namespace Bytes

def ofNat : Nat → Nat → Bytes
  | 0, _ => []
  | width + 1, n => UInt8.ofNat n :: ofNat width (n / 256)

def toNat : Bytes → Nat
  | [] => 0
  | b :: bs => b.toNat + 256 * toNat bs

def capacity : Nat → Nat
  | 0 => 1
  | width + 1 => 256 * capacity width

@[simp] theorem length_ofNat (width n : Nat) : (ofNat width n).length = width := by
  induction width generalizing n with
  | zero => rfl
  | succ w ih => simp [ofNat, ih]

theorem toNat_ofNat (width n : Nat) : toNat (ofNat width n) = n % capacity width := by
  induction width generalizing n with
  | zero => simp [ofNat, toNat, capacity, Nat.mod_one]
  | succ w ih =>
    simp only [ofNat, toNat, ih, capacity]
    rw [Nat.mod_mul]
    simp

theorem toNat_ofNat_of_lt {width n : Nat} (h : n < capacity width) : toNat (ofNat width n) = n := by
  rw [toNat_ofNat, Nat.mod_eq_of_lt h]

theorem ofNat_toNat (bs : Bytes) : ofNat bs.length (toNat bs) = bs := by
  induction bs with
  | nil => rfl
  | cons b bs ih =>
    have hb := b.toNat_lt
    have hrest : (b.toNat + 256 * toNat bs) / 256 = toNat bs := by omega
    have hfirst : UInt8.ofNat (b.toNat + 256 * toNat bs) = b := by
      apply UInt8.toNat_inj.mp
      rw [UInt8.toNat_ofNat']
      omega
    rw [List.length_cons, toNat, ofNat, hrest, hfirst, ih]

theorem toNat_lt (bs : Bytes) : toNat bs < capacity bs.length := by
  induction bs with
  | nil => simp [toNat, capacity]
  | cons b bs ih =>
    have hb := b.toNat_lt
    simp only [toNat, List.length_cons, capacity]
    omega

def ofUInt16 (n : UInt16) : Bytes := ofNat 2 n.toNat

def ofUInt32 (n : UInt32) : Bytes := ofNat 4 n.toNat

def ofUInt64 (n : UInt64) : Bytes := ofNat 8 n.toNat

def ofInt64 (n : Int64) : Bytes := ofUInt64 n.toUInt64

def toUInt64 (bs : Bytes) : UInt64 := UInt64.ofNat (toNat bs)

def toInt64 (bs : Bytes) : Int64 := (toUInt64 bs).toInt64

def ofString (s : String) : Bytes := s.toUTF8.toList

def toString? (bs : Bytes) : Option String := String.fromUTF8? ⟨bs.toArray⟩

private theorem toList_loop (bs : ByteArray) (i : Nat) (front : List UInt8) :
    ByteArray.toList.loop bs i front = front.reverse ++ bs.data.toList.drop i := by
  fun_induction ByteArray.toList.loop bs i front with
  | case1 i front h ih =>
    have hi : i < bs.data.toList.length := h
    have hget : bs.get! i = bs.data.toList[i] := by
      show bs.data[i]! = _
      rw [getElem!_pos bs.data i h, Array.getElem_toList]
    rw [ih, List.reverse_cons, List.append_assoc, hget, List.singleton_append, ← List.drop_eq_getElem_cons hi]
  | case2 i front h =>
    have hi : bs.data.toList.length ≤ i := Nat.le_of_not_lt h
    rw [List.drop_eq_nil_of_le hi, List.append_nil]

theorem toString?_ofString (text : String) : toString? (ofString text) = some text := by
  have hdata : text.toUTF8.toList = text.toUTF8.data.toList := toList_loop text.toUTF8 0 []
  have hbytes : (⟨(ofString text).toArray⟩ : ByteArray) = text.toByteArray := by
    rw [ofString, hdata]
    rfl
  rw [toString?, hbytes, String.fromUTF8?, dif_pos text.isValidUTF8]
  rfl

/-- `length` bytes from position `start`, fewer where the string ends before. -/
def slice (bs : Bytes) (start length : Nat) : Bytes := (bs.drop start).take length

end Bytes

end ReplicatedStore
