import ReplicatedStore.Archive.Basic
/-!
# Archived texts

A text of at most seven bytes is kept in its fixed part, with its length in the eighth byte. A longer
text is loose, and its fixed part is its length and the offset of its bytes. The offset is negative,
so the top bit of the eighth byte tells the two forms apart.
-/

namespace ReplicatedStore.Archive

def shortText : Nat := 7

def readText (archive : Bytes) (own : Nat) (bounds : Bounds) : Option (String × Bounds) := do
  let own8 := Bytes.slice archive own 8
  let tag ← own8[7]?
  if tag.toNat < 128 then
    guard (tag.toNat ≤ shortText)
    let text ← Bytes.toString? (own8.take tag.toNat)
    return (text, bounds)
  else
    let length := Bytes.toNat (own8.take 4)
    let start ← bounds.claim archive.length (own + offsetOfBytes (own8.drop 4)) length 1
    let text ← Bytes.toString? (Bytes.slice archive start length)
    return (text, bounds.after (start + length))

instance : Archive String where
  size := 8
  align := 4
  loose _ text :=
    let bytes := Bytes.ofString text
    if bytes.length ≤ shortText then [] else bytes
  fixed start own text :=
    let bytes := Bytes.ofString text
    if bytes.length ≤ shortText then
      bytes ++ zeros (shortText - bytes.length) ++ [UInt8.ofNat bytes.length]
    else
      Bytes.ofNat 4 bytes.length ++ offsetBytes ((start : Int) - own)
  read := readText

end ReplicatedStore.Archive
