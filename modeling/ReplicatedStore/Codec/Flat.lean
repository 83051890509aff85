import ReplicatedStore.Codec.Basic
import ReplicatedStore.Entry.Combiner
/-!
# The flat codec

Key length in four bytes, key, entry time, container time, then the numbers in eight bytes each, all
little endian. A codec may refuse some keys.
-/

namespace ReplicatedStore.EntryCodec

def words : Bytes → Option (List Int64)
  | [] => some []
  | a :: b :: c :: d :: e :: f :: g :: h :: rest =>
    (words rest).map (Bytes.toInt64 [a, b, c, d, e, f, g, h] :: ·)
  | _ => none

def flatBytes (e : Entry String Values) : Bytes :=
  let key := Bytes.ofString e.key
  Bytes.ofNat 4 key.length ++ key ++ Bytes.ofUInt64 e.timestamp ++ Bytes.ofUInt64 e.state.timestamp ++
    e.state.state.flatMap Bytes.ofInt64

def ofFlatBytes? (bs : Bytes) : Option (Entry String Values) := do
  guard (4 ≤ bs.length)
  let length := Bytes.toNat (bs.take 4)
  let body := bs.drop 4
  guard (length ≤ body.length)
  let key ← Bytes.toString? (body.take length)
  let rest := body.drop length
  guard (16 ≤ rest.length)
  let values ← words (rest.drop 16)
  return ⟨key, Bytes.toUInt64 (rest.take 8), Bytes.toUInt64 (Bytes.slice rest 8 8), values⟩

def flat (refused : String → Bool) : EntryCodec String Values where
  encode e := if refused e.key then .error (.encode "refused key") else .ok (flatBytes e)
  decode bs := match ofFlatBytes? bs with
    | some e => .ok e
    | none => .error (.decode "bad entry")

end ReplicatedStore.EntryCodec
