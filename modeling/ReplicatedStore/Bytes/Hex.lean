import ReplicatedStore.Bytes.LittleEndian
import ReplicatedStore.Text.Number
/-!
# Hexadecimal text

Each byte is written as two lower case digits. Reading takes both cases and stops at the first pair that
is none.
-/

namespace ReplicatedStore.Bytes

def hexDigit (n : Nat) : Char :=
  if n < 10 then Char.ofNat ('0'.toNat + n) else Char.ofNat ('a'.toNat + (n - 10))

def hexPair (byte : UInt8) : List Char := [hexDigit (byte.toNat / 16), hexDigit (byte.toNat % 16)]

def hex (bs : Bytes) : String := String.ofList (bs.flatMap hexPair)

/-- The byte string that digits stand for, up to the first pair that is none. -/
def ofHexDigits : List Char → Bytes
  | high :: low :: rest =>
    match Text.digit? 16 high, Text.digit? 16 low with
    | some h, some l => UInt8.ofNat (16 * h + l) :: ofHexDigits rest
    | _, _ => []
  | _ => []

def ofHex (text : String) : Bytes := ofHexDigits text.toList

end ReplicatedStore.Bytes
