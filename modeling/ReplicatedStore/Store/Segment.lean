import ReplicatedStore.Bytes.Crc32
import ReplicatedStore.Store.Error
/-!
# Segments

A segment is a sequence of records: the length of the payload, its checksum, and the payload, which is
an encoded entry. Reading stops at the first record that breaks this form.
-/

namespace ReplicatedStore

variable {κ σ : Type}

inductive RecordFault where
  | shortHeader
  | shortPayload
  | wrongChecksum
deriving DecidableEq, Repr

namespace RecordFault

def message : RecordFault → String
  | shortHeader => "truncated record header"
  | shortPayload => "truncated record"
  | wrongChecksum => "checksum mismatch"

end RecordFault

inductive SegmentError where
  | damaged (fault : RecordFault)
  | undecodable (cause : CodecError)
deriving DecidableEq, Repr

namespace Segment

def record (payload : Bytes) : Bytes :=
  Bytes.ofNat 4 payload.length ++ Bytes.ofUInt32 (Bytes.crc32 payload) ++ payload

def write (codec : EntryCodec κ σ) : List (Entry κ σ) → Except CodecError Bytes
  | [] => .ok []
  | entry :: entries => do
    let payload ← codec.encode entry
    let rest ← write codec entries
    return record payload ++ rest

def read (codec : EntryCodec κ σ) : Bytes → Except SegmentError (List (Entry κ σ))
  | [] => .ok []
  | l₀ :: l₁ :: l₂ :: l₃ :: c₀ :: c₁ :: c₂ :: c₃ :: body =>
    let length := Bytes.toNat [l₀, l₁, l₂, l₃]
    let payload := body.take length
    if payload.length < length then .error (.damaged .shortPayload)
    else if (Bytes.crc32 payload).toNat ≠ Bytes.toNat [c₀, c₁, c₂, c₃] then
      .error (.damaged .wrongChecksum)
    else
      match codec.decode payload with
      | .error cause => .error (.undecodable cause)
      | .ok entry => (read codec (body.drop length)).map (entry :: ·)
  | _ => .error (.damaged .shortHeader)
termination_by bytes => bytes.length
decreasing_by simp only [List.length_drop, List.length_cons]; omega

end Segment

structure SegmentName where
  time : Nat
  id : Nat
  salt : UInt32
deriving DecidableEq, Repr

namespace SegmentName

def padded (base width n : Nat) : String :=
  let digits := Nat.toDigits base n
  String.ofList (List.replicate (width - digits.length) '0' ++ digits)

def stem (name : SegmentName) : String :=
  padded 10 20 name.time ++ "-" ++ padded 10 10 name.id ++ "-" ++ padded 16 8 name.salt.toNat

def file (name : SegmentName) : String := name.stem ++ ".seg"

def temporary (name : SegmentName) : String := name.stem ++ ".tmp"

/-- Whether a text consists of `width` decimal digits, or of hexadecimal ones. -/
def hasDigits (hexadecimal : Bool) (width : Nat) (text : String) : Bool :=
  text.length == width &&
    text.all fun c => c.isDigit || (hexadecimal && 'a' ≤ c && c ≤ 'f')

def isWellFormed (file : String) : Bool :=
  file.endsWith ".seg" &&
    match ((file.dropEnd 4).toString).splitOn "-" with
    | [time, id, salt] => hasDigits false 20 time && hasDigits false 10 id && hasDigits true 8 salt
    | _ => false

end SegmentName

end ReplicatedStore
