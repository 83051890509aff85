import ReplicatedStore.Bytes.LittleEndian
import ReplicatedStore.Entry.Basic
/-!
# Entry codecs

A codec writes an entry as bytes and reads it back; either may refuse.
-/

namespace ReplicatedStore

inductive CodecError where
  | encode (reason : String)
  | decode (reason : String)
deriving DecidableEq, Repr

namespace CodecError

def kind : CodecError → String
  | encode _ => "Encode"
  | decode _ => "Decode"

def message : CodecError → String
  | encode reason => s!"Failed to encode entry: {reason}"
  | decode reason => s!"Failed to decode entry: {reason}"

end CodecError

/-- How entries are written as bytes. -/
structure EntryCodec (κ σ : Type) where
  encode : Entry κ σ → Except CodecError Bytes
  decode : Bytes → Except CodecError (Entry κ σ)

end ReplicatedStore
