import ReplicatedStore.Archive.Number
import ReplicatedStore.Archive.Record
import ReplicatedStore.Archive.Sequence
import ReplicatedStore.Archive.Text
import ReplicatedStore.Codec.Basic
/-!
# The archive codec

An entry is archived as the record of its key, its time and its state; every entry has an archive.
-/

namespace ReplicatedStore

instance {σ : Type} [Archive σ] : Archive (Stamped σ) :=
  Archive.via (fun s : Stamped σ => (s.timestamp, s.state)) fun (timestamp, state) => ⟨timestamp, state⟩

instance {κ σ : Type} [Archive κ] [Archive σ] : Archive (Entry κ σ) :=
  Archive.via (fun e : Entry κ σ => (e.key, e.timestamp, e.state))
    fun (key, timestamp, state) => ⟨key, timestamp, state⟩

namespace EntryCodec

def archived (κ σ : Type) [Archive κ] [Archive σ] : EntryCodec κ σ where
  encode e := .ok (Archive.encode e)
  decode bs := match Archive.decode bs with
    | some e => .ok e
    | none => .error (.decode "Buffer is not a valid entry archive")

end EntryCodec

end ReplicatedStore
