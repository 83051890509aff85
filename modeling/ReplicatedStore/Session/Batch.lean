import ReplicatedStore.Store.Basic
import ReplicatedStore.Wire.Message
/-!
# Batches of encoded entries

A feed crosses a connection as batches of a fixed number of encoded entries, with a smaller last batch.
If an item of the feed is an error or has no encoding, only the batches filled before it are sent.
-/

namespace ReplicatedStore

variable {κ σ : Type}

def defaultBatchSize : Nat := 256

namespace Feed

def encodeItems (codec : EntryCodec κ σ) : Feed κ σ → List Bytes × Option StoreError
  | [] => ([], none)
  | .error e :: _ => ([], some e)
  | .ok entry :: rest =>
    match codec.encode entry with
    | .error cause => ([], some (.codec cause))
    | .ok bytes =>
      let (more, failure) := encodeItems codec rest
      (bytes :: more, failure)

/-- Cuts a list into pieces of `size` items, the last of which may be smaller. No size is taken for one. -/
def pieces {α : Type} (size : Nat) : List α → List (List α)
  | [] => []
  | item :: items => (item :: items.take (size - 1)) :: pieces size (items.drop (size - 1))
termination_by items => items.length
decreasing_by simp only [List.length_drop, List.length_cons]; omega

def batches (codec : EntryCodec κ σ) (size : Nat) (feed : Feed κ σ) :
    List Frame × Option StoreError :=
  let (encoded, failure) := feed.encodeItems codec
  let cut := pieces size encoded
  let sent := if failure.isSome then cut.filter fun batch => batch.length == max 1 size else cut
  (sent.map fun batch => (Message.entryBatch batch).frame, failure)

def ofBatch (codec : EntryCodec κ σ) (batch : List Bytes) : Feed κ σ :=
  batch.map fun bytes => (codec.decode bytes).mapError .codec

end Feed

namespace StoreError

def status : StoreError → Status
  | unavailable reason => .unavailable reason
  | e => .handlerFailed e.message

def ofStatus (status : Status) : StoreError :=
  if status.isConnectionError then unavailable status.text else remote status.message

end StoreError

end ReplicatedStore
