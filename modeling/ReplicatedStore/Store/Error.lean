import ReplicatedStore.Codec.Basic
/-!
# Store errors

The reasons for which a store refuses a request, with the text reported for each, and the refusals of
the file system that a file store passes on.
-/

namespace ReplicatedStore

inductive FolderError where
  | notFound
  | alreadyExists
  | notDirectory
  | isDirectory
deriving DecidableEq, Repr

namespace FolderError

def message : FolderError → String
  | notFound => "No such file or directory (os error 2)"
  | alreadyExists => "File exists (os error 17)"
  | notDirectory => "Not a directory (os error 20)"
  | isDirectory => "Is a directory (os error 21)"

end FolderError

/-- Why a store refused a request. -/
inductive StoreError where
  | io (reason : String)
  | codec (cause : CodecError)
  | corrupted (reason : String)
  | aborted (reason : String)
  | unavailable (reason : String)
  | remote (reason : String)
deriving DecidableEq, Repr

namespace StoreError

def kind : StoreError → String
  | io _ => "Io"
  | codec _ => "Codec"
  | corrupted _ => "Corrupted"
  | aborted _ => "Aborted"
  | unavailable _ => "Unavailable"
  | remote _ => "Remote"

/-- The error of a kind with the given reason; a codec's error is named by its own kind. -/
def ofKind? (kind reason : String) : Option StoreError :=
  [io reason, codec (.encode reason), codec (.decode reason), corrupted reason, aborted reason,
    unavailable reason, remote reason].find? fun e =>
      match e with
      | codec cause => cause.kind == kind
      | _ => e.kind == kind

def message : StoreError → String
  | io reason => reason
  | codec cause => cause.message
  | corrupted reason => s!"Storage data is corrupted: {reason}"
  | aborted reason => s!"Operation was aborted: {reason}"
  | unavailable reason => s!"Storage is unavailable: {reason}"
  | remote reason => s!"Remote storage returned an error: {reason}"

def ofFolder (cause : FolderError) : StoreError := io cause.message

end StoreError

end ReplicatedStore
