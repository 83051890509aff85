import ReplicatedStore.Store.Basic
import ReplicatedStore.Store.Folder
import ReplicatedStore.Store.Runs
import ReplicatedStore.Store.Segment
/-!
# The store in files

Every upload becomes one new segment in a folder, and reads merge all segments. Consolidation replaces
the segments that no open take has read by one. A take claims the segments it read until it is
committed or dropped; committing it removes exactly these.
-/

namespace ReplicatedStore

/-- The claim of a take: the segments it read, and the opening of the store it belongs to. -/
structure SegmentClaim where
  opening : Nat
  segments : List String
deriving DecidableEq, Repr

structure FileStore where
  path : String
  folder : Folder
  /-- Which opening of the folder this is. -/
  opening : Nat
  /-- The number of open takes that read each segment. -/
  claims : Std.TreeMap String Nat
  /-- The number of segments written since the store was opened. -/
  nextId : Nat
  clock : Nat
  salt : UInt32

namespace FileStore

variable {κ σ : Type}

/-- Opens the store in a folder: the folder is made if need be, and what an interrupted write left is
removed. -/
def openFolder (path : String) (opening clock : Nat) (salt : UInt32) (folder : Folder) :
    Except StoreError FileStore × Folder :=
  match folder.create with
  | .error e => (.error (.ofFolder e), folder)
  | .ok made =>
    match made.withExtension "tmp" with
    | .error e => (.error (.ofFolder e), made)
    | .ok leftovers =>
      match made.run (leftovers.map .discard) with
      | (.error e, cleaned) => (.error (.ofFolder e), cleaned)
      | (.ok (), cleaned) => (.ok ⟨path, cleaned, opening, ∅, 0, clock, salt⟩, cleaned)

/-- Opens the folder of a store again; takes of earlier openings no longer claim anything. -/
def reopen (store : FileStore) : Except StoreError Unit × FileStore :=
  match openFolder store.path (store.opening + 1) store.clock store.salt store.folder with
  | (.ok fresh, _) => (.ok (), fresh)
  | (.error e, folder) => (.error e, { store with folder })

def tamper (change : Folder → Except FolderError Folder) (store : FileStore) :
    Except StoreError Unit × FileStore :=
  match change store.folder with
  | .ok folder => (.ok (), { store with folder })
  | .error e => (.error (.ofFolder e), store)

def segments (store : FileStore) : Except StoreError (List String) :=
  (store.folder.withExtension "seg").mapError .ofFolder

def readSegment (codec : EntryCodec κ σ) (store : FileStore) (name : String) :
    Except StoreError (List (Entry κ σ)) :=
  match store.folder.read name with
  | .error e => .error (.ofFolder e)
  | .ok content =>
    match Segment.read codec content with
    | .ok entries => .ok entries
    | .error (.damaged fault) => .error (.corrupted (store.path ++ "/" ++ name ++ ": " ++ fault.message))
    | .error (.undecodable cause) => .error (.codec cause)

/-- The entries of segments in the order of their names, until one cannot be read. -/
def readSegments (codec : EntryCodec κ σ) (store : FileStore) :
    List String → Except StoreError (List (List (Entry κ σ)))
  | [] => .ok []
  | name :: names => do
    let entries ← store.readSegment codec name
    let rest ← store.readSegments codec names
    return entries :: rest

def readMerged [Ord κ] (f : MergeFunction σ) (codec : EntryCodec κ σ) (store : FileStore)
    (names : List String) : Except StoreError (List (Entry κ σ)) :=
  (store.readSegments codec names).map fun contents => coalesce f (mergeRuns contents)

/-- The steps that write a segment: under a temporary name first, so that a finished segment is
always whole. -/
def writeSteps (name : SegmentName) (content : Bytes) : List FolderStep :=
  [.write name.temporary content, .rename name.temporary name.file]

def nextName (store : FileStore) : SegmentName := ⟨store.clock, store.nextId, store.salt⟩

def runWriting (store : FileStore) (steps : List FolderStep) : Except StoreError Unit × FileStore :=
  let (result, folder) := store.folder.run steps
  (result.mapError .ofFolder,
    { store with folder, nextId := store.nextId + 1, clock := store.clock + 1 })

/-- The entries an upload writes: sorted by key, entries of one key joined in the order of arrival. -/
def arranged [Ord κ] (f : MergeFunction σ) (entries : List (Entry κ σ)) : List (Entry κ σ) :=
  coalesce f (sortByKey entries)

def upload [Ord κ] (f : MergeFunction σ) (codec : EntryCodec κ σ) (feed : Feed κ σ)
    (store : FileStore) : Except StoreError Unit × FileStore :=
  match feed.collect with
  | .error e => (.error e, store)
  | .ok [] => (.ok (), store)
  | .ok entries =>
    match Segment.write codec (arranged f entries) with
    | .error cause => (.error (.codec cause), store)
    | .ok content => store.runWriting (writeSteps store.nextName content)

def unclaimed (store : FileStore) (names : List String) : List String :=
  names.filter fun name => !store.claims.contains name

def replaceSteps (store : FileStore) (content : Bytes) (replaced : List String) : List FolderStep :=
  writeSteps store.nextName content ++ replaced.map .discard

/-- Merges the segments that no open take has read into one, and counts them; a single segment is
left alone. -/
def consolidate [Ord κ] (f : MergeFunction σ) (codec : EntryCodec κ σ) (store : FileStore) :
    Except StoreError Nat × FileStore :=
  match store.segments with
  | .error e => (.error e, store)
  | .ok names =>
    let free := store.unclaimed names
    if free.length ≤ 1 then (.ok 0, store)
    else
      match store.readMerged f codec free with
      | .error e => (.error e, store)
      | .ok merged =>
        match Segment.write codec merged with
        | .error cause => (.error (.codec cause), store)
        | .ok content =>
          let (result, after) := store.runWriting (store.replaceSteps content free)
          (result.map fun _ => free.length, after)

def contents [Ord κ] (f : MergeFunction σ) (codec : EntryCodec κ σ) (store : FileStore) :
    Except StoreError (List (Entry κ σ)) :=
  store.segments.bind (store.readMerged f codec)

def since [Ord κ] (f : MergeFunction σ) (codec : EntryCodec κ σ) (store : FileStore)
    (horizon : UInt64) : Except StoreError (List (Entry κ σ)) :=
  (store.contents f codec).map fun entries => entries.filterMap (Entry.extract f horizon)

def claim (claims : Std.TreeMap String Nat) (name : String) : Std.TreeMap String Nat :=
  claims.insert name (claims.getD name 0 + 1)

def unclaim (claims : Std.TreeMap String Nat) (name : String) : Std.TreeMap String Nat :=
  match claims[name]? with
  | none => claims
  | some count => if count ≤ 1 then claims.erase name else claims.insert name (count - 1)

def take [Ord κ] (f : MergeFunction σ) (codec : EntryCodec κ σ) (store : FileStore) :
    Except StoreError (List (Entry κ σ) × SegmentClaim) × FileStore :=
  match store.segments with
  | .error e => (.error e, store)
  | .ok names =>
    match store.readMerged f codec names with
    | .error e => (.error e, store)
    | .ok merged =>
      (.ok (merged, ⟨store.opening, names⟩), { store with claims := names.foldl claim store.claims })

/-- Gives up a claim. Claims of an earlier opening are forgotten already. -/
def release (claimed : SegmentClaim) (store : FileStore) : FileStore :=
  if claimed.opening = store.opening then
    { store with claims := claimed.segments.foldl unclaim store.claims }
  else store

def commit (claimed : SegmentClaim) (store : FileStore) : Except StoreError Unit × FileStore :=
  let (result, folder) := store.folder.run (claimed.segments.map .discard)
  (result.mapError .ofFolder, { store with folder }.release claimed)

def ping (store : FileStore) : Except StoreError Unit :=
  match store.folder with
  | .items _ => .ok ()
  | .file => .error (.unavailable (store.path ++ " is not a directory"))
  | .absent => .error (.ofFolder .notFound)
  | .blocked => .error (.ofFolder .notDirectory)

def requests [Ord κ] (f : MergeFunction σ) (codec : EntryCodec κ σ) :
    Store FileStore SegmentClaim κ σ where
  upload := upload f codec
  intake feed _ := feed.firstError
  download horizon store := ((store.since f codec horizon).map .ofEntries, store)
  take store :=
    let (result, after) := store.take f codec
    (result.map fun (entries, claimed) => (.ofEntries entries, claimed), after)
  commit claimed _ := commit claimed
  release := release
  ping store := (store.ping, store)
  interruption _ := .never

end FileStore

end ReplicatedStore
