import ReplicatedStore.Store.Error
import ReplicatedStore.Bytes.LittleEndian
import ReplicatedStore.Text.Blank
import Std.Data.TreeMap
/-!
# Folders

What is found at the path of a folder: nothing, a file, or items. Items are found by their paths within
the folder, among them what the folders in it hold. Folders change by three atomic steps: writing a file,
renaming one, removing one. A run of steps ends at the first that is refused, which leaves the steps
before it in effect.
-/

namespace ReplicatedStore

inductive FolderItem where
  | file (content : Bytes)
  | folder
deriving DecidableEq, Repr

inductive Folder where
  /-- Nothing is there; the folders above can be made. -/
  | absent
  /-- A part of the path above is a file. -/
  | blocked
  | file
  | items (named : Std.TreeMap String FolderItem)

/-- The atomic changes of a folder. -/
inductive FolderStep where
  | write (path : String) (content : Bytes)
  | rename (source target : String)
  | discard (name : String)
deriving DecidableEq, Repr

namespace Folder

/-- The extension of a file name: what follows its last dot, unless nothing precedes the dot. -/
def extension? (name : String) : Option String :=
  match Text.splitLast? '.' name.toList with
  | none => none
  | some (before, after) => if before.isEmpty then none else some (String.ofList after)

def beginnings : List Char → List (List Char)
  | [] => []
  | c :: cs =>
    let longer := (beginnings cs).map (c :: ·)
    if c = '/' then [] :: longer else longer

def leading (path : String) : List String := (beginnings path.toList).map String.ofList

def isName (path : String) : Bool := !path.toList.contains '/'

def insertItem (named : Std.TreeMap String FolderItem) (path : String) (item : FolderItem) :
    Std.TreeMap String FolderItem :=
  ((leading path).foldl (fun named path => named.insert path .folder) named).insert path item

def ofItems (list : List (String × FolderItem)) : Folder :=
  items (list.foldl (fun named (path, item) => insertItem named path item) ∅)

/-- What is found at the path `below` within a folder that holds the given items by their paths. The
folder itself is meant by the empty path. -/
def within (list : List (String × FolderItem)) (below : String) : Folder :=
  if below.isEmpty then ofItems list
  else
    let inside := list.filterMap fun (path, item) =>
      if path.startsWith (below ++ "/") then some ((path.drop (below.length + 1)).toString, item)
      else none
    if list.any fun (path, item) => below.startsWith (path ++ "/") && item != .folder then blocked
    else
      match list.lookup below with
      | some (.file _) => file
      | some .folder => ofItems inside
      | none => if inside.isEmpty then absent else ofItems inside

def items? : Folder → Except FolderError (Std.TreeMap String FolderItem)
  | absent => .error .notFound
  | blocked => .error .notDirectory
  | file => .error .notDirectory
  | items named => .ok named

def create : Folder → Except FolderError Folder
  | absent => .ok (items ∅)
  | blocked => .error .notDirectory
  | file => .error .alreadyExists
  | items named => .ok (items named)

def withExtension (extension : String) (folder : Folder) : Except FolderError (List String) :=
  folder.items?.map fun named =>
    named.keys.filter fun path => isName path && extension? path == some extension

def holds (path : String) (folder : Folder) : Bool :=
  match folder with
  | items named => named.contains path
  | _ => false

def itemsThrough (paths : List String) (folder : Folder) :
    Except FolderError (Std.TreeMap String FolderItem) := do
  let named ← folder.items?
  paths.forM fun path =>
    match named[path]? with
    | none => .error .notFound
    | some (.file _) => .error .notDirectory
    | some .folder => .ok ()
  return named

def read (name : String) (folder : Folder) : Except FolderError Bytes := do
  match (← folder.items?)[name]? with
  | none => .error .notFound
  | some .folder => .error .isDirectory
  | some (.file content) => .ok content

def write (path : String) (content : Bytes) (folder : Folder) : Except FolderError Folder := do
  let named ← folder.itemsThrough (leading path)
  if named[path]? = some .folder then .error .isDirectory
  else .ok (items (named.insert path (.file content)))

def edit (name : String) (change : Bytes → Bytes) (folder : Folder) : Except FolderError Folder := do
  folder.write name (change (← folder.read name))

def makeFolder (path : String) (folder : Folder) : Except FolderError Folder := do
  let named ← folder.items?
  let isFile (path : String) : Bool := named[path]?.any fun item => item != .folder
  if (leading path).any isFile then .error .notDirectory
  else if isFile path then .error .alreadyExists
  else .ok (items (insertItem named path .folder))

def place (path : String) (folder : Folder) : FolderItem → Except FolderError Folder
  | .file content => folder.write path content
  | .folder => folder.makeFolder path

def rename (source target : String) (folder : Folder) : Except FolderError Folder := do
  let named ← folder.items?
  match named[source]? with
  | none => .error .notFound
  | some item =>
    if named[target]? = some .folder then .error .isDirectory
    else .ok (items ((named.erase source).insert target item))

def remove (name : String) (folder : Folder) : Except FolderError Folder := do
  let named ← folder.items?
  match named[name]? with
  | none => .error .notFound
  | some .folder => .error .isDirectory
  | some (.file _) => .ok (items (named.erase name))

def discard (name : String) (folder : Folder) : Except FolderError Folder :=
  match folder.remove name with
  | .error .notFound => .ok folder
  | result => result

def apply (folder : Folder) : FolderStep → Except FolderError Folder
  | .write path content => folder.write path content
  | .rename source target => folder.rename source target
  | .discard name => folder.discard name

def run (folder : Folder) : List FolderStep → Except FolderError Unit × Folder
  | [] => (.ok (), folder)
  | step :: steps =>
    match folder.apply step with
    | .ok next => next.run steps
    | .error e => (.error e, folder)

end Folder

end ReplicatedStore
