import ReplicatedStore.Config.Error
import ReplicatedStore.Routing.Rendezvous
import Std.Data.TreeMap
/-!
# Configuration sources

A flat map of keys and values, as read from property text: one `key=value` a line, with blank lines
and lines that start with `#` left out.
-/

namespace ReplicatedStore

structure ConfigSource where
  values : Std.TreeMap String String

namespace ConfigSource

/-- The source of some pairs; the last value of a key counts. -/
def ofPairs (pairs : List (String × String)) : ConfigSource :=
  ⟨pairs.foldl (fun values (key, value) => values.insert key value) ∅⟩

def parseLine (line : List Char) : Except ConfigError (Option (String × String)) :=
  let line := Text.trimmed line
  if line.isEmpty ∨ line.head? = some '#' then .ok none
  else
    match Text.splitFirst? '=' line with
    | none => .error (.invalidValue (String.ofList line) "")
    | some (key, value) =>
      .ok (some (String.ofList (Text.trimmed key), String.ofList (Text.trimmed value)))

def parseLines : List (List Char) → Except ConfigError (List (String × String))
  | [] => .ok []
  | line :: lines => do
    let setting ← parseLine line
    let settings ← parseLines lines
    return setting.toList ++ settings

def parse (text : String) : Except ConfigError ConfigSource :=
  (parseLines (Text.split '\n' text.toList)).map ofPairs

def get? (source : ConfigSource) (key : String) : Option String := source.values[key]?

/-- The value of a key as it is read, or the default if the key is absent. -/
def getOr {α : Type} (source : ConfigSource) (read : String → Option α) (key : String) (default : α) :
    Except ConfigError α :=
  match source.get? key with
  | none => .ok default
  | some value =>
    match read value with
    | some a => .ok a
    | none => .error (.invalidValue key value)

/-! ### Reading values -/

def readBool (text : String) : Option Bool :=
  if text = "true" then some true else if text = "false" then some false else none

def readChar (text : String) : Option Char :=
  match text.toList with
  | [c] => some c
  | _ => none

def readUnsigned (bits : Nat) (text : String) : Option Nat := Text.unsigned? (1 <<< bits) text.toList

def readSigned (bits : Nat) (text : String) : Option Int := Text.signed? (1 <<< (bits - 1)) text.toList

end ConfigSource

end ReplicatedStore
