import ReplicatedStore.Entry.Basic
/-!
# Combining lists of numbers

The state joins on lists of 64 bit numbers, and the merge function each gives in the two modes: with
the container's time taken into account, or ignored.
-/

namespace ReplicatedStore

/-- The state that entries carry here: numbers with the time of their latest change. -/
abbrev Values := Stamped (List Int64)

inductive Combiner where
  | union
  | max
  | sum
  | concat
  | first
  | second
deriving DecidableEq, Repr

namespace Combiner

def insertAscending (x : Int64) : List Int64 → List Int64
  | [] => [x]
  | y :: ys => if x < y then x :: y :: ys else if x = y then y :: ys else y :: insertAscending x ys

def ascending (xs : List Int64) : List Int64 := xs.foldr insertAscending []

def precedes : List Int64 → List Int64 → Bool
  | [], [] => false
  | [], _ :: _ => true
  | _ :: _, [] => false
  | x :: xs, y :: ys => if x < y then true else if y < x then false else precedes xs ys

def addPadded : List Int64 → List Int64 → List Int64
  | [], ys => ys
  | xs, [] => xs
  | x :: xs, y :: ys => (x + y) :: addPadded xs ys

def combine : Combiner → List Int64 → List Int64 → List Int64
  | union, a, b => ascending (a ++ b)
  | max, a, b => if precedes b a then a else b
  | sum, a, b => addPadded a b
  | concat, a, b => a ++ b
  | first, a, _ => a
  | second, _, b => b

def stamped (c : Combiner) : MergeFunction Values := MergeFunction.stamped c.combine

/-- The merge function that keeps the held container's time and has no horizon. -/
def timeless (c : Combiner) : MergeFunction Values :=
  .ignoringTime fun a b => ⟨a.timestamp, c.combine a.state b.state⟩

def ofName? : String → Option Combiner
  | "union" => some union
  | "max" => some max
  | "sum" => some sum
  | "concat" => some concat
  | "first" => some first
  | "second" => some second
  | _ => none

end Combiner

/-- The merge function that a text names: the mode, a colon, and the combiner. -/
def MergeFunction.ofText? (text : String) : Option (MergeFunction Values) :=
  match text.splitOn ":" with
  | ["ts", name] => (Combiner.ofName? name).map Combiner.stamped
  | ["plain", name] => (Combiner.ofName? name).map Combiner.timeless
  | _ => none

end ReplicatedStore
