/-!
# Reading numbers

Digits in a base, and the written form of integers: an optional sign and at least one decimal digit.
-/

namespace ReplicatedStore.Text

def digit? (base : Nat) (c : Char) : Option Nat :=
  let value :=
    if '0' ≤ c ∧ c ≤ '9' then some (c.toNat - '0'.toNat)
    else if 'a' ≤ c ∧ c ≤ 'z' then some (c.toNat - 'a'.toNat + 10)
    else if 'A' ≤ c ∧ c ≤ 'Z' then some (c.toNat - 'A'.toNat + 10)
    else none
  value.filter (· < base)

/-- The number with the given digits, of which there must be one. -/
def ofDigits? (base : Nat) : List Char → Option Nat
  | [] => none
  | cs => cs.foldlM (fun n c => (digit? base c).map (n * base + ·)) 0

def unsigned? (bound : Nat) (cs : List Char) : Option Nat :=
  let digits := match cs with
    | '+' :: rest => rest
    | _ => cs
  (ofDigits? 10 digits).filter (· < bound)

/-- A number from `-bound` up to but not including `bound`, with an optional sign. -/
def signed? (bound : Nat) (cs : List Char) : Option Int :=
  match cs with
  | '-' :: digits => ((ofDigits? 10 digits).filter (· ≤ bound)).map fun n => -(n : Int)
  | _ => (unsigned? bound cs).map Int.ofNat

end ReplicatedStore.Text
