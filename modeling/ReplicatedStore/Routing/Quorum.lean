/-!
# Quorums

How many members of a replica set must succeed for an operation to succeed.
-/

namespace ReplicatedStore

/-- How many members of a replica set must succeed. -/
inductive Quorum where
  | one
  | majority
  | all
  | atLeast (n : Nat)
deriving DecidableEq, Repr

namespace Quorum

/-- The number of members out of `replicas` that must succeed: at least one, and at most all. -/
def required (quorum : Quorum) (replicas : Nat) : Nat :=
  let wanted := match quorum with
    | one => 1
    | majority => replicas / 2 + 1
    | all => replicas
    | atLeast n => n
  min (max 1 wanted) replicas

def isSatisfied (quorum : Quorum) (healthy replicas : Nat) : Bool := quorum.required replicas ≤ healthy

end Quorum

end ReplicatedStore
