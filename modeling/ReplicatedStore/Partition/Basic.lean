import ReplicatedStore.Partition.Address
import ReplicatedStore.Routing.Fingerprint
import ReplicatedStore.Text.Quoted
/-!
# Partitions

A partition is identified by a group and an id. The addresses at which it can be reached are not part
of its identity. Its text is `group|id|storage address|control address`.
-/

namespace ReplicatedStore

/-- What tells partitions apart; identities are ordered by group, then by id. -/
structure PartitionId where
  group : String
  id : String
deriving DecidableEq, Repr, Ord

namespace PartitionId

/-- The hash of the id alone: it is the same for equal ids in different groups. -/
def idHash (partition : PartitionId) : UInt32 := hash32 partition.id

def identityHash (partition : PartitionId) : UInt32 := hash32 (partition.group, partition.id)

def name (partition : PartitionId) : String := partition.group ++ "|" ++ partition.id

def label (partition : PartitionId) : String := partition.group ++ "/" ++ partition.id

private theorem compare_eq_compareLex :
    (compare : PartitionId → PartitionId → Ordering) = compareLex (compareOn group) (compareOn id) := by
  funext a b
  change (compare a.group b.group).then ((compare a.id b.id).then .eq) =
    (compare a.group b.group).then (compare a.id b.id)
  cases compare a.id b.id <;> rfl

instance : Std.TransOrd PartitionId := by
  unfold Std.TransOrd
  rw [compare_eq_compareLex]
  infer_instance

instance : Std.LawfulEqOrd PartitionId where
  eq_of_compare {a b} h := by
    rw [compare_eq_compareLex, compareLex_eq_eq] at h
    have hgroup : a.group = b.group := Std.LawfulEqOrd.eq_of_compare h.1
    have hid : a.id = b.id := Std.LawfulEqOrd.eq_of_compare h.2
    cases a
    cases b
    subst hgroup hid
    rfl

end PartitionId

instance : Fingerprint PartitionId := ⟨fun p => Fingerprint.feed (p.group, p.id)⟩

structure Partition where
  identity : PartitionId
  storage : Option SocketAddress
  control : Option SocketAddress
deriving DecidableEq, Repr

instance : Ord Partition := ⟨fun a b => compare a.identity b.identity⟩

instance : Std.TransOrd Partition :=
  inferInstanceAs (Std.TransCmp (compareOn Partition.identity))

inductive PartitionError where
  | tooManySegments (count : Nat)
  | missingId
  | invalidAddress (address : String) (fault : SocketAddress.Fault)
deriving DecidableEq, Repr

namespace PartitionError

def kind : PartitionError → String
  | tooManySegments _ => "TooManySegments"
  | missingId => "MissingId"
  | invalidAddress _ _ => "InvalidAddress"

def message : PartitionError → String
  | tooManySegments count => s!"Partition string has {count} segments, expected at most 4"
  | missingId => "Partition string is missing the partition id"
  | invalidAddress address fault =>
    "Invalid partition address " ++ Text.quoted address ++ ": " ++ fault.message

end PartitionError

namespace Partition

def printAddress : Option SocketAddress → String
  | none => ""
  | some address => address.print

def print (p : Partition) : String :=
  p.identity.name ++ "|" ++ printAddress p.storage ++ "|" ++ printAddress p.control

def parseAddress (resolver : SocketAddress.Resolver) (segment : List Char) :
    Except PartitionError (Option SocketAddress) :=
  let cs := Text.trimmed segment
  if cs.isEmpty then .ok none
  else
    match SocketAddress.read resolver cs with
    | .ok address => .ok (some address)
    | .error fault => .error (.invalidAddress (String.ofList cs) fault)

/-- The partition with the given text, in which the addresses may be left out. -/
def parse (resolver : SocketAddress.Resolver) (text : String) : Except PartitionError Partition :=
  match Text.split '|' text.toList with
  | [] => .error .missingId
  | [_] => .error .missingId
  | group :: id :: addresses =>
    if 2 < addresses.length then .error (.tooManySegments (addresses.length + 2))
    else do
      let storage ← parseAddress resolver (addresses[0]?.getD [])
      let control ← parseAddress resolver (addresses[1]?.getD [])
      return ⟨⟨String.ofList group, String.ofList id⟩, storage, control⟩

def sameAddresses (a b : Partition) : Bool := a.storage == b.storage && a.control == b.control

end Partition

end ReplicatedStore
