import ReplicatedStore.Routing.Bucket
import ReplicatedStore.Routing.Fingerprint
/-!
# Rendezvous hashing

Each bucket ranks all members by a hash of member and bucket, and is owned by the members of highest
rank. Members are numbered in sorted order when the sharder is created, and keep their numbers when
others are dropped, so that dropping a member changes only the buckets it owned.
-/

namespace ReplicatedStore

def keepLast {α : Type} [Ord α] : List α → List α
  | [] => []
  | [a] => [a]
  | a :: b :: rest => if compare a b = .eq then keepLast (b :: rest) else a :: keepLast (b :: rest)

/-- The items of a list in ascending order, each once; of equal items the last is kept. -/
def sortedDistinct {α : Type} [Ord α] (items : List α) : List α :=
  keepLast (items.mergeSort fun a b => (compare a b).isLE)

/-- Mixes the hash of a member with a bucket number, so that the ranks in one bucket say nothing about
the ranks in another. -/
def combinedHash (memberHash bucket : UInt32) : UInt32 :=
  let k := memberHash.toUInt64 <<< 32 ||| bucket.toUInt64
  let k := (k ^^^ k >>> 33) * 0xff51afd7ed558ccd
  let k := (k ^^^ k >>> 33) * 0xc4ceb9fe1a85ec53
  let k := k ^^^ k >>> 33
  (k ^^^ k >>> 32).toUInt32

/-- A member with its number and hash. -/
structure RankedMember (π : Type) where
  member : π
  index : Nat
  hash : UInt32
deriving DecidableEq, Repr

/-- The owners of each bucket, as numbers of members. -/
inductive OwnerTable where
  | everyone (owners : List Nat)
  | ranked (rows : Array (List Nat))
deriving DecidableEq, Repr

/-- The members among which buckets are shared, and the owners of each bucket. -/
structure Rendezvous (π : Type) where
  members : List (RankedMember π)
  width : Nat
  table : OwnerTable
deriving Repr

namespace Rendezvous

variable {π : Type}

/-- Whether the first of two hashes with numbers ranks at least as high: by hash, then by number. -/
def ranksBefore (a b : UInt32 × Nat) : Bool := b.1 < a.1 || (a.1 == b.1 && a.2 ≤ b.2)

def ranking (members : List (RankedMember π)) (bucket : Nat) : List Nat :=
  let hashed := members.map fun m => (combinedHash m.hash (UInt32.ofNat bucket), m.index)
  (hashed.mergeSort ranksBefore).map Prod.snd

def ownerTable (members : List (RankedMember π)) (width : Nat) : OwnerTable :=
  if members.length ≤ width then .everyone (members.map RankedMember.index)
  else .ranked (Array.ofFn fun bucket : Bucket => (ranking members bucket).take width)

def ofMembers (members : List (RankedMember π)) (width : Nat) : Rendezvous π :=
  ⟨members, width, ownerTable members width⟩

def create [Ord π] (members : List π) (width : Nat) (hash : π → UInt32) : Rendezvous π :=
  ofMembers ((sortedDistinct members).zipIdx.map fun (m, index) => ⟨m, index, hash m⟩) width

def recompute (sharder : Rendezvous π) (alive : π → Bool) : Bool × Rendezvous π :=
  let kept := sharder.members.filter fun m => alive m.member
  if kept.length = sharder.members.length then (false, sharder)
  else (true, ofMembers kept sharder.width)

def owners (sharder : Rendezvous π) (bucket : Bucket) : List Nat :=
  match sharder.table with
  | .everyone owners => owners
  | .ranked rows => rows[bucket.val]?.getD []

/-- The owners for any bucket number, where the table has an answer: it has one for numbers that are
no bucket if all owners are alike, because every member is one or none is. -/
def owners? (sharder : Rendezvous π) (number : Nat) : Option (List Nat) :=
  match sharder.table with
  | .everyone owners => some owners
  | .ranked rows => if sharder.width = 0 then some [] else rows[number]?

def ownersOf (sharder : Rendezvous π) (keyHash : UInt32) : List Nat :=
  sharder.owners (Bucket.ofHash keyHash)

def member? (sharder : Rendezvous π) (index : Nat) : Option π :=
  (sharder.members.find? fun m => m.index == index).map RankedMember.member

def indexOf? [DecidableEq π] (sharder : Rendezvous π) (member : π) : Option Nat :=
  (sharder.members.find? fun m => m.member = member).map RankedMember.index

def memberList (sharder : Rendezvous π) : List π := sharder.members.map RankedMember.member

def size (sharder : Rendezvous π) : Nat := sharder.members.length

def isPredefined (sharder : Rendezvous π) : Bool :=
  match sharder.table with
  | .everyone _ => true
  | .ranked _ => false

def rows (sharder : Rendezvous π) : List (List Nat) := Bucket.all.map sharder.owners

/-- How many buckets each owner has, and in how many of them it ranks first. -/
def loads (sharder : Rendezvous π) : List (Nat × Nat × Nat) :=
  let owners := sharder.rows.flatten
  let heads := sharder.rows.filterMap List.head?
  (sortedDistinct owners).map fun owner => (owner, owners.count owner, heads.count owner)

def digest (sharder : Rendezvous π) : UInt32 :=
  Bytes.crc32 (sharder.rows.flatten.flatMap (Bytes.ofNat 4))

end Rendezvous

end ReplicatedStore
