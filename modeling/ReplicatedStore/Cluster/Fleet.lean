import ReplicatedStore.Partition.Basic
import ReplicatedStore.Session.Remote
import Std.Data.TreeMap
/-!
# Fleets

The stores of all partitions as one state, in which each partition's store is found by its name
`group|id`. A store is in its first state until something happens to it.
-/

namespace ReplicatedStore

/-- The states of stores by name. -/
structure Fleet (ν : Type) where
  initial : String → ν
  known : Std.TreeMap String ν

namespace Fleet

variable {ν ρ κ σ : Type}

def ofInitial (initial : String → ν) : Fleet ν := ⟨initial, ∅⟩

def get (fleet : Fleet ν) (name : String) : ν := fleet.known.getD name (fleet.initial name)

def set (name : String) (state : ν) (fleet : Fleet ν) : Fleet ν :=
  { fleet with known := fleet.known.insert name state }

def modify (name : String) (change : ν → ν) (fleet : Fleet ν) : Fleet ν :=
  fleet.set name (change (fleet.get name))

def enlist (names : List String) (fleet : Fleet ν) : Fleet ν :=
  names.foldl (fun fleet name => fleet.modify name id) fleet

def toList (fleet : Fleet ν) : List (String × ν) := fleet.known.toList

def member (store : Store ν ρ κ σ) (name : String) : Store (Fleet ν) ρ κ σ :=
  store.focus (fun fleet => fleet.get name) (set name)

end Fleet

/-- How the stores of partitions are reached over connections. -/
structure RemoteNetwork (κ σ : Type) where
  codec : EntryCodec κ σ
  options : RemoteOptions

namespace RemoteNetwork

variable {ν ρ κ σ : Type}

def clientAt (network : RemoteNetwork κ σ) (address : SocketAddress) : RemoteClient κ σ :=
  ⟨address.print, network.codec, network.options⟩

/-- The client of a partition's store, which is served by `store` and `codec`; there is one if the
partition has a storage address. -/
def client (network : RemoteNetwork κ σ) (store : Store ν ρ κ σ) (codec : EntryCodec κ σ)
    (partition : Partition) : Option (Store (Fleet (Served ν)) (RemoteReceipt ρ κ σ) κ σ) :=
  partition.storage.map fun address =>
    Fleet.member ((network.clientAt address).requests store codec) partition.identity.name

end RemoteNetwork

end ReplicatedStore
