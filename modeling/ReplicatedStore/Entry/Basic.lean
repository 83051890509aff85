/-!
# Entries and merge functions

An entry is a key with a state and the time of its latest change. A merge function joins two states
of one key and may drop what lies before a horizon. `Entry.merge` and `Entry.extract` lift both to
entries; they are the only ways in which stores and reads combine entries.
-/

namespace ReplicatedStore

/-- How two states of one key are joined, and which part of a state lies at or after a horizon. -/
structure MergeFunction (σ : Type) where
  /-- Joins the state held so far with a state that arrives. -/
  merge : σ → σ → σ
  /-- What remains of the state at the horizon, if anything does. -/
  extract : σ → UInt64 → Option σ

/-- A key with its state and the time of its latest change. -/
structure Entry (κ σ : Type) where
  key : κ
  timestamp : UInt64
  state : σ
deriving DecidableEq, Repr

namespace Entry

variable {κ σ : Type}

def merge (f : MergeFunction σ) (held arriving : Entry κ σ) : Entry κ σ where
  key := held.key
  timestamp := max held.timestamp arriving.timestamp
  state := f.merge held.state arriving.state

def extract (f : MergeFunction σ) (horizon : UInt64) (e : Entry κ σ) : Option (Entry κ σ) :=
  if e.timestamp < horizon then none
  else (f.extract e.state horizon).map fun s => { e with state := s }

/-- Joins a nonempty run of entries of one key, from left to right. -/
def mergeAll (f : MergeFunction σ) (first : Entry κ σ) (rest : List (Entry κ σ)) : Entry κ σ :=
  rest.foldl (merge f) first

@[simp] theorem key_merge (f : MergeFunction σ) (a b : Entry κ σ) : (merge f a b).key = a.key := rfl

@[simp] theorem timestamp_merge (f : MergeFunction σ) (a b : Entry κ σ) :
    (merge f a b).timestamp = max a.timestamp b.timestamp := rfl

@[simp] theorem state_merge (f : MergeFunction σ) (a b : Entry κ σ) :
    (merge f a b).state = f.merge a.state b.state := rfl

end Entry

namespace MergeFunction

variable {σ : Type}

def ignoringTime (combine : σ → σ → σ) : MergeFunction σ where
  merge := combine
  extract s _ := some s

end MergeFunction

/-- A state together with the time of its own latest change. -/
structure Stamped (σ : Type) where
  timestamp : UInt64
  state : σ
deriving DecidableEq, Repr

/-- Joins the states by `combine`, keeps the later time, and drops states from before the horizon. -/
def MergeFunction.stamped {σ : Type} (combine : σ → σ → σ) : MergeFunction (Stamped σ) where
  merge a b := ⟨max a.timestamp b.timestamp, combine a.state b.state⟩
  extract s horizon := if s.timestamp < horizon then none else some s

end ReplicatedStore
