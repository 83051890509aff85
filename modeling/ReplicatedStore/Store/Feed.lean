import ReplicatedStore.Store.Error
/-!
# Feeds

A feed is a finite run of entries in which errors may stand; it is what flows into an upload and out of
a read. An open feed is polled for its items one after the other. Where it comes from may interrupt it
between two polls: then the next poll fails, whatever the feed holds, even at its end.
-/

namespace ReplicatedStore

variable {κ σ : Type}

/-- Entries on their way into or out of a store. -/
abbrev Feed (κ σ : Type) := List (Except StoreError (Entry κ σ))

/-- The error with which a poll fails after some items, if it is interrupted. -/
abbrev Interruption := Nat → Option StoreError

namespace Interruption

def never : Interruption := fun _ => none

def fromItem (error : StoreError) (count : Nat) : Interruption :=
  fun polled => if count ≤ polled then some error else none

end Interruption

namespace Feed

def ofEntries (entries : List (Entry κ σ)) : Feed κ σ := entries.map .ok

def collect : Feed κ σ → Except StoreError (List (Entry κ σ))
  | [] => .ok []
  | .error e :: _ => .error e
  | .ok entry :: rest => (collect rest).map (entry :: ·)

/-- The number of items up to the first error, which is counted too; `none` if there is no error. -/
def firstError : Feed κ σ → Option Nat
  | [] => none
  | .error _ :: _ => some 1
  | .ok _ :: rest => (firstError rest).map (· + 1)

def interrupted (interruption : Interruption) (polled : Nat) (feed : Feed κ σ) : Feed κ σ :=
  match interruption polled, feed with
  | some cause, _ => [.error cause]
  | none, [] => []
  | none, item :: rest => item :: interrupted interruption (polled + 1) rest

@[simp] theorem collect_ofEntries (entries : List (Entry κ σ)) :
    collect (ofEntries entries) = .ok entries := by
  induction entries with
  | nil => rfl
  | cons e es ih =>
    have : ofEntries (e :: es) = .ok e :: ofEntries es := rfl
    rw [this, collect, ih]
    rfl

@[simp] theorem interrupted_never (polled : Nat) (feed : Feed κ σ) :
    feed.interrupted .never polled = feed := by
  induction feed generalizing polled with
  | nil => rfl
  | cons item rest ih => exact congrArg (item :: ·) (ih (polled + 1))

end Feed

inductive Polled (κ σ : Type) where
  | entry (entry : Entry κ σ)
  | failed (cause : StoreError)
  | ended
  | closed

structure OpenFeed (κ σ : Type) where
  rest : Option (Feed κ σ)
  polled : Nat

namespace OpenFeed

def ofFeed (feed : Feed κ σ) : OpenFeed κ σ := ⟨some feed, 0⟩

def closed (feed : OpenFeed κ σ) : OpenFeed κ σ := { feed with rest := none }

def poll (interruption : Interruption) (feed : OpenFeed κ σ) : Polled κ σ × OpenFeed κ σ :=
  match feed.rest with
  | none => (.closed, feed)
  | some items =>
    match interruption feed.polled, items with
    | some cause, _ => (.failed cause, feed.closed)
    | none, [] => (.ended, feed.closed)
    | none, .error cause :: _ => (.failed cause, feed.closed)
    | none, .ok entry :: rest => (.entry entry, ⟨some rest, feed.polled + 1⟩)

def pending (feed : OpenFeed κ σ) : Nat := (feed.rest.getD []).length

end OpenFeed

end ReplicatedStore
