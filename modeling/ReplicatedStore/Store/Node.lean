import ReplicatedStore.Store.Map
/-!
# Stores with faults

A store in memory some of whose requests fail, for exercising what is built on stores.
-/

namespace ReplicatedStore

structure Faults where
  killed : Bool
  ping : Bool
  upload : Bool
  download : Bool
  take : Bool
  commit : Bool
  uploadPanics : Bool
  /-- The feed into the store fails once this many items were polled. -/
  uploadAfter : Option Nat
  /-- The feeds out of the store fail once this many items were polled. -/
  readAfter : Option Nat
deriving DecidableEq, Repr

namespace Faults

def healthy : Faults :=
  ⟨false, false, false, false, false, false, false, none, none⟩

def error : StoreError := .unavailable "fault"

def limit (after : Option Nat) : Interruption := after.elim .never (.fromItem error)

def uploadInterruption (faults : Faults) : Interruption := limit faults.uploadAfter

def readInterruption (faults : Faults) : Interruption :=
  if faults.killed then fun _ => some error else limit faults.readAfter

end Faults

structure Node (κ σ : Type) [Ord κ] where
  faults : Faults
  store : MapStore κ σ

namespace Node

variable {κ σ : Type} [Ord κ]

def brokenDown : StoreError := .aborted "panic"

def upload (f : MergeFunction σ) (feed : Feed κ σ) (node : Node κ σ) :
    Except StoreError Unit × Node κ σ :=
  if node.faults.killed || node.faults.upload then (.error Faults.error, node)
  else if node.faults.uploadPanics then (.error brokenDown, node)
  else
    let (result, store) := node.store.upload f (feed.interrupted node.faults.uploadInterruption 0)
    (result, { node with store })

def intake (feed : Feed κ σ) (node : Node κ σ) : Option Nat :=
  if node.faults.killed || node.faults.upload || node.faults.uploadPanics then some 0
  else
    match node.faults.uploadAfter with
    | none => feed.firstError
    | some count => if count ≤ (feed.takeWhile Except.isOk).length then some count else feed.firstError

def requests (f : MergeFunction σ) : Store (Node κ σ) (List (κ × Nat)) κ σ where
  upload feed node := node.upload f feed
  intake := intake
  download horizon node :=
    if node.faults.killed || node.faults.download then (.error Faults.error, node)
    else (.ok (.ofEntries (node.store.since f horizon)), node)
  take node :=
    if node.faults.killed || node.faults.take then (.error Faults.error, node)
    else (.ok (.ofEntries node.store.entries, node.store.versions), node)
  commit taken _ node :=
    if node.faults.killed || node.faults.commit then (.error Faults.error, node)
    else (.ok (), { node with store := node.store.removeTaken taken })
  release _ node := node
  ping node :=
    if node.faults.killed || node.faults.ping then (.error Faults.error, node) else (.ok (), node)
  interruption node := node.faults.readInterruption

end Node

end ReplicatedStore
