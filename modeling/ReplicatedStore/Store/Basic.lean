import ReplicatedStore.Store.Feed
/-!
# Stores

A `Store` lists the requests that every store answers, whether it is held in memory, in files, or
behind a connection. Each request maps the store's state to an answer and the next state.
-/

namespace ReplicatedStore

variable {κ σ : Type}

/-- The requests answered by a store with states `ν`; `ρ` is the receipt by which a take is later
committed or dropped. -/
structure Store (ν ρ κ σ : Type) where
  /-- Merges a whole feed into the store, or refuses it and keeps the state. -/
  upload : Feed κ σ → ν → Except StoreError Unit × ν
  /-- How many items of a feed an upload takes if it answers before the feed has ended. -/
  intake : Feed κ σ → ν → Option Nat
  /-- The entries at or after a horizon, in key order. -/
  download : UInt64 → ν → Except StoreError (Feed κ σ) × ν
  /-- All entries in key order, with a receipt for removing them. -/
  take : ν → Except StoreError (Feed κ σ × ρ) × ν
  /-- Removes what a take covered; `drained` says whether its feed was read to the end. -/
  commit (receipt : ρ) (drained : Bool) : ν → Except StoreError Unit × ν
  release : ρ → ν → ν
  /-- Whether the store can serve requests. -/
  ping : ν → Except StoreError Unit × ν
  /-- Which polls of a feed out of the store are interrupted at present. -/
  interruption : ν → Interruption

namespace Store

variable {ν ρ μ : Type}

def focus (store : Store ν ρ κ σ) (get : μ → ν) (set : ν → μ → μ) : Store μ ρ κ σ :=
  let run {α : Type} (request : ν → α × ν) (state : μ) : α × μ :=
    let (answer, part) := request (get state)
    (answer, set part state)
  { upload := fun feed => run (store.upload feed)
    intake := fun feed state => store.intake feed (get state)
    download := fun horizon => run (store.download horizon)
    take := run store.take
    commit := fun receipt drained => run (store.commit receipt drained)
    release := fun receipt state => set (store.release receipt (get state)) state
    ping := run store.ping
    interruption := fun state => store.interruption (get state) }

def polledOut (store : Store ν ρ κ σ) (feed : Feed κ σ) (state : ν) : Feed κ σ :=
  feed.interrupted (store.interruption state) 0

end Store

end ReplicatedStore
