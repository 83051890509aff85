import ReplicatedStore.Store.Basic
/-!
# Reading piece by piece

A read stays open between the requests for its entries. `Reader` lists what can be asked of a state
that is read, whether it is one store or a cluster; reading some entries, all of them, or taking them out
is built on it.
-/

namespace ReplicatedStore

inductive ReadStop (ε : Type) where
  | full
  | ended
  | failed (cause : ε)
deriving DecidableEq, Repr

/-- What can be asked of states `ν` that are read: `ω` is a read in progress, `ρ` the receipt by which a
take is committed, `α` the answer of a commit, and `ε` an error. A receipt goes together with the read it
was given for. -/
structure Reader (ν ω ρ ε α κ σ : Type) where
  download : UInt64 → ν → Except ε ω × ν
  take : ν → Except ε (ω × ρ) × ν
  next : ω → ν → Option (Except ε (Entry κ σ)) × ω × ν
  /-- A bound on the number of entries to come. -/
  pending : ω → Nat
  commit : ρ → ω → ν → Except ε α × ν
  release : ρ → ω → ν → ν

namespace Reader

variable {ν ω ρ ε α κ σ : Type}

def read (reader : Reader ν ω ρ ε α κ σ) : Nat → ω → ν → (List (Entry κ σ) × ReadStop ε) × ω × ν
  | 0, opened, state => (([], .full), opened, state)
  | count + 1, opened, state =>
    match reader.next opened state with
    | (none, opened, state) => (([], .ended), opened, state)
    | (some (.error cause), opened, state) => (([], .failed cause), opened, state)
    | (some (.ok entry), opened, state) =>
      let ((entries, stop), opened, state) := reader.read count opened state
      ((entry :: entries, stop), opened, state)

def collect (reader : Reader ν ω ρ ε α κ σ) (opened : ω) (state : ν) :
    Except ε (List (Entry κ σ)) × ω × ν :=
  match reader.read (reader.pending opened + 1) opened state with
  | ((_, .failed cause), opened, state) => (.error cause, opened, state)
  | ((entries, _), opened, state) => (.ok entries, opened, state)

def downloadAll (reader : Reader ν ω ρ ε α κ σ) (horizon : UInt64) (state : ν) :
    Except ε (List (Entry κ σ)) × ν :=
  match reader.download horizon state with
  | (.error cause, state) => (.error cause, state)
  | (.ok opened, state) =>
    let (result, _, state) := reader.collect opened state
    (result, state)

/-- Takes all entries out: they are returned once their removal is committed. -/
def takeAll (reader : Reader ν ω ρ ε α κ σ) (state : ν) : Except ε (List (Entry κ σ)) × ν :=
  match reader.take state with
  | (.error cause, state) => (.error cause, state)
  | (.ok (opened, receipt), state) =>
    match reader.collect opened state with
    | (.error cause, opened, state) => (.error cause, reader.release receipt opened state)
    | (.ok entries, opened, state) =>
      let (result, state) := reader.commit receipt opened state
      (result.map fun _ => entries, state)

end Reader

structure OpenRead (κ σ : Type) where
  feed : OpenFeed κ σ
  drained : Bool

namespace OpenRead

variable {κ σ : Type}

def ofFeed (feed : Feed κ σ) : OpenRead κ σ := ⟨.ofFeed feed, false⟩

def next (interruption : Interruption) (opened : OpenRead κ σ) :
    Option (Except StoreError (Entry κ σ)) × OpenRead κ σ :=
  match opened.feed.poll interruption with
  | (.closed, _) => (none, opened)
  | (.ended, feed) => (none, ⟨feed, true⟩)
  | (.failed cause, feed) => (some (.error cause), { opened with feed })
  | (.entry entry, feed) => (some (.ok entry), { opened with feed })

end OpenRead

def Store.reader {ν ρ κ σ : Type} (store : Store ν ρ κ σ) :
    Reader ν (OpenRead κ σ) ρ StoreError Unit κ σ where
  download horizon state :=
    let (result, state) := store.download horizon state
    (result.map .ofFeed, state)
  take state :=
    let (result, state) := store.take state
    (result.map fun (feed, receipt) => (.ofFeed feed, receipt), state)
  next opened state :=
    let (item, opened) := opened.next (store.interruption state)
    (item, opened, state)
  pending opened := opened.feed.pending
  commit receipt opened := store.commit receipt opened.drained
  release receipt _ := store.release receipt

end ReplicatedStore
