import ReplicatedStore.Reading.Basic
import Std.Data.TreeMap
/-!
# Named reads

A state together with the reads of it that are open under names. A name stands for one read and for one
take that can be committed. Opening a take renews both; opening a download under the name of a take
replaces the read alone, and leaves the take to be committed as far as it was read.
-/

namespace ReplicatedStore

structure NamedTake (ω ρ : Type) where
  receipt : ρ
  replaced : Option ω

structure NamedReads (ν ω ρ : Type) where
  state : ν
  opened : Std.TreeMap String ω
  takes : Std.TreeMap String (NamedTake ω ρ)

namespace NamedReads

variable {ν ω ρ ε α κ σ : Type}

def ofState (state : ν) : NamedReads ν ω ρ := ⟨state, ∅, ∅⟩

def take? (name : String) (reads : NamedReads ν ω ρ) : Option (ρ × ω) :=
  reads.takes[name]?.bind fun take =>
    (take.replaced <|> reads.opened[name]?).map fun opened => (take.receipt, opened)

def release (reader : Reader ν ω ρ ε α κ σ) (name : String) (reads : NamedReads ν ω ρ) :
    NamedReads ν ω ρ :=
  match reads.take? name with
  | none => reads
  | some (receipt, opened) =>
    { reads with state := reader.release receipt opened reads.state, takes := reads.takes.erase name }

def drop (reader : Reader ν ω ρ ε α κ σ) (name : String) (reads : NamedReads ν ω ρ) :
    NamedReads ν ω ρ :=
  let freed := release reader name reads
  { freed with opened := freed.opened.erase name }

def replaceRead (name : String) (opened : ω) (reads : NamedReads ν ω ρ) : NamedReads ν ω ρ :=
  let kept (take : NamedTake ω ρ) : NamedTake ω ρ :=
    { take with replaced := take.replaced <|> reads.opened[name]? }
  { reads with
    opened := reads.opened.insert name opened
    takes := reads.takes.modify name kept }

def openDownload (reader : Reader ν ω ρ ε α κ σ) (name : String) (horizon : UInt64)
    (reads : NamedReads ν ω ρ) : Except ε Unit × NamedReads ν ω ρ :=
  match reader.download horizon reads.state with
  | (.error cause, state) => (.error cause, { reads with state })
  | (.ok opened, state) => (.ok (), replaceRead name opened { reads with state })

def openTake (reader : Reader ν ω ρ ε α κ σ) (name : String) (reads : NamedReads ν ω ρ) :
    Except ε Unit × NamedReads ν ω ρ :=
  match reader.take reads.state with
  | (.error cause, state) => (.error cause, { reads with state })
  | (.ok (opened, receipt), state) =>
    let freed := release reader name { reads with state }
    (.ok (),
      { freed with
        opened := freed.opened.insert name opened
        takes := freed.takes.insert name ⟨receipt, none⟩ })

def read (reader : Reader ν ω ρ ε α κ σ) (name : String) (count : Nat)
    (reads : NamedReads ν ω ρ) :
    Option (List (Entry κ σ) × ReadStop ε) × NamedReads ν ω ρ :=
  match reads.opened[name]? with
  | none => (none, reads)
  | some opened =>
    let (part, opened, state) := reader.read count opened reads.state
    (some part, { reads with state, opened := reads.opened.insert name opened })

def commit (reader : Reader ν ω ρ ε α κ σ) (name : String) (reads : NamedReads ν ω ρ) :
    Option (Except ε α) × NamedReads ν ω ρ :=
  match reads.take? name with
  | none => (none, reads)
  | some (receipt, opened) =>
    let (result, state) := reader.commit receipt opened reads.state
    (some result, { reads with state, takes := reads.takes.erase name })

end NamedReads

end ReplicatedStore
