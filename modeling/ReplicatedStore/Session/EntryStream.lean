import ReplicatedStore.Session.Client
/-!
# Streams of entries

A client polls a connection for the entries of a download or a take, one item after the other. Batches are
queued as they arrive. The stream of a take hands its connection on when the entries end cleanly, and only
then can the take be committed.
-/

namespace ReplicatedStore

variable {κ σ : Type}

/-- The entries that a client reads from a connection, between two polls. -/
structure EntryStream where
  connection : Option Receiver
  queued : List Bytes
  /-- The connection by which the take is committed, once the entries have ended. -/
  completed : Option Receiver
deriving DecidableEq, Repr

namespace EntryStream

def ofReceiver (receiver : Receiver) : EntryStream := ⟨some receiver, [], none⟩

def fail (status : Status) (stream : EntryStream) :
    Option (Except StoreError (Entry κ σ)) × EntryStream :=
  (some (.error (.ofStatus status)), ⟨none, [], stream.completed⟩)

def poll (codec : EntryCodec κ σ) : EntryStream → Option (Except StoreError (Entry κ σ)) × EntryStream
  | ⟨connection, bytes :: queued, completed⟩ =>
    (some ((codec.decode bytes).mapError .codec), ⟨connection, queued, completed⟩)
  | ⟨none, [], completed⟩ => (none, ⟨none, [], completed⟩)
  | ⟨some receiver, [], completed⟩ =>
    match _h : receiver.next with
    | (.error ending, after) => fail ending.status ⟨some after, [], completed⟩
    | (.ok frame, after) =>
      match frame.arrival with
      | .batch entries => poll codec ⟨some after, entries, completed⟩
      | .ended => (none, ⟨none, [], some after⟩)
      | .broken status => fail status ⟨some after, [], completed⟩
termination_by stream => stream.connection.elim 0 fun receiver => receiver.pending + 1
decreasing_by exact Nat.succ_lt_succ (Receiver.pending_await_lt _h)

def after (codec : EntryCodec κ σ) : Nat → EntryStream → EntryStream
  | 0, stream => stream
  | polls + 1, stream => after codec polls (stream.poll codec).2

def commit (stream : EntryStream) : List Frame × Except StoreError Unit :=
  match stream.completed with
  | none => ([], .error Client.notRead)
  | some receiver =>
    match (receiver.expect .ack).1 with
    | .ok _ => ([Message.ack.frame], .ok ())
    | .error status => ([Message.ack.frame], .error (.ofStatus status))

end EntryStream

end ReplicatedStore
