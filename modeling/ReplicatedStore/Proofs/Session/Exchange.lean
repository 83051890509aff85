import Mathlib.Logic.Relation
import ReplicatedStore.Proofs.Wire.Frame
import ReplicatedStore.Session.Service
/-!
# Exchanges

While a client sends its bytes in chunks, the server serves the frames that have arrived. How the bytes are cut,
and whether the client waits for replies before it sends more, has no part in what the server replies.
-/

namespace ReplicatedStore

variable {φ ν : Type}

structure Exchange (φ ν : Type) where
  unsent : Bytes
  arrived : Bytes
  replies : List Frame
  awaited : Connection φ
  state : ν

namespace Exchange

def opened (bytes : Bytes) (state : ν) : Exchange φ ν := ⟨bytes, [], [], .idle, state⟩

inductive Step (service : Service φ ν) : Exchange φ ν → Exchange φ ν → Prop
  | arrive {exchange : Exchange φ ν} {chunk rest : Bytes} (hne : chunk ≠ [])
    (hunsent : exchange.unsent = chunk ++ rest) :
    Step service exchange { exchange with unsent := rest, arrived := exchange.arrived ++ chunk }
  | serve {exchange : Exchange φ ν} {frame : Frame} {rest : Bytes} {sent : List Frame} {awaited : Connection φ}
    {state : ν} (hframe : Frame.next? exchange.arrived = .ok (some (frame, rest)))
    (hreceive : service.receive frame exchange.awaited exchange.state = (sent, awaited, state)) :
    Step service exchange { exchange with arrived := rest, replies := exchange.replies ++ sent, awaited, state }

/-- Whether nothing more happens, unless the client sends more than it was to send. -/
def Quiet (service : Service φ ν) (exchange : Exchange φ ν) : Prop := ∀ next, ¬ Step service exchange next

/-- What a connection comes to: all replies, what is awaited then, and the state. -/
def outcome (service : Service φ ν) (exchange : Exchange φ ν) : List Frame × Connection φ × ν :=
  let frames := (Frame.parse (exchange.arrived ++ exchange.unsent)).1
  let (sent, awaited, state) := service.receiveAll frames exchange.awaited exchange.state
  (exchange.replies ++ sent, awaited, state)

variable {service : Service φ ν} {exchange next last : Exchange φ ν}

theorem Step.outcome_eq (h : Step service exchange next) : next.outcome service = exchange.outcome service := by
  cases h with
  | @arrive chunk rest _ hunsent => simp only [outcome, hunsent, List.append_assoc]
  | @serve frame rest sent awaited state hframe hreceive =>
    have hnext := (Frame.next?_append exchange.unsent).2 frame rest hframe
    simp only [outcome, Frame.parse_of_some hnext, Service.receiveAll, hreceive, List.append_assoc]

theorem Step.remaining_lt (h : Step service exchange next) :
    2 * next.unsent.length + next.arrived.length < 2 * exchange.unsent.length + exchange.arrived.length := by
  cases h with
  | @arrive chunk rest hne hunsent =>
    have hpos := List.length_pos_iff.mpr hne
    simp only [hunsent, List.length_append]
    omega
  | serve hframe _ =>
    have hless := Frame.length_lt_of_next? hframe
    simp only
    omega

theorem exists_quiet (service : Service φ ν) (exchange : Exchange φ ν) :
    ∃ last, Relation.ReflTransGen (Step service) exchange last ∧ last.Quiet service := by
  induction hcount : 2 * exchange.unsent.length + exchange.arrived.length using Nat.strongRecOn
    generalizing exchange with
  | ind count ih =>
    by_cases hquiet : exchange.Quiet service
    · exact ⟨exchange, .refl, hquiet⟩
    · obtain ⟨next, hstep⟩ := not_forall_not.mp hquiet
      obtain ⟨last, hrun, hlast⟩ := ih _ (hcount ▸ hstep.remaining_lt) next rfl
      exact ⟨last, .head hstep hrun, hlast⟩

/-- Where nothing more happens, all bytes have arrived and no whole frame is among them. -/
theorem Quiet.outcome_eq (h : exchange.Quiet service) :
    exchange.outcome service = (exchange.replies, exchange.awaited, exchange.state) := by
  have hunsent : exchange.unsent = [] := by
    by_contra hne
    exact h _ (.arrive hne (List.append_nil _).symm)
  have hnone : (Frame.parse exchange.arrived).1 = [] := by
    rcases hnext : Frame.next? exchange.arrived with cause | _ | ⟨frame, rest⟩
    · rw [Frame.parse_of_error hnext]
    · rw [Frame.parse_of_none hnext]
    · exact absurd (.serve hnext rfl) (h _)
  simp only [outcome, hunsent, List.append_nil, hnone, Service.receiveAll]

theorem outcome_eq_of_run (hrun : Relation.ReflTransGen (Step service) exchange last) :
    last.outcome service = exchange.outcome service := by
  induction hrun with
  | refl => rfl
  | tail _ hstep ih => rw [hstep.outcome_eq, ih]

/-- Frames that fit are served in order. -/
theorem outcome_opened {frames : List Frame} (h : ∀ frame ∈ frames, frame.Fits) (state : ν) :
    (opened (frames.flatMap Frame.bytes) state).outcome service = service.receiveAll frames .idle state := by
  simp only [outcome, opened, List.nil_append, Frame.parse_flatMap_bytes h]

end Exchange

end ReplicatedStore
