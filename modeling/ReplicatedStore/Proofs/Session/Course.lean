import ReplicatedStore.Proofs.Session.Partition
/-!
# The sessions of a connection

`Service.sessions` cuts what a client sends on one connection into the sessions that the server makes of it, with
the state in which each of them starts. `Service.course` follows a single one: it goes on as long as the server
waits for another frame within it.
-/

namespace ReplicatedStore

variable {φ ν : Type}

structure Course (φ ν : Type) where
  received : List Frame
  sent : List Frame
  awaited : Connection φ
  after : ν

structure Session (ν : Type) where
  /-- How many more frames can be sent on the connection. -/
  room : Nat
  incoming : List Frame
  before : ν

namespace Service

variable (service : Service φ ν) (ending : Ending)

/-- Serves frames while the session goes on. -/
def course : Nat → List Frame → Connection φ → ν → Course φ ν
  | _, [], connection, state => ⟨[], [], .ended, service.close ending connection state⟩
  | room, frame :: frames, connection, state =>
    let (sent, next, after) := service.receiveWithin room frame connection state
    match next with
    | .within phase =>
      let later := course (room - sent.length) frames (.within phase) after
      { later with received := frame :: later.received, sent := sent ++ later.sent }
    | _ => ⟨[frame], sent, next, after⟩

def sessions (room : Nat) (frames : List Frame) (state : ν) : List (Session ν) :=
  match frames with
  | [] => []
  | frame :: frames =>
    let course := service.course ending room (frame :: frames) .idle state
    ⟨room, frame :: frames, state⟩ ::
      match course.awaited with
      | .idle =>
        sessions (room - course.sent.length) (frames.drop (course.received.length - 1)) course.after
      | _ => []
termination_by frames.length
decreasing_by simp only [List.length_drop, List.length_cons]; omega

variable {service ending}

theorem course_within {room : Nat} {frame : Frame} {connection : Connection φ} {state after : ν} {sent : List Frame}
    {phase : φ} (h : service.receiveWithin room frame connection state = (sent, .within phase, after))
    (frames : List Frame) :
    service.course ending room (frame :: frames) connection state =
      let later := service.course ending (room - sent.length) frames (.within phase) after
      { later with received := frame :: later.received, sent := sent ++ later.sent } := by
  rw [course, h]

theorem course_over {room : Nat} {frame : Frame} {connection next : Connection φ} {state after : ν}
    {sent : List Frame} (h : service.receiveWithin room frame connection state = (sent, next, after))
    (hnext : ∀ phase, next ≠ .within phase) (frames : List Frame) :
    service.course ending room (frame :: frames) connection state = ⟨[frame], sent, next, after⟩ := by
  rw [course, h]
  cases next with
  | within phase => exact absurd rfl (hnext phase)
  | idle => rfl
  | ended => rfl

theorem receiveWithin_of_le {frame : Frame} {connection : Connection φ} {state : ν}
    {result : List Frame × Connection φ × ν} (h : service.receive frame connection state = result) {room : Nat}
    (hroom : result.1.length ≤ room) : service.receiveWithin room frame connection state = result := by
  simp only [receiveWithin, h, if_pos hroom]

theorem course_ended {frame : Frame} {connection : Connection φ} {state : ν}
    {result : List Frame × Connection φ × ν} (h : service.receive frame connection state = result)
    (hnext : ∀ phase, result.2.1 ≠ .within phase) (room : Nat) (frames : List Frame) :
    service.course ending room (frame :: frames) connection state =
      ⟨[frame], result.1.take room, if result.1.length ≤ room then result.2.1 else .ended, result.2.2⟩ := by
  by_cases hroom : result.1.length ≤ room
  · rw [course_over (receiveWithin_of_le h hroom) hnext, if_pos hroom, List.take_of_length_le hroom]
  · have hwithin : service.receiveWithin room frame connection state = (result.1.take room, .ended, result.2.2) := by
      simp only [receiveWithin, h, if_neg hroom, close_of_ne_within hnext]
    rw [course_over hwithin Connection.ended_ne_within, if_neg hroom]

/-- A session receives a part of what is there, and then is over. -/
theorem course_received (room : Nat) (frames : List Frame) (connection : Connection φ) (state : ν) :
    (service.course ending room frames connection state).received <+: frames ∧
      ∀ phase, (service.course ending room frames connection state).awaited ≠ .within phase := by
  induction frames generalizing room connection state with
  | nil => exact ⟨List.prefix_rfl, Connection.ended_ne_within⟩
  | cons frame frames ih =>
    rcases hreceive : service.receiveWithin room frame connection state with ⟨sent, next, after⟩
    cases next with
    | within phase =>
      rw [course_within hreceive]
      obtain ⟨hreceived, hawaited⟩ := ih (room - sent.length) (.within phase) after
      exact ⟨(List.prefix_cons_inj frame).mpr hreceived, hawaited⟩
    | idle =>
      rw [course_over hreceive Connection.idle_ne_within]
      exact ⟨(List.prefix_cons_inj frame).mpr List.nil_prefix, Connection.idle_ne_within⟩
    | ended =>
      rw [course_over hreceive Connection.ended_ne_within]
      exact ⟨(List.prefix_cons_inj frame).mpr List.nil_prefix, Connection.ended_ne_within⟩

theorem exists_course_received (room : Nat) (frame : Frame) (frames : List Frame) (connection : Connection φ)
    (state : ν) :
    ∃ more, (service.course ending room (frame :: frames) connection state).received = frame :: more := by
  rcases hreceive : service.receiveWithin room frame connection state with ⟨sent, next, after⟩
  cases next with
  | within phase =>
    rw [course_within hreceive]
    exact ⟨_, rfl⟩
  | idle =>
    rw [course_over hreceive Connection.idle_ne_within]
    exact ⟨[], rfl⟩
  | ended =>
    rw [course_over hreceive Connection.ended_ne_within]
    exact ⟨[], rfl⟩

theorem serveWithin_ended (room : Nat) (frames : List Frame) (state : ν) :
    service.serveWithin ending room frames .ended state = ([], state) := by
  induction frames generalizing room with
  | nil => rfl
  | cons frame frames ih =>
    have hreceive : service.receiveWithin room frame .ended state = ([], .ended, state) := by
      simp [receiveWithin, receive]
    simp only [serveWithin, hreceive, ih, List.nil_append]

theorem serveWithin_course (room : Nat) (frames : List Frame) (connection : Connection φ) (state : ν) :
    service.serveWithin ending room frames connection state =
      let course := service.course ending room frames connection state
      let (more, last) := service.serveWithin ending (room - course.sent.length)
        (frames.drop course.received.length) course.awaited course.after
      (course.sent ++ more, last) := by
  induction frames generalizing room connection state with
  | nil => rfl
  | cons frame frames ih =>
    rcases hreceive : service.receiveWithin room frame connection state with ⟨sent, next, after⟩
    have hserve : service.serveWithin ending room (frame :: frames) connection state =
        (sent ++ (service.serveWithin ending (room - sent.length) frames next after).1,
          (service.serveWithin ending (room - sent.length) frames next after).2) := by
      rw [serveWithin, hreceive]
    rw [hserve]
    cases next with
    | within phase =>
      rw [course_within hreceive, ih]
      simp only [List.append_assoc, List.length_append, List.length_cons, List.drop_succ_cons, Nat.sub_sub]
    | idle =>
      rw [course_over hreceive Connection.idle_ne_within]
      rfl
    | ended =>
      rw [course_over hreceive Connection.ended_ne_within]
      rfl

/-- A connection is served session by session. -/
theorem serveWithin_eq (room : Nat) (frames : List Frame) (state : ν) :
    service.serveWithin ending room frames .idle state =
      let sessions := service.sessions ending room frames state
      let course := fun session : Session ν => service.course ending session.room session.incoming .idle session.before
      (sessions.flatMap fun session => (course session).sent,
        sessions.foldl (fun _ session => (course session).after) state) := by
  fun_induction sessions service ending room frames state with
  | case1 => rfl
  | case2 room state frame frames course ih =>
    obtain ⟨more, hreceived⟩ : ∃ more, course.received = frame :: more :=
      exists_course_received room frame frames .idle state
    have hdrop : (frame :: frames).drop course.received.length = frames.drop (course.received.length - 1) := by
      rw [hreceived]
      rfl
    rw [serveWithin_course]
    simp only [show service.course ending room (frame :: frames) .idle state = course from rfl, hdrop,
      List.flatMap_cons, List.foldl_cons]
    cases hawaited : course.awaited with
    | within phase => exact absurd hawaited ((course_received room (frame :: frames) .idle state).2 phase)
    | idle => simp only [ih]
    | ended => simp only [serveWithin_ended, List.flatMap_nil, List.foldl_nil]

theorem mem_sessions {room : Nat} {frames : List Frame} {state : ν} (h : frames ≠ []) :
    ⟨room, frames, state⟩ ∈ service.sessions ending room frames state := by
  cases frames with
  | nil => exact absurd rfl h
  | cons frame frames =>
    rw [sessions]
    exact List.mem_cons_self

theorem serveWithin_of_le {room : Nat} {frames : List Frame} {connection : Connection φ} {state : ν}
    (h : (service.receiveAll frames connection state).1.length ≤ room) :
    service.serveWithin ending room frames connection state =
      let (sent, last, after) := service.receiveAll frames connection state
      (sent, service.close ending last after) := by
  induction frames generalizing room connection state with
  | nil => rfl
  | cons frame frames ih =>
    rcases hreceive : service.receive frame connection state with ⟨sent, next, after⟩
    simp only [receiveAll, hreceive, List.length_append] at h ⊢
    have hwithin : service.receiveWithin room frame connection state = (sent, next, after) := by
      simp only [receiveWithin, hreceive, if_pos (Nat.le_of_add_right_le h)]
    simp only [serveWithin, hwithin]
    rw [ih (Nat.le_sub_of_add_le' h)]

end Service

end ReplicatedStore
