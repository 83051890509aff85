import Mathlib.Logic.Function.Iterate
import ReplicatedStore.Cluster.Tasks
import ReplicatedStore.Proofs.Cluster.Sessions
import ReplicatedStore.Proofs.Store.Feed
/-!
# Streams of an upload's sessions

While entries of the source are left, and after an upload was given up, what a session's store has polled and
what still waits in its channel are the entries sent to it. Its stream can only end with an error then, and a
store that takes nothing from a feed with an error at its end holds what it held before.
-/

namespace ReplicatedStore

variable {μ ρ κ σ η : Type}

/-- The feed of an upload that is given up after some entries. -/
def Feed.cancelled (entries : List (Entry κ σ)) : Feed κ σ :=
  ofEntries entries ++ [.error SessionStream.cancelled]

theorem Feed.error_mem_cancelled (entries : List (Entry κ σ)) :
    .error SessionStream.cancelled ∈ Feed.cancelled entries :=
  List.mem_append_right _ (List.mem_singleton_self _)

/-- What comes out of a closed channel: the entries before the message that the upload is complete, and an error if
that message is missing. -/
def Feed.ofFrames : List (SessionFrame κ σ) → Feed κ σ
  | [] => [.error SessionStream.cancelled]
  | .entry entry :: frames => .ok entry :: ofFrames frames
  | .complete :: _ => []

theorem Feed.ofFrames_entries (entries : List (Entry κ σ)) : ofFrames (entries.map .entry) = cancelled entries := by
  induction entries with
  | nil => rfl
  | cons entry entries ih => exact congrArg (.ok entry :: ·) ih

theorem Feed.forall_error_notMem_ofFrames {frames : List (SessionFrame κ σ)} :
    (∀ cause, .error cause ∉ ofFrames frames) ↔ .complete ∈ frames := by
  induction frames with
  | nil => exact ⟨fun h => absurd (List.mem_singleton_self _) (h _), fun h => absurd h List.not_mem_nil⟩
  | cons frame frames ih =>
    cases frame with
    | entry entry => simp only [ofFrames, List.mem_cons, reduceCtorEq, false_or, ih]
    | complete => simp only [ofFrames, List.not_mem_nil, not_false_eq_true, implies_true, List.mem_cons, true_or]

/-- A store that takes nothing from the feed of an upload that is given up, as far as the entries go that it
admits. -/
def Store.Discards {ν : Type} (store : Store ν ρ κ σ) (held : ν → η) (admits : Entry κ σ → Prop) : Prop :=
  ∀ entries : List (Entry κ σ), (∀ entry ∈ entries, admits entry) →
    ∀ state, held (store.upload (.cancelled entries) state).2 = held state

namespace SessionTask

def EndedCleanly (task : SessionTask κ σ) : Prop :=
  task.stream = .finished ∧ ∀ cause, .error cause ∉ task.polled

/-- Whether a session was told that its upload is complete, and has not found out. -/
def Told (task : SessionTask κ σ) : Prop :=
  ∃ channel, task.stream = .receiving channel ∧ .complete ∈ channel.waiting

theorem iterate_poll_finished (polled : Feed κ σ) (running : Bool) (polls : Nat) :
    poll^[polls] ⟨.finished, polled, running⟩ = ⟨.finished, polled, running⟩ := by
  refine Function.iterate_fixed ?_ polls
  simp only [poll, SessionStream.poll, Polled.items, List.append_nil]

theorem iterate_poll_failed (polled : Feed κ σ) (running : Bool) {polls : Nat} (h : 0 < polls) :
    poll^[polls] ⟨.failed, polled, running⟩ = ⟨.finished, polled, running⟩ := by
  obtain ⟨polls, rfl⟩ := Nat.exists_eq_succ_of_ne_zero (Nat.ne_of_gt h)
  have hpoll : poll (⟨.failed, polled, running⟩ : SessionTask κ σ) = ⟨.finished, polled, running⟩ := by
    simp only [poll, SessionStream.poll, Polled.items, List.append_nil]
  rw [Function.iterate_succ_apply, hpoll, iterate_poll_finished]

theorem iterate_poll_closed {frames : List (SessionFrame κ σ)} (polled : Feed κ σ) (running : Bool) {polls : Nat}
    (h : frames.length + 1 < polls) :
    poll^[polls] ⟨.receiving ⟨frames, false⟩, polled, running⟩ =
      ⟨.finished, polled ++ Feed.ofFrames frames, running⟩ := by
  induction frames generalizing polled polls with
  | nil =>
    obtain ⟨polls, rfl⟩ := Nat.exists_eq_succ_of_ne_zero (Nat.ne_of_gt (Nat.zero_lt_of_lt h))
    rw [Function.iterate_succ_apply]
    exact iterate_poll_failed _ running (Nat.lt_of_succ_lt_succ h)
  | cons frame frames ih =>
    obtain ⟨polls, rfl⟩ := Nat.exists_eq_succ_of_ne_zero (Nat.ne_of_gt (Nat.zero_lt_of_lt h))
    rw [Function.iterate_succ_apply]
    cases frame with
    | entry entry =>
      have hrest := ih (polled ++ [.ok entry]) (Nat.lt_of_succ_lt_succ h)
      rw [List.append_assoc] at hrest
      exact hrest
    | complete => exact iterate_poll_finished _ running polls

/-- The stream of a closed channel ends cleanly if and only if it was sent that the upload is complete. -/
theorem endedCleanly_iff {frames : List (SessionFrame κ σ)} (running : Bool) {polls : Nat}
    (h : frames.length + 1 < polls) :
    (poll^[polls] ⟨.receiving ⟨frames, false⟩, [], running⟩).EndedCleanly ↔ .complete ∈ frames := by
  rw [iterate_poll_closed [] running h, ← Feed.forall_error_notMem_ofFrames]
  exact ⟨fun hended => hended.2, fun hclean => ⟨rfl, hclean⟩⟩

/-- How far a store has come with the entries sent to its session, whose channel is connected while the upload
is going on. -/
inductive Follows (sent : List (Entry κ σ)) (ongoing : Bool) : SessionTask κ σ → Prop
  | receiving {done waiting : List (Entry κ σ)} {connected running : Bool} (hsent : sent = done ++ waiting)
    (hconnected : ongoing = true → connected = true) :
    Follows sent ongoing ⟨.receiving ⟨waiting.map .entry, connected⟩, Feed.ofEntries done, running⟩
  | failed {running : Bool} (hgiven : ongoing = false) :
    Follows sent ongoing ⟨.failed, Feed.cancelled sent, running⟩
  | finished {running : Bool} (hgiven : ongoing = false) :
    Follows sent ongoing ⟨.finished, Feed.cancelled sent, running⟩

theorem opened_follows (ongoing : Bool) : (opened : SessionTask κ σ).Follows [] ongoing :=
  @Follows.receiving _ _ [] ongoing [] [] true true rfl fun _ => rfl

namespace Follows

variable {sent : List (Entry κ σ)} {ongoing : Bool} {task : SessionTask κ σ}

theorem send (h : task.Follows sent true) (entry : Entry κ σ) :
    (task.send (.entry entry)).Follows (if task.accepts then sent ++ [entry] else sent) true := by
  unfold SessionTask.send
  split
  next haccepts =>
    cases h with
    | @receiving done waiting connected running hsent hconnected =>
      have hwaiting : waiting.map SessionFrame.entry ++ [.entry entry] = (waiting ++ [entry]).map .entry := by
        rw [List.map_append, List.map_singleton]
      simp only [SessionStream.send, hwaiting]
      exact .receiving (by rw [hsent, List.append_assoc]) hconnected
    | failed hgiven => contradiction
    | finished hgiven => contradiction
  next => exact h

theorem poll (h : task.Follows sent ongoing) : task.poll.Follows sent ongoing := by
  cases h with
  | @receiving done waiting connected running hsent hconnected =>
    cases waiting with
    | nil =>
      rw [List.append_nil] at hsent
      subst hsent
      cases connected with
      | true => exact @receiving _ _ sent ongoing sent [] true running (List.append_nil sent).symm hconnected
      | false =>
        have hgiven : ongoing = false := by
          cases ongoing with
          | true => exact absurd (hconnected rfl) Bool.false_ne_true
          | false => rfl
        exact .failed hgiven
    | cons entry waiting =>
      have hdone : Feed.ofEntries done ++ [.ok entry] = .ofEntries (done ++ [entry]) := by
        rw [Feed.ofEntries, Feed.ofEntries, List.map_append, List.map_singleton]
      simp only [SessionTask.poll, SessionStream.poll, List.map_cons, Polled.items, hdone]
      exact .receiving (by rw [hsent, List.append_assoc, List.singleton_append]) hconnected
  | failed hgiven =>
    simp only [SessionTask.poll, SessionStream.poll, Polled.items, List.append_nil]
    exact .finished hgiven
  | finished hgiven =>
    simp only [SessionTask.poll, SessionStream.poll, Polled.items, List.append_nil]
    exact .finished hgiven

theorem disconnect (h : task.Follows sent false) : task.disconnect.Follows sent false := by
  cases h with
  | receiving hsent hconnected => exact .receiving hsent fun h => absurd h Bool.false_ne_true
  | failed hgiven => exact .failed hgiven
  | finished hgiven => exact .finished hgiven

theorem stop (h : task.Follows sent ongoing) :
    ({ task with running := false } : SessionTask κ σ).Follows sent ongoing := by
  cases h with
  | receiving hsent hconnected => exact .receiving hsent hconnected
  | failed hgiven => exact .failed hgiven
  | finished hgiven => exact .finished hgiven

theorem giveUp (h : task.Follows sent ongoing) : task.Follows sent false := by
  cases h with
  | receiving hsent hconnected => exact .receiving hsent fun h => absurd h Bool.false_ne_true
  | failed hgiven => exact .failed rfl
  | finished hgiven => exact .finished rfl

/-- Whenever its task is over, a store has been fed entries and an error. -/
theorem fed_eq (h : task.Follows sent ongoing) :
    ∃ entries, entries ⊆ sent ∧ task.fed = Feed.cancelled entries := by
  cases h with
  | @receiving done waiting connected running hsent hconnected =>
    exact ⟨done, hsent ▸ List.subset_append_left done waiting, rfl⟩
  | failed hgiven => exact ⟨sent, List.Subset.refl sent, rfl⟩
  | finished hgiven => exact ⟨sent, List.Subset.refl sent, rfl⟩

theorem polled_begins (h : task.Follows sent ongoing) :
    task.polled <+: Feed.cancelled sent := by
  cases h with
  | @receiving done waiting connected running hsent hconnected =>
    rw [hsent, Feed.cancelled, Feed.ofEntries, Feed.ofEntries, List.map_append, List.append_assoc]
    exact List.prefix_append _ _
  | failed hgiven => exact List.prefix_rfl
  | finished hgiven => exact List.prefix_rfl

theorem not_endedCleanly (h : task.Follows sent ongoing) : ¬ task.EndedCleanly := by
  rintro ⟨hover, hclean⟩
  cases h with
  | receiving hsent hconnected => cases hover
  | failed hgiven => cases hover
  | finished hgiven => exact hclean _ (List.mem_append_right _ (List.mem_singleton_self _))

theorem not_told (h : task.Follows sent ongoing) : ¬ task.Told := by
  rintro ⟨channel, hstream, hcomplete⟩
  cases h with
  | receiving hsent hconnected =>
    cases hstream
    obtain ⟨entry, -, heq⟩ := List.mem_map.mp hcomplete
    cases heq
  | failed hgiven => cases hstream
  | finished hgiven => cases hstream

theorem iterate_poll_disconnect (h : task.Follows sent ongoing) {polls : Nat} (hpolls : sent.length + 1 < polls) :
    SessionTask.poll^[polls] task.disconnect = ⟨.finished, .cancelled sent, task.running⟩ := by
  cases h with
  | @receiving done waiting connected running hsent hconnected =>
    have hwaiting : (waiting.map (SessionFrame.entry (κ := κ) (σ := σ))).length + 1 < polls := by
      rw [hsent, List.length_append] at hpolls
      rw [List.length_map]
      omega
    have hpolled : Feed.ofEntries done ++ Feed.cancelled waiting = .cancelled sent := by
      rw [hsent, Feed.cancelled, Feed.cancelled, Feed.ofEntries, Feed.ofEntries, Feed.ofEntries, List.map_append,
        List.append_assoc]
    have hclosed := iterate_poll_closed (.ofEntries done) running hwaiting
    rw [Feed.ofFrames_entries, hpolled] at hclosed
    exact hclosed
  | failed hgiven => exact iterate_poll_failed _ _ (Nat.zero_lt_of_lt hpolls)
  | finished hgiven => exact iterate_poll_finished _ _ polls

end Follows

end SessionTask

namespace UploadSessions

variable {γ : Type} {topology : Topology γ} {sessions : UploadSessions κ σ} {entry : Entry κ σ} {index : Nat}

theorem sendTo_of_failed (interleaving : Interleaving) (h : sessions.failed.contains index = true) :
    sessions.sendTo topology interleaving entry index = sessions := by
  rw [sendTo, if_pos h]

theorem sendTo_unopened (interleaving : Interleaving) (h : ¬ sessions.failed.contains index = true)
    (hsent : sessions.sent.contains index = false) (hclosed : canOpen topology index = false) :
    sessions.sendTo topology interleaving entry index =
      { sessions with failed := sessions.failed.insert index } := by
  rw [sendTo, if_neg h]
  simp only [hsent, hclosed, Bool.not_false, Bool.and_self, if_true]

theorem sendTo_opened (interleaving : Interleaving) (h : ¬ sessions.failed.contains index = true)
    (hopened : sessions.sent.contains index = true ∨ canOpen topology index = true) :
    sessions.sendTo topology interleaving entry index =
      if interleaving.refuses index (sessions.sent.getD index []).length then
        { sessions with
          failed := sessions.failed.insert index
          sent := sessions.sent.insert index (sessions.sent.getD index []) }
      else { sessions with sent := sessions.sent.insert index (entry :: sessions.sent.getD index []) } := by
  have hsome : (!sessions.sent.contains index && !canOpen topology index) = false := by
    rcases hopened with hsent | hcan
    · rw [hsent, Bool.not_true, Bool.false_and]
    · rw [hcan, Bool.not_true, Bool.and_false]
  rw [sendTo, if_neg h]
  simp only [hsome, Bool.false_eq_true, if_false]

theorem getElem?_sendTo_opened (entry : Entry κ σ) (refused : Bool) (h : ¬ sessions.failed.contains index = true)
    (hopen : canOpen topology index = true) (other : Nat) :
    (sessions.sendTo topology (.refusing refused) entry index).sent[other]? =
      if index = other then
        some (if refused then sessions.sent.getD index [] else entry :: sessions.sent.getD index [])
      else sessions.sent[other]? := by
  rw [sendTo_opened _ h (.inr hopen)]
  cases refused with
  | true => simp only [Interleaving.refusing, if_true, Std.TreeMap.getElem?_insert, Nat.compare_eq_eq]
  | false =>
    simp only [Interleaving.refusing, Bool.false_eq_true, if_false, Std.TreeMap.getElem?_insert,
      Nat.compare_eq_eq]

end UploadSessions

namespace UploadPhase

def ongoing : UploadPhase κ σ → Bool
  | reading _ | sending .. => true
  | completing _ | givenUp _ => false

def Completes (phase : UploadPhase κ σ) : Prop := ∃ sessions, phase = .completing sessions

theorem not_completes_of_ongoing {phase : UploadPhase κ σ} (h : phase.ongoing = true) : ¬ phase.Completes := by
  rintro ⟨sessions, rfl⟩
  contradiction

theorem not_completes_givenUp (reason : Option UploadStop) : ¬ (givenUp reason : UploadPhase κ σ).Completes := by
  rintro ⟨sessions, h⟩
  cases h

/-- What was read of a source is followed by what is left of it; a source that has ended was read as a whole. -/
def Reads (source : Feed κ σ) : UploadPhase κ σ → Prop
  | reading rest => ∃ read, source = .ofEntries read ++ rest
  | sending entry _ _ rest => ∃ read, source = .ofEntries read ++ rest ∧ entry ∈ read
  | completing _ => ∃ read, source = .ofEntries read
  | givenUp _ => True

end UploadPhase

namespace UploadRun

section Links

variable {γ : Type} {topology : Topology γ} {run other : UploadRun μ κ σ} {index : Nat}

def sent (run : UploadRun μ κ σ) (index : Nat) : List (Entry κ σ) := (run.sessions.sent.getD index []).reverse

def Linked (topology : Topology γ) (run : UploadRun μ κ σ) (index : Nat) : Prop :=
  match run.tasks[index]? with
  | none => run.sessions.sent[index]? = none
  | some task =>
    UploadSessions.canOpen topology index = true ∧ task.Follows (run.sent index) run.phase.ongoing

theorem Linked.task (h : run.Linked topology index) {task : SessionTask κ σ}
    (htask : run.tasks[index]? = some task) :
    UploadSessions.canOpen topology index = true ∧ task.Follows (run.sent index) run.phase.ongoing := by
  unfold Linked at h
  rwa [htask] at h

theorem Linked.no_task (h : run.Linked topology index) (htask : run.tasks[index]? = none) :
    run.sessions.sent[index]? = none := by
  unfold Linked at h
  rwa [htask] at h

theorem linked_of_task {task : SessionTask κ σ} (htask : run.tasks[index]? = some task)
    (hopen : UploadSessions.canOpen topology index = true)
    (hfollows : task.Follows (run.sent index) run.phase.ongoing) : run.Linked topology index := by
  unfold Linked
  rw [htask]
  exact ⟨hopen, hfollows⟩

theorem Linked.congr (h : run.Linked topology index) (htasks : other.tasks[index]? = run.tasks[index]?)
    (hsent : other.sessions.sent[index]? = run.sessions.sent[index]?)
    (hongoing : other.phase.ongoing = run.phase.ongoing) : other.Linked topology index := by
  have hentries : other.sent index = run.sent index := by
    rw [UploadRun.sent, UploadRun.sent, Std.TreeMap.getD_eq_getD_getElem?, Std.TreeMap.getD_eq_getD_getElem?, hsent]
  unfold Linked at h ⊢
  rw [htasks, hsent, hentries, hongoing]
  exact h

theorem Linked.giveUp (h : run.Linked topology index) (reason : Option UploadStop) :
    ({ run with phase := .givenUp reason } : UploadRun μ κ σ).Linked topology index := by
  cases htask : run.tasks[index]? with
  | none =>
    unfold Linked
    dsimp only
    rw [htask]
    exact h.no_task htask
  | some task => exact linked_of_task htask (h.task htask).1 (h.task htask).2.giveUp

end Links

theorem getElem?_setTask (index other : Nat) (task : SessionTask κ σ) (run : UploadRun μ κ σ) :
    (run.setTask index task).tasks[other]? = if index = other then some task else run.tasks[other]? := by
  simp only [setTask, Std.TreeMap.getElem?_insert, Nat.compare_eq_eq]

section Later

variable (topology : Topology (Store μ ρ κ σ)) {run : UploadRun μ κ σ}

theorem completes_completeNext {capacity index : Nat} {sessions : List Nat} (h : run.phase.Completes) :
    (run.completeNext capacity index (.completing sessions)).phase.Completes := by
  unfold completeNext
  split
  next => exact ⟨sessions, rfl⟩
  next =>
    split
    next => exact h
    next => exact ⟨sessions, rfl⟩

variable [Fingerprint κ]

theorem completes_step (sharder : SchemeSharder) (options : ClusterOptions) (event : UploadEvent)
    (h : run.phase.Completes) : (run.step topology sharder options event).phase.Completes := by
  have hphase := h
  obtain ⟨sessions, hsessions⟩ := hphase
  cases event with
  | proceed =>
    cases sessions with
    | nil =>
      simp only [step, proceed, hsessions]
      exact ⟨[], rfl⟩
    | cons index sessions =>
      simp only [step, proceed, hsessions]
      exact completes_completeNext h
  | drop =>
    simp only [step, drop, hsessions]
    exact ⟨sessions, rfl⟩
  | poll index =>
    simp only [step, poll]
    split
    next => exact h
    next => split <;> exact h
  | finish index =>
    simp only [step, finish]
    split
    next => split <;> exact h
    next => exact h
  | disconnect index =>
    simp only [step, disconnect, hsessions]
    exact ⟨sessions, rfl⟩

theorem completes_follow (sharder : SchemeSharder) (options : ClusterOptions) (schedule : List UploadEvent)
    (h : run.phase.Completes) : (run.follow topology sharder options schedule).phase.Completes := by
  induction schedule generalizing run with
  | nil => exact h
  | cons event rest ih => exact ih (completes_step topology sharder options event h)

theorem getElem?_follow_polls (sharder : SchemeSharder) (options : ClusterOptions) {index : Nat}
    {task : SessionTask κ σ} (htask : run.tasks[index]? = some task) (hrunning : task.running = true) (polls : Nat) :
    (run.follow topology sharder options (List.replicate polls (.poll index))).tasks[index]? =
      some (SessionTask.poll^[polls] task) := by
  induction polls generalizing run task with
  | zero => exact htask
  | succ polls ih =>
    have hnext : (run.step topology sharder options (.poll index)).tasks[index]? = some task.poll := by
      simp only [step, poll, htask, hrunning, if_true]
      exact (getElem?_setTask index index _ run).trans (if_pos rfl)
    have hstill : task.poll.running = true := by
      unfold SessionTask.poll
      split <;> exact hrunning
    rw [Function.iterate_succ_apply]
    exact ih hnext hstill

theorem getElem?_step_disconnect (sharder : SchemeSharder) (options : ClusterOptions) {index : Nat}
    {task : SessionTask κ σ} {reason : Option UploadStop} (hphase : run.phase = .givenUp reason)
    (htask : run.tasks[index]? = some task) :
    (run.step topology sharder options (.disconnect index)).tasks[index]? = some task.disconnect := by
  simp only [step, disconnect, hphase, htask]
  exact (getElem?_setTask index index _ run).trans (if_pos rfl)

end Later

/-- What holds of an upload at any time: what was sent is in its source, and while the upload has not begun to
complete, its sessions have come some way with that and the stores hold what they held before. -/
structure Sound {γ : Type} (topology : Topology γ) (source : Feed κ σ) (held : μ → η) (before : η)
    (run : UploadRun μ κ σ) : Prop where
  reads : run.phase.Reads source
  mem_source : ∀ index, ∀ entry ∈ run.sent index, .ok entry ∈ source
  linked : ¬ run.phase.Completes → ∀ index, run.Linked topology index
  held_eq : ¬ run.phase.Completes → held run.world = before

namespace Sound

variable {topology : Topology (Store μ ρ κ σ)} {source : Feed κ σ} {held : μ → η} {before : η}
  {run : UploadRun μ κ σ}

theorem start (topology : Topology (Store μ ρ κ σ)) (source : Feed κ σ) (held : μ → η) (world : μ) :
    (UploadRun.start source world).Sound topology source held (held world) where
  reads := ⟨[], rfl⟩
  mem_source index entry h := by
    simp [sent, UploadRun.start, UploadSessions.empty] at h
  linked _ index := by
    simp [Linked, UploadRun.start, UploadSessions.empty]
  held_eq _ := rfl

theorem setTask (h : run.Sound topology source held before) {index : Nat} {task : SessionTask κ σ}
    (htask : ¬ run.phase.Completes →
      UploadSessions.canOpen topology index = true ∧ task.Follows (run.sent index) run.phase.ongoing) :
    (run.setTask index task).Sound topology source held before where
  reads := h.reads
  mem_source := h.mem_source
  linked hphase other := by
    by_cases hother : index = other
    · subst hother
      obtain ⟨hopen, hfollows⟩ := htask hphase
      refine linked_of_task ?_ hopen hfollows
      rw [getElem?_setTask, if_pos rfl]
    · refine (h.linked hphase other).congr ?_ rfl rfl
      rw [getElem?_setTask, if_neg hother]
  held_eq := h.held_eq

theorem moveOn (h : run.Sound topology source held before) {next : UploadPhase κ σ}
    (hongoing : run.phase.ongoing = true) (hnext : next.ongoing = true) (hreads : next.Reads source) :
    ({ run with phase := next } : UploadRun μ κ σ).Sound topology source held before where
  reads := hreads
  mem_source := h.mem_source
  linked _ index :=
    (h.linked (UploadPhase.not_completes_of_ongoing hongoing) index).congr rfl rfl (hnext.trans hongoing.symm)
  held_eq _ := h.held_eq (UploadPhase.not_completes_of_ongoing hongoing)

theorem giveUp (h : run.Sound topology source held before) (hongoing : run.phase.ongoing = true)
    (reason : Option UploadStop) :
    ({ run with phase := .givenUp reason } : UploadRun μ κ σ).Sound topology source held before where
  reads := trivial
  mem_source := h.mem_source
  linked _ index := (h.linked (UploadPhase.not_completes_of_ongoing hongoing) index).giveUp reason
  held_eq _ := h.held_eq (UploadPhase.not_completes_of_ongoing hongoing)

theorem poll (h : run.Sound topology source held before) (index : Nat) :
    (run.poll index).Sound topology source held before := by
  unfold UploadRun.poll
  split
  next => exact h
  next task htask =>
    split
    next =>
      refine h.setTask fun hphase => ?_
      obtain ⟨hopen, hfollows⟩ := (h.linked hphase index).task htask
      exact ⟨hopen, hfollows.poll⟩
    next => exact h

theorem disconnect (h : run.Sound topology source held before) (index : Nat) :
    (run.disconnect index).Sound topology source held before := by
  unfold UploadRun.disconnect
  split
  next task hphase htask =>
    refine h.setTask fun hcompletes => ?_
    obtain ⟨hopen, hfollows⟩ := (h.linked hcompletes index).task htask
    rw [hphase] at hfollows ⊢
    exact ⟨hopen, hfollows.disconnect⟩
  next => exact h

theorem finish (h : run.Sound topology source held before) (index : Nat)
    (hstores : ∀ index store, topology.scheme.clientAt? index = some store →
      store.Discards held fun entry => .ok entry ∈ source) :
    (run.finish topology index).Sound topology source held before := by
  unfold UploadRun.finish
  split
  next task store htask hstore =>
    split
    next =>
      have hset : (run.setTask index { task with running := false }).Sound topology source held before := by
        refine h.setTask fun hphase => ?_
        obtain ⟨hopen, hfollows⟩ := (h.linked hphase index).task htask
        exact ⟨hopen, hfollows.stop⟩
      exact {
        reads := hset.reads
        mem_source := hset.mem_source
        linked := fun hphase other => (hset.linked hphase other).congr rfl rfl rfl
        held_eq := by
          intro hphase
          obtain ⟨entries, hsub, hfed⟩ := ((h.linked hphase index).task htask).2.fed_eq
          have hadmits : ∀ entry ∈ entries, .ok entry ∈ source := fun entry hentry =>
            h.mem_source index entry (hsub hentry)
          change held (store.upload task.fed run.world).2 = before
          rw [hfed, hstores index store hstore entries hadmits, h.held_eq hphase] }
    next => exact h
  next => exact h

private theorem sent_next (h : run.Sound topology source held before) (hongoing : run.phase.ongoing = true)
    {next : UploadPhase κ σ} (hnext : next.ongoing = true) (hreads : next.Reads source) {entry : Entry κ σ}
    (hentry : .ok entry ∈ source) {index : Nat} (hfailed : ¬ run.sessions.failed.contains index = true)
    (hopen : UploadSessions.canOpen topology index = true) {accepts : Bool} {task : SessionTask κ σ}
    (hfollows : task.Follows (if accepts then run.sent index ++ [entry] else run.sent index) true) :
    ({ run.setTask index task with
      phase := next
      sessions := run.sessions.sendTo topology (.refusing !accepts) entry index } : UploadRun μ κ σ).Sound
        topology source held before := by
  have hsessions := UploadSessions.getElem?_sendTo_opened entry (!accepts) hfailed hopen
  have hself : ((run.sessions.sendTo topology (.refusing !accepts) entry index).sent.getD index []).reverse =
      if accepts then run.sent index ++ [entry] else run.sent index := by
    rw [Std.TreeMap.getD_eq_getD_getElem?, hsessions index, if_pos rfl, Option.getD_some]
    cases accepts with
    | true => exact List.reverse_cons
    | false => rfl
  have hother : ∀ other, index ≠ other →
      (run.sessions.sendTo topology (.refusing !accepts) entry index).sent[other]? = run.sessions.sent[other]? :=
    fun other hne => (hsessions other).trans (if_neg hne)
  have hphase := UploadPhase.not_completes_of_ongoing hongoing
  exact {
    reads := hreads
    mem_source := by
      intro other e he
      by_cases heq : index = other
      · subst heq
        have hmem : e ∈ run.sent index ++ [entry] := by
          change e ∈ ((run.sessions.sendTo topology (.refusing !accepts) entry index).sent.getD index []).reverse
            at he
          rw [hself] at he
          split at he
          next => exact he
          next => exact List.mem_append_left _ he
        rcases List.mem_append.mp hmem with hsent | hlast
        · exact h.mem_source index e hsent
        · exact List.mem_singleton.mp hlast ▸ hentry
      · refine h.mem_source other e ?_
        change e ∈ ((run.sessions.sendTo topology (.refusing !accepts) entry index).sent.getD other []).reverse
          at he
        rwa [Std.TreeMap.getD_eq_getD_getElem?, hother other heq, ← Std.TreeMap.getD_eq_getD_getElem?] at he
    linked := by
      intro _ other
      by_cases heq : index = other
      · subst heq
        refine linked_of_task ((getElem?_setTask index index task run).trans (if_pos rfl)) hopen ?_
        change task.Follows
          ((run.sessions.sendTo topology (.refusing !accepts) entry index).sent.getD index []).reverse
          next.ongoing
        rwa [hself, hnext]
      · refine (h.linked hphase other).congr ?_ (hother other heq) (hnext.trans hongoing.symm)
        exact (getElem?_setTask index other task run).trans (if_neg heq)
    held_eq := fun _ => h.held_eq hphase }

theorem sendNext (h : run.Sound topology source held before) (hongoing : run.phase.ongoing = true)
    {next : UploadPhase κ σ} (hnext : next.ongoing = true) (hreads : next.Reads source) (capacity : Nat)
    {entry : Entry κ σ} (hentry : .ok entry ∈ source) (index : Nat) :
    (run.sendNext topology capacity entry index next).Sound topology source held before := by
  have hphase := UploadPhase.not_completes_of_ongoing hongoing
  unfold UploadRun.sendNext
  split
  next => exact h.moveOn hongoing hnext hreads
  next hfailed =>
    dsimp only
    split
    next htask =>
      split
      next hopen =>
        refine h.setTask fun _ => ⟨hopen, ?_⟩
        have hnone : run.sent index = [] := by
          rw [sent, Std.TreeMap.getD_eq_getD_getElem?, (h.linked hphase index).no_task htask]
          rfl
        rw [hnone]
        exact SessionTask.opened_follows _
      next hclosed =>
        have hsent : run.sessions.sent.contains index = false := by
          have hnone := (h.linked hphase index).no_task htask
          rw [Std.TreeMap.contains_eq_isSome_getElem?, hnone, Option.isSome_none]
        rw [UploadSessions.sendTo_unopened _ hfailed hsent (Bool.eq_false_iff.mpr hclosed)]
        have hmoved := h.moveOn hongoing hnext hreads
        exact {
          reads := hreads
          mem_source := hmoved.mem_source
          linked := fun hnot other => (hmoved.linked hnot other).congr rfl rfl rfl
          held_eq := hmoved.held_eq }
    next task htask =>
      split
      next => exact h
      next =>
        obtain ⟨hopen, hfollows⟩ := (h.linked hphase index).task htask
        rw [hongoing] at hfollows
        exact h.sent_next hongoing hnext hreads hentry hfailed hopen (hfollows.send entry)

/-- The sessions may be told that the upload is complete once its source was read as a whole. -/
theorem completing (h : run.Sound topology source held before) {next : UploadPhase κ σ}
    (hnext : next.Completes) (hreads : next.Reads source) (tasks : Std.TreeMap Nat (SessionTask κ σ)) :
    ({ run with phase := next, tasks } : UploadRun μ κ σ).Sound topology source held before where
  reads := hreads
  mem_source := h.mem_source
  linked hphase := absurd hnext hphase
  held_eq hphase := absurd hnext hphase

theorem completeNext (h : run.Sound topology source held before) {next : UploadPhase κ σ}
    (hnext : next.Completes) (hreads : next.Reads source) (capacity index : Nat) :
    (run.completeNext capacity index next).Sound topology source held before := by
  unfold UploadRun.completeNext
  split
  next => exact h.completing hnext hreads run.tasks
  next task htask =>
    split
    next => exact h
    next => exact h.completing hnext hreads (run.tasks.insert index (task.send .complete).disconnect)

theorem proceed [Fingerprint κ] (h : run.Sound topology source held before) (sharder : SchemeSharder)
    (options : ClusterOptions) : (run.proceed topology sharder options).Sound topology source held before := by
  have hreads := h.reads
  unfold UploadRun.proceed
  split
  next hphase =>
    rw [hphase] at hreads
    obtain ⟨read, hread⟩ := hreads
    exact h.completing ⟨_, rfl⟩ ⟨read, hread.trans (List.append_nil _)⟩ run.tasks
  next cause rest hphase => exact h.giveUp (by rw [hphase]; rfl) _
  next entry rest hphase =>
    rw [hphase] at hreads
    obtain ⟨read, hread⟩ := hreads
    have hmore : source = .ofEntries (read ++ [entry]) ++ rest := by
      rw [hread, Feed.ofEntries, Feed.ofEntries, List.map_append, List.append_assoc]
      rfl
    have hnext : (UploadPhase.sending entry (sharder.shard (hash32 entry.key)) run.sessions.failed.size rest).Reads
        source := ⟨_, hmore, List.mem_append_right _ (List.mem_singleton_self _)⟩
    have hmoved := h.moveOn (by rw [hphase]; rfl) rfl hnext
    exact {
      reads := hmoved.reads
      mem_source := hmoved.mem_source
      linked := fun hnot index => (hmoved.linked hnot index).congr rfl rfl rfl
      held_eq := hmoved.held_eq }
  next entry failures rest hphase =>
    rw [hphase] at hreads
    obtain ⟨read, hread, -⟩ := hreads
    split
    next => exact h.giveUp (by rw [hphase]; rfl) _
    next => exact h.moveOn (by rw [hphase]; rfl) rfl ⟨read, hread⟩
  next entry index targets failures rest hphase =>
    rw [hphase] at hreads
    obtain ⟨read, hread, hmem⟩ := hreads
    have hentry : .ok entry ∈ source := hread ▸ List.mem_append_left _ (Feed.mem_ofEntries.mpr hmem)
    have hnext : (UploadPhase.sending entry targets failures rest).Reads source := ⟨read, hread, hmem⟩
    exact h.sendNext (by rw [hphase]; rfl) rfl hnext _ hentry index
  next => exact h
  next index sessions hphase =>
    rw [hphase] at hreads
    have hnext : (UploadPhase.completing sessions).Reads source := hreads
    exact h.completeNext ⟨sessions, rfl⟩ hnext _ index
  next => exact h

theorem step [Fingerprint κ] (h : run.Sound topology source held before) (sharder : SchemeSharder)
    (options : ClusterOptions)
    (hstores : ∀ index store, topology.scheme.clientAt? index = some store →
      store.Discards held fun entry => .ok entry ∈ source) (event : UploadEvent) :
    (run.step topology sharder options event).Sound topology source held before := by
  cases event with
  | proceed => exact h.proceed sharder options
  | drop =>
    unfold UploadRun.step UploadRun.drop
    dsimp only
    split
    next hphase => exact h.giveUp (by rw [hphase]; rfl) none
    next hphase => exact h.giveUp (by rw [hphase]; rfl) none
    next => exact h
  | poll index => exact h.poll index
  | finish index => exact h.finish index hstores
  | disconnect index => exact h.disconnect index

theorem follow [Fingerprint κ] (h : run.Sound topology source held before) (sharder : SchemeSharder)
    (options : ClusterOptions)
    (hstores : ∀ index store, topology.scheme.clientAt? index = some store →
      store.Discards held fun entry => .ok entry ∈ source) (schedule : List UploadEvent) :
    (run.follow topology sharder options schedule).Sound topology source held before := by
  induction schedule generalizing run with
  | nil => exact h
  | cons event rest ih => exact ih (h.step sharder options hstores event)

/-- Once an upload was given up, a session that is not stopped goes on to the error after its entries. -/
theorem drained [Fingerprint κ] (h : run.Sound topology source held before) (sharder : SchemeSharder)
    (options : ClusterOptions) {reason : Option UploadStop} (hphase : run.phase = .givenUp reason) {index : Nat}
    {task : SessionTask κ σ} (htask : run.tasks[index]? = some task) (hrunning : task.running = true)
    {polls : Nat} (hpolls : (run.sent index).length + 1 < polls) :
    (run.follow topology sharder options (.disconnect index :: List.replicate polls (.poll index))).tasks[index]? =
      some ⟨.finished, .cancelled (run.sent index), true⟩ := by
  have hnot : ¬ run.phase.Completes := hphase ▸ UploadPhase.not_completes_givenUp reason
  obtain ⟨-, hfollows⟩ := (h.linked hnot index).task htask
  have hdisconnected := getElem?_step_disconnect topology sharder options hphase htask
  have hpolled := getElem?_follow_polls topology sharder options hdisconnected hrunning polls
  rw [hfollows.iterate_poll_disconnect hpolls, hrunning] at hpolled
  exact hpolled

end Sound

end UploadRun

end ReplicatedStore
