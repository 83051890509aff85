import ReplicatedStore.Proofs.Cluster.Tasks
/-!
# Schedules and interleavings

An upload whose tasks run by a schedule sends what it would send under some interleaving, which is read off the
sessions at the end: a partition that failed with a session refused the entry after the last one it was sent.
-/

namespace ReplicatedStore

variable {μ ρ κ σ : Type}

/-- The interleaving that makes sessions refuse entries where they did by the end of an upload. -/
def Interleaving.leadingTo (last : UploadSessions κ σ) : Interleaving :=
  ⟨fun index count => last.failed.contains index && last.sent.contains index &&
      (last.sent.getD index []).length == count,
    fun index => (last.sent.getD index []).length, fun _ => true⟩

namespace UploadSessions

section Before

variable {γ : Type} {topology : Topology γ} {sessions between last : UploadSessions κ σ} {entry : Entry κ σ}
  {index : Nat} {refused : Bool}

structure Before (sessions last : UploadSessions κ σ) : Prop where
  failed : ∀ index, sessions.failed.contains index = true →
    last.failed.contains index = true ∧ last.sent[index]? = sessions.sent[index]?
  contains : ∀ index, sessions.sent.contains index = true → last.sent.contains index = true
  length_le : ∀ index, (sessions.sent.getD index []).length ≤ (last.sent.getD index []).length

theorem Before.refl (sessions : UploadSessions κ σ) : sessions.Before sessions :=
  ⟨fun _ h => ⟨h, rfl⟩, fun _ h => h, fun _ => Nat.le_refl _⟩

theorem Before.trans (h : sessions.Before between) (h' : between.Before last) : sessions.Before last where
  failed index hfailed := by
    obtain ⟨hbetween, hsent⟩ := h.failed index hfailed
    obtain ⟨hlast, hsent'⟩ := h'.failed index hbetween
    exact ⟨hlast, hsent'.trans hsent⟩
  contains index hcontains := h'.contains index (h.contains index hcontains)
  length_le index := Nat.le_trans (h.length_le index) (h'.length_le index)

private theorem before_failed (sessions : UploadSessions κ σ) (index : Nat) :
    sessions.Before { sessions with failed := sessions.failed.insert index } where
  failed other hother := ⟨by simp [hother], rfl⟩
  contains _ hcontains := hcontains
  length_le _ := Nat.le_refl _

private theorem before_sent (h : ¬ sessions.failed.contains index = true) {failed : IndexSet}
    {entries : List (Entry κ σ)}
    (hfailed : ∀ other, sessions.failed.contains other = true → failed.contains other = true)
    (hlength : (sessions.sent.getD index []).length ≤ entries.length) :
    sessions.Before { sessions with failed, sent := sessions.sent.insert index entries } where
  failed other hother := by
    have hne : index ≠ other := fun heq => h (heq ▸ hother)
    exact ⟨hfailed other hother, by simp [Std.TreeMap.getElem?_insert, hne]⟩
  contains other hcontains := by simp [hcontains]
  length_le other := by
    by_cases heq : index = other
    · subst heq
      simpa using hlength
    · simp [Std.TreeMap.getD_insert, heq]

theorem before_sendTo (topology : Topology γ) (sessions : UploadSessions κ σ) (entry : Entry κ σ) (index : Nat)
    (refused : Bool) : sessions.Before (sessions.sendTo topology (.refusing refused) entry index) := by
  by_cases hfailed : sessions.failed.contains index = true
  · rw [sendTo_of_failed _ hfailed]
    exact .refl sessions
  by_cases hopened : sessions.sent.contains index = true ∨ canOpen topology index = true
  · rw [sendTo_opened _ hfailed hopened]
    cases refused with
    | true => exact before_sent hfailed (fun other hother => by simp [hother]) (Nat.le_refl _)
    | false => exact before_sent hfailed (fun other hother => hother) (Nat.le_succ _)
  · obtain ⟨hsent, hclosed⟩ := not_or.mp hopened
    rw [sendTo_unopened _ hfailed (Bool.eq_false_iff.mpr hsent) (Bool.eq_false_iff.mpr hclosed)]
    exact before_failed sessions index

/-- Where a partition refuses an entry can be read off the sessions at the end. -/
theorem sendTo_leadingTo (h : (sessions.sendTo topology (.refusing refused) entry index).Before last) :
    sessions.sendTo topology (.leadingTo last) entry index =
      sessions.sendTo topology (.refusing refused) entry index := by
  by_cases hfailed : sessions.failed.contains index = true
  · rw [sendTo_of_failed _ hfailed, sendTo_of_failed _ hfailed]
  by_cases hopened : sessions.sent.contains index = true ∨ canOpen topology index = true
  · rw [sendTo_opened _ hfailed hopened] at h ⊢
    rw [sendTo_opened _ hfailed hopened]
    have hrefuses : (Interleaving.leadingTo last).refuses index (sessions.sent.getD index []).length = refused := by
      cases refused with
      | true =>
        obtain ⟨hlast, hsent⟩ := h.failed index (by simp [Interleaving.refusing])
        have hget : last.sent[index]? = some (sessions.sent.getD index []) := by
          rw [hsent]
          simp [Interleaving.refusing]
        have hcontains : last.sent.contains index = true := by
          rw [Std.TreeMap.contains_eq_isSome_getElem?, hget, Option.isSome_some]
        simp only [Interleaving.leadingTo, hlast, hcontains, Std.TreeMap.getD_eq_getD_getElem?, hget,
          Option.getD_some, beq_self_eq_true, Bool.and_self]
      | false =>
        -- this entry is among those sent by the end, so the session did not refuse it
        have hlonger := h.length_le index
        simp only [Interleaving.refusing, Bool.false_eq_true, if_false, Std.TreeMap.getD_insert_self,
          List.length_cons] at hlonger
        have hne : ((last.sent.getD index []).length == (sessions.sent.getD index []).length) = false :=
          beq_false_of_ne (by omega)
        simp only [Interleaving.leadingTo, hne, Bool.and_false]
    rw [hrefuses]
    rfl
  · obtain ⟨hsent, hclosed⟩ := not_or.mp hopened
    rw [sendTo_unopened _ hfailed (Bool.eq_false_iff.mpr hsent) (Bool.eq_false_iff.mpr hclosed),
      sendTo_unopened _ hfailed (Bool.eq_false_iff.mpr hsent) (Bool.eq_false_iff.mpr hclosed)]

end Before

end UploadSessions

namespace UploadRun

private theorem sendNext_cases (topology : Topology (Store μ ρ κ σ)) (capacity : Nat) (entry : Entry κ σ)
    (index : Nat) (next : UploadPhase κ σ) (run : UploadRun μ κ σ) :
    let after := run.sendNext topology capacity entry index next
    (after.phase = run.phase ∧ after.sessions = run.sessions) ∨
      ∃ refused, after.phase = next ∧
        after.sessions = run.sessions.sendTo topology (.refusing refused) entry index := by
  intro after
  simp only [after, sendNext]
  split
  next hfailed => exact .inr ⟨false, rfl, (UploadSessions.sendTo_of_failed _ hfailed).symm⟩
  next =>
    split
    next =>
      split
      next => exact .inl ⟨rfl, rfl⟩
      next => exact .inr ⟨false, rfl, rfl⟩
    next task htask =>
      split
      next => exact .inl ⟨rfl, rfl⟩
      next => exact .inr ⟨_, rfl, rfl⟩

private theorem completeNext_cases (capacity : Nat) (index : Nat) (next : UploadPhase κ σ)
    (run : UploadRun μ κ σ) :
    let after := run.completeNext capacity index next
    (after.phase = run.phase ∨ after.phase = next) ∧ after.sessions = run.sessions := by
  intro after
  simp only [after, completeNext]
  split
  next => exact ⟨.inr rfl, rfl⟩
  next =>
    split
    next => exact ⟨.inl rfl, rfl⟩
    next => exact ⟨.inr rfl, rfl⟩

variable [Fingerprint κ] {topology : Topology (Store μ ρ κ σ)} {sharder : SchemeSharder} {options : ClusterOptions}
  {run : UploadRun μ κ σ} {last : UploadSessions κ σ}

def checked (topology : Topology (Store μ ρ κ σ)) (sharder : SchemeSharder) (options : ClusterOptions)
    (interleaving : Interleaving) (failures : Nat) (rest : Feed κ σ) (after : UploadSessions κ σ) :
    UploadStop × UploadSessions κ σ :=
  if after.failed.size ≠ failures ∧
      sharder.isWriteSatisfied after.failed after.buckets options.uploadQuorum = false then
    (.quorumLost, after)
  else after.sendAll topology sharder options.uploadQuorum interleaving rest

def outcome (topology : Topology (Store μ ρ κ σ)) (sharder : SchemeSharder) (options : ClusterOptions)
    (interleaving : Interleaving) (run : UploadRun μ κ σ) : Option (UploadStop × UploadSessions κ σ) :=
  match run.phase with
  | .reading rest => some (run.sessions.sendAll topology sharder options.uploadQuorum interleaving rest)
  | .sending entry targets failures rest =>
    some (checked topology sharder options interleaving failures rest
      (targets.foldl (UploadSessions.sendTo topology interleaving entry) run.sessions))
  | .completing _ => some (.ended, run.sessions)
  | .givenUp reason => reason.map (·, run.sessions)

theorem outcome_congr {other : UploadRun μ κ σ} (hphase : other.phase = run.phase)
    (hsessions : other.sessions = run.sessions) (interleaving : Interleaving) :
    other.outcome topology sharder options interleaving = run.outcome topology sharder options interleaving := by
  unfold outcome
  rw [hphase, hsessions]

private theorem proceed_replays (topology : Topology (Store μ ρ κ σ)) (sharder : SchemeSharder)
    (options : ClusterOptions) (run : UploadRun μ κ σ) :
    let after := run.proceed topology sharder options
    run.sessions.Before after.sessions ∧ ∀ last, after.sessions.Before last →
      after.outcome topology sharder options (.leadingTo last) =
        run.outcome topology sharder options (.leadingTo last) := by
  intro after
  have hsame {other : UploadRun μ κ σ} (h : other.sessions = run.sessions) :
      run.sessions.Before other.sessions := h ▸ .refl _
  simp only [after, proceed]
  split
  next hphase =>
    refine ⟨hsame rfl, fun last _ => ?_⟩
    simp only [outcome, hphase, UploadSessions.sendAll]
  next cause rest hphase =>
    refine ⟨hsame rfl, fun last _ => ?_⟩
    simp only [outcome, hphase, UploadSessions.sendAll, Option.map_some]
  next entry rest hphase =>
    refine ⟨⟨fun _ h => ⟨h, rfl⟩, fun _ h => h, fun _ => Nat.le_refl _⟩, fun last _ => ?_⟩
    simp only [outcome, hphase, UploadSessions.sendAll, UploadSessions.send]
    rfl
  next entry failures rest hphase =>
    split
    next hlost =>
      refine ⟨hsame rfl, fun last _ => ?_⟩
      simp only [outcome, hphase, Option.map_some]
      exact congrArg some (if_pos hlost).symm
    next hkept =>
      refine ⟨hsame rfl, fun last _ => ?_⟩
      simp only [outcome, hphase]
      exact congrArg some (if_neg hkept).symm
  next entry index targets failures rest hphase =>
    rcases sendNext_cases topology options.channelCapacity entry index (.sending entry targets failures rest) run
      with ⟨hstill, hsessions⟩ | ⟨refused, hnext, hsessions⟩
    · exact ⟨hsame hsessions, fun last _ => outcome_congr hstill hsessions _⟩
    · rw [hsessions]
      refine ⟨UploadSessions.before_sendTo .., fun last hlast => ?_⟩
      simp only [outcome, hphase, hnext, hsessions, List.foldl_cons]
      rw [← UploadSessions.sendTo_leadingTo hlast]
  next hphase => exact ⟨hsame rfl, fun last _ => rfl⟩
  next index sessions hphase =>
    obtain ⟨hnext, hsessions⟩ := completeNext_cases options.channelCapacity index (.completing sessions) run
    refine ⟨hsame hsessions, fun last _ => ?_⟩
    rcases hnext with hnext | hnext
    · exact outcome_congr hnext hsessions _
    · simp only [outcome, hphase, hnext, hsessions]
  next reason hphase => exact ⟨hsame rfl, fun last _ => rfl⟩

private theorem step_replays (topology : Topology (Store μ ρ κ σ)) (sharder : SchemeSharder)
    (options : ClusterOptions) (run : UploadRun μ κ σ) (event : UploadEvent) :
    let after := run.step topology sharder options event
    run.sessions.Before after.sessions ∧ ∀ last, after.sessions.Before last → ∀ result,
      after.outcome topology sharder options (.leadingTo last) = some result →
        run.outcome topology sharder options (.leadingTo last) = some result := by
  have hsame {other : UploadRun μ κ σ} (hphase : other.phase = run.phase) (hsessions : other.sessions = run.sessions) :
      run.sessions.Before other.sessions ∧ ∀ last, other.sessions.Before last → ∀ result,
        other.outcome topology sharder options (.leadingTo last) = some result →
          run.outcome topology sharder options (.leadingTo last) = some result :=
    ⟨hsessions ▸ .refl _, fun last _ result h => outcome_congr hphase hsessions _ ▸ h⟩
  have hdropped : run.sessions.Before run.sessions ∧ ∀ last, run.sessions.Before last → ∀ result,
      ({ run with phase := .givenUp none } : UploadRun μ κ σ).outcome topology sharder options (.leadingTo last) =
          some result →
        run.outcome topology sharder options (.leadingTo last) = some result :=
    ⟨.refl _, fun _ _ result h => absurd h.symm (Option.some_ne_none result)⟩
  cases event with
  | proceed =>
    obtain ⟨hbefore, houtcome⟩ := proceed_replays topology sharder options run
    exact ⟨hbefore, fun last hlast result h => houtcome last hlast ▸ h⟩
  | drop =>
    unfold UploadRun.step drop
    dsimp only
    split
    next => exact hdropped
    next => exact hdropped
    next => exact hsame rfl rfl
  | poll index =>
    unfold UploadRun.step poll
    dsimp only
    split
    next => exact hsame rfl rfl
    next => split <;> exact hsame rfl rfl
  | finish index =>
    unfold UploadRun.step finish
    dsimp only
    split
    next => split <;> exact hsame rfl rfl
    next => exact hsame rfl rfl
  | disconnect index =>
    unfold UploadRun.step disconnect
    dsimp only
    split
    next hphase _ => exact hsame rfl rfl
    next => exact hsame rfl rfl

private theorem before_follow (topology : Topology (Store μ ρ κ σ)) (sharder : SchemeSharder)
    (options : ClusterOptions) (run : UploadRun μ κ σ) (schedule : List UploadEvent) :
    run.sessions.Before (run.follow topology sharder options schedule).sessions := by
  induction schedule generalizing run with
  | nil => exact .refl _
  | cons event rest ih => exact (step_replays topology sharder options run event).1.trans (ih _)

private theorem follow_replays (schedule : List UploadEvent) {last : UploadSessions κ σ}
    (hlast : (run.follow topology sharder options schedule).sessions.Before last)
    {result : UploadStop × UploadSessions κ σ}
    (h : (run.follow topology sharder options schedule).outcome topology sharder options (.leadingTo last) =
      some result) : run.outcome topology sharder options (.leadingTo last) = some result := by
  induction schedule generalizing run with
  | nil => exact h
  | cons event rest ih =>
    have hafter := (before_follow topology sharder options (run.step topology sharder options event) rest).trans hlast
    exact (step_replays topology sharder options run event).2 last hafter result (ih hlast h)

/-- An upload that returned an error by some schedule sends the same entries, and fails for the same reason, under
some interleaving of its sessions. -/
theorem sendAll_of_givenUp (source : Feed κ σ) (world : μ) (schedule : List UploadEvent) {reason : UploadStop}
    (h : ((start source world).follow topology sharder options schedule).phase = .givenUp (some reason)) :
    ∃ interleaving, UploadSessions.empty.sendAll topology sharder options.uploadQuorum interleaving source =
      (reason, ((start source world).follow topology sharder options schedule).sessions) := by
  refine ⟨.leadingTo ((start source world).follow topology sharder options schedule).sessions, ?_⟩
  have houtcome : ((start source world).follow topology sharder options schedule).outcome topology sharder options
      (.leadingTo ((start source world).follow topology sharder options schedule).sessions) =
        some (reason, ((start source world).follow topology sharder options schedule).sessions) := by
    simp only [outcome, h, Option.map_some]
  exact Option.some_inj.mp (follow_replays schedule (.refl _) houtcome)

end UploadRun

end ReplicatedStore
