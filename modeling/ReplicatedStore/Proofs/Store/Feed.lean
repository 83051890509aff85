import ReplicatedStore.Store.Feed
/-!
# What polls find in a feed

A feed delivers the entries before its first error. The polls of an open feed find its items one by one,
up to an interruption.
-/

namespace ReplicatedStore

variable {κ σ : Type}

namespace Feed

def delivered : Feed κ σ → List (Entry κ σ)
  | .ok entry :: rest => entry :: delivered rest
  | _ => []

def fails (feed : Feed κ σ) : Bool := feed.any fun item => !item.isOk

@[simp] theorem delivered_ofEntries (entries : List (Entry κ σ)) :
    (ofEntries entries).delivered = entries := by
  induction entries with
  | nil => rfl
  | cons entry rest ih => exact congrArg (entry :: ·) ih

@[simp] theorem fails_ofEntries (entries : List (Entry κ σ)) : (ofEntries entries).fails = false := by
  simp [fails, ofEntries, Except.isOk, Except.toBool]

@[simp] theorem mem_ofEntries {entry : Entry κ σ} {entries : List (Entry κ σ)} :
    .ok entry ∈ ofEntries entries ↔ entry ∈ entries := by
  simp [ofEntries]

theorem ofEntries_injective {first second : List (Entry κ σ)} (h : ofEntries first = ofEntries second) :
    first = second := by
  rw [← delivered_ofEntries first, h, delivered_ofEntries]

theorem eq_ofEntries_of_collect {feed : Feed κ σ} {entries : List (Entry κ σ)}
    (h : feed.collect = .ok entries) : feed = .ofEntries entries := by
  induction feed generalizing entries with
  | nil =>
    cases h
    rfl
  | cons item rest ih =>
    cases item with
    | error cause => cases h
    | ok entry =>
      cases hrest : collect rest with
      | error cause =>
        rw [collect, hrest] at h
        cases h
      | ok tail =>
        rw [collect, hrest] at h
        cases h
        exact congrArg (.ok entry :: ·) (ih hrest)

theorem exists_of_collect_error {feed : Feed κ σ} {cause : StoreError} (h : feed.collect = .error cause) :
    ∃ before rest, feed = ofEntries before ++ .error cause :: rest := by
  induction feed with
  | nil => cases h
  | cons item rest ih =>
    cases item with
    | error own =>
      cases h
      exact ⟨[], rest, rfl⟩
    | ok entry =>
      cases hrest : collect rest with
      | ok entries =>
        rw [collect, hrest] at h
        cases h
      | error own =>
        rw [collect, hrest] at h
        cases h
        obtain ⟨before, later, hsplit⟩ := ih hrest
        exact ⟨entry :: before, later, congrArg (.ok entry :: ·) hsplit⟩

theorem collect_append_error (feed : Feed κ σ) (cause : StoreError) (rest : Feed κ σ) :
    ∃ first, (feed ++ .error cause :: rest).collect = .error first := by
  induction feed with
  | nil => exact ⟨cause, rfl⟩
  | cons item feed ih =>
    cases item with
    | error own => exact ⟨own, rfl⟩
    | ok entry =>
      obtain ⟨first, hfirst⟩ := ih
      exact ⟨first, by rw [List.cons_append, collect, hfirst]; rfl⟩

theorem firstError_of_collect {feed : Feed κ σ} {entries : List (Entry κ σ)} (h : feed.collect = .ok entries) :
    feed.firstError = none := by
  rw [eq_ofEntries_of_collect h]
  clear h
  induction entries with
  | nil => rfl
  | cons entry rest ih => exact congrArg (Option.map (· + 1)) ih

theorem eq_ofEntries_of_not_fails {feed : Feed κ σ} (h : feed.fails = false) :
    feed = .ofEntries feed.delivered := by
  induction feed with
  | nil => rfl
  | cons item rest ih =>
    cases item with
    | error cause => cases h
    | ok entry =>
      have hrest : fails rest = false := h
      exact congrArg (.ok entry :: ·) (ih hrest)

theorem mem_of_mem_delivered {feed : Feed κ σ} {entry : Entry κ σ} (h : entry ∈ feed.delivered) :
    .ok entry ∈ feed := by
  induction feed with
  | nil => contradiction
  | cons item rest ih =>
    cases item with
    | error cause => contradiction
    | ok first =>
      rcases List.mem_cons.mp h with rfl | hrest
      · exact List.mem_cons_self ..
      · exact List.mem_cons_of_mem _ (ih hrest)

/-- An interruption takes away the end of what is delivered, and never goes unnoticed. -/
theorem delivered_interrupted (interruption : Interruption) (polled : Nat) (feed : Feed κ σ) :
    (feed.interrupted interruption polled).delivered <+: feed.delivered ∧
      ((feed.interrupted interruption polled).fails = false →
        feed.fails = false ∧ (feed.interrupted interruption polled).delivered = feed.delivered) := by
  induction feed generalizing polled with
  | nil =>
    unfold interrupted
    cases interruption polled with
    | none => exact ⟨List.prefix_rfl, fun _ => ⟨rfl, rfl⟩⟩
    | some cause => exact ⟨List.prefix_rfl, fun h => by contradiction⟩
  | cons item rest ih =>
    unfold interrupted
    cases interruption polled with
    | some cause => exact ⟨List.nil_prefix, fun h => by contradiction⟩
    | none =>
      cases item with
      | error cause => exact ⟨List.prefix_rfl, fun h => by contradiction⟩
      | ok entry =>
        obtain ⟨hshorter, hclean⟩ := ih (polled + 1)
        refine ⟨(List.prefix_cons_inj entry).mpr hshorter, fun h => ?_⟩
        obtain ⟨hfails, hdelivered⟩ := hclean h
        exact ⟨hfails, congrArg (entry :: ·) hdelivered⟩

end Feed

namespace OpenFeed

def items (interruption : Interruption) (feed : OpenFeed κ σ) : Feed κ σ :=
  feed.rest.elim [] fun rest => rest.interrupted interruption feed.polled

@[simp] theorem items_closed (interruption : Interruption) (feed : OpenFeed κ σ) :
    feed.closed.items interruption = [] := rfl

inductive Polling (interruption : Interruption) (feed : OpenFeed κ σ) :
    Polled κ σ × OpenFeed κ σ → Prop
  | closed (h : feed.rest = none) : Polling interruption feed (.closed, feed)
  | failed {cause : StoreError} {tail : Feed κ σ} (h : feed.items interruption = .error cause :: tail) :
    Polling interruption feed (.failed cause, feed.closed)
  | ended (h : feed.items interruption = []) : Polling interruption feed (.ended, feed.closed)
  | entry {entry : Entry κ σ} {next : OpenFeed κ σ}
    (h : feed.items interruption = .ok entry :: next.items interruption) :
    Polling interruption feed (.entry entry, next)

theorem poll_polling (interruption : Interruption) (feed : OpenFeed κ σ) :
    Polling interruption feed (feed.poll interruption) := by
  obtain ⟨rest, polled⟩ := feed
  cases rest with
  | none => exact .closed rfl
  | some items =>
    cases hpolled : interruption polled with
    | some cause =>
      have hitems : items.interrupted interruption polled = [.error cause] := by
        unfold Feed.interrupted
        rw [hpolled]
      simp only [poll, hpolled]
      exact .failed hitems
    | none =>
      cases items with
      | nil =>
        simp only [poll, hpolled]
        exact .ended (by simp only [OpenFeed.items, Option.elim_some, Feed.interrupted, hpolled])
      | cons item rest =>
        have hitems : Feed.interrupted interruption polled (item :: rest) =
            item :: Feed.interrupted interruption (polled + 1) rest := by
          simp only [Feed.interrupted, hpolled]
        cases item with
        | error cause =>
          simp only [poll, hpolled]
          exact .failed hitems
        | ok entry =>
          simp only [poll, hpolled]
          exact .entry hitems

end OpenFeed

end ReplicatedStore
