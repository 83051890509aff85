import ReplicatedStore.Cluster.Upload
import ReplicatedStore.Proofs.Routing.Scheme
/-!
# Sessions of an upload

What the sessions of an upload hold while its source is read: a partition that has not failed was sent
exactly the entries written to it, in their order. Completing the sessions is a run of uploads to single
stores, one for each session.
-/

namespace ReplicatedStore

variable {μ ρ κ σ γ : Type}

def SchemeSharder.targets [Fingerprint κ] (sharder : SchemeSharder) (index : Nat)
    (entry : Entry κ σ) : Bool :=
  (sharder.shard (hash32 entry.key)).contains index

namespace UploadSessions

private inductive Sending (entry : Entry κ σ) (index : Nat) :
    UploadSessions κ σ → UploadSessions κ σ → Prop
  | skipped {sessions} (h : index ∈ sessions.failed) : Sending entry index sessions sessions
  | unopened {sessions} :
    Sending entry index sessions { sessions with failed := sessions.failed.insert index }
  | refused {sessions} :
    Sending entry index sessions
      { sessions with
        failed := sessions.failed.insert index
        sent := sessions.sent.insert index (sessions.sent.getD index []) }
  | accepted {sessions} (h : index ∉ sessions.failed) :
    Sending entry index sessions
      { sessions with sent := sessions.sent.insert index (entry :: sessions.sent.getD index []) }

private theorem sendTo_sending (topology : Topology γ) (interleaving : Interleaving) (entry : Entry κ σ)
    (sessions : UploadSessions κ σ) (index : Nat) :
    Sending entry index sessions (sessions.sendTo topology interleaving entry index) := by
  unfold sendTo
  split
  next h => exact .skipped (Std.TreeSet.mem_iff_contains.mpr h)
  next h =>
    dsimp only
    split
    next => exact .unopened
    next =>
      split
      next => exact .refused
      next => exact .accepted (by simpa using h)

namespace Sending

variable {entry : Entry κ σ} {index other : Nat} {before after : UploadSessions κ σ}

private theorem buckets_eq (h : Sending entry index before after) : after.buckets = before.buckets := by
  cases h <;> rfl

private theorem sent_other (h : Sending entry index before after) (hne : other ≠ index) :
    after.sent[other]? = before.sent[other]? := by
  cases h <;> simp [Std.TreeMap.getElem?_insert, Ne.symm hne]

private theorem failed_other (h : Sending entry index before after) (hne : other ≠ index) :
    other ∈ after.failed ↔ other ∈ before.failed := by
  cases h <;> simp [Ne.symm hne]

private theorem failed_kept (h : Sending entry index before after) (hfailed : other ∈ before.failed) :
    other ∈ after.failed := by
  cases h with
  | skipped => exact hfailed
  | unopened => exact Std.TreeSet.mem_insert.mpr (.inr hfailed)
  | refused => exact Std.TreeSet.mem_insert.mpr (.inr hfailed)
  | accepted => exact hfailed

private theorem sent_self (h : Sending entry index before after)
    (hhealthy : index ∉ after.failed) :
    index ∉ before.failed ∧
      after.sent[index]? = some (entry :: before.sent.getD index []) := by
  cases h with
  | skipped h => exact absurd h hhealthy
  | unopened => simp at hhealthy
  | refused => simp at hhealthy
  | accepted h => exact ⟨h, Std.TreeMap.getElem?_insert_self⟩

private theorem mem_sent (h : Sending entry index before after) {e : Entry κ σ}
    (he : e ∈ after.sent.getD other []) : e = entry ∨ e ∈ before.sent.getD other [] := by
  by_cases hne : other = index
  · subst hne
    cases h with
    | skipped h => exact .inr he
    | unopened => exact .inr he
    | refused =>
      rw [Std.TreeMap.getD_insert_self] at he
      exact .inr he
    | accepted h =>
      rw [Std.TreeMap.getD_insert_self] at he
      exact List.mem_cons.mp he
  · rw [Std.TreeMap.getD_eq_getD_getElem?, h.sent_other hne] at he
    rw [Std.TreeMap.getD_eq_getD_getElem?]
    exact .inr he

end Sending

section Fold

variable {topology : Topology γ} {interleaving : Interleaving} {entry : Entry κ σ}
  {sessions : UploadSessions κ σ} {indices : List Nat} {index : Nat}

private theorem foldl_sendTo_buckets :
    (indices.foldl (sendTo topology interleaving entry) sessions).buckets = sessions.buckets := by
  induction indices generalizing sessions with
  | nil => rfl
  | cons first rest ih => rw [List.foldl_cons, ih, (sendTo_sending ..).buckets_eq]

private theorem foldl_sendTo_other (h : index ∉ indices) :
    (indices.foldl (sendTo topology interleaving entry) sessions).sent[index]? = sessions.sent[index]? ∧
      (index ∈ (indices.foldl (sendTo topology interleaving entry) sessions).failed ↔
        index ∈ sessions.failed) := by
  induction indices generalizing sessions with
  | nil => exact ⟨rfl, .rfl⟩
  | cons first rest ih =>
    have hne := List.ne_of_not_mem_cons h
    have hrest := List.not_mem_of_not_mem_cons h
    have hstep := sendTo_sending topology interleaving entry sessions first
    have ⟨hsent, hfailed⟩ := @ih (sessions.sendTo topology interleaving entry first) hrest
    exact ⟨hsent.trans (hstep.sent_other hne), hfailed.trans (hstep.failed_other hne)⟩

private theorem foldl_sendTo_self (hnodup : indices.Nodup) (hmem : index ∈ indices)
    (hhealthy : index ∉ (indices.foldl (sendTo topology interleaving entry) sessions).failed) :
    index ∉ sessions.failed ∧
      (indices.foldl (sendTo topology interleaving entry) sessions).sent[index]? =
        some (entry :: sessions.sent.getD index []) := by
  induction indices generalizing sessions with
  | nil => contradiction
  | cons first rest ih =>
    obtain ⟨hfirst, hrest⟩ := List.nodup_cons.mp hnodup
    have hstep := sendTo_sending topology interleaving entry sessions first
    rw [List.foldl_cons] at hhealthy ⊢
    by_cases heq : index = first
    · subst heq
      obtain ⟨hsent, hfailed⟩ := foldl_sendTo_other hfirst
      rw [hsent]
      exact hstep.sent_self fun hmem => hhealthy (hfailed.mpr hmem)
    · have htail : index ∈ rest := (List.mem_cons.mp hmem).resolve_left heq
      obtain ⟨hbefore, hsent⟩ := ih hrest htail hhealthy
      rw [Std.TreeMap.getD_eq_getD_getElem?, hstep.sent_other heq] at hsent
      rw [Std.TreeMap.getD_eq_getD_getElem?]
      exact ⟨fun hmem => hbefore ((hstep.failed_other heq).mpr hmem), hsent⟩

private theorem foldl_sendTo_failed (h : index ∈ sessions.failed) :
    index ∈ (indices.foldl (sendTo topology interleaving entry) sessions).failed := by
  induction indices generalizing sessions with
  | nil => exact h
  | cons first rest ih => exact ih ((sendTo_sending ..).failed_kept h)

private theorem foldl_sendTo_mem {e : Entry κ σ}
    (h : e ∈ (indices.foldl (sendTo topology interleaving entry) sessions).sent.getD index []) :
    e = entry ∨ e ∈ sessions.sent.getD index [] := by
  induction indices generalizing sessions with
  | nil => exact .inr h
  | cons first rest ih =>
    rcases ih h with heq | hmem
    · exact .inl heq
    · exact (sendTo_sending topology interleaving entry sessions first).mem_sent hmem

end Fold

theorem contains_buckets_send [Fingerprint κ] (topology : Topology γ) (sharder : SchemeSharder)
    (interleaving : Interleaving) (sessions : UploadSessions κ σ) (entry : Entry κ σ) (bucket : Bucket) :
    (sessions.send topology sharder interleaving entry).buckets.contains bucket =
      (sessions.buckets.contains bucket || decide (bucket = Bucket.ofHash (hash32 entry.key))) := by
  unfold send
  dsimp only
  rw [foldl_sendTo_buckets, BucketSet.contains_insert]

theorem mem_failed_send [Fingerprint κ] (topology : Topology γ) (sharder : SchemeSharder)
    (interleaving : Interleaving) {sessions : UploadSessions κ σ} (entry : Entry κ σ) {index : Nat}
    (h : index ∈ sessions.failed) : index ∈ (sessions.send topology sharder interleaving entry).failed :=
  foldl_sendTo_failed h

def Within (bound : Nat) (sessions : UploadSessions κ σ) : Prop :=
  ∀ index, index ∈ sessions.failed ∨ index ∈ sessions.sent → index < bound

theorem within_empty (bound : Nat) : (empty : UploadSessions κ σ).Within bound := by
  intro index h
  simp [empty] at h

private theorem Within.send [Fingerprint κ] {bound : Nat} {sessions : UploadSessions κ σ}
    (h : sessions.Within bound) (topology : Topology γ) {sharder : SchemeSharder}
    (hsharder : ∀ keyHash, ∀ index ∈ sharder.shard keyHash, index < bound) (interleaving : Interleaving)
    (entry : Entry κ σ) : (sessions.send topology sharder interleaving entry).Within bound := by
  intro index htouched
  by_cases hmem : index ∈ sharder.shard (hash32 entry.key)
  · exact hsharder _ index hmem
  · unfold UploadSessions.send at htouched
    obtain ⟨hsent, hfailed⟩ := foldl_sendTo_other hmem
    rw [hfailed, Std.TreeMap.mem_iff_isSome_getElem?, hsent, ← Std.TreeMap.mem_iff_isSome_getElem?] at htouched
    exact h index htouched

theorem Within.sendAll [Fingerprint κ] {bound : Nat} {sessions : UploadSessions κ σ} (h : sessions.Within bound)
    (topology : Topology γ) {sharder : SchemeSharder}
    (hsharder : ∀ keyHash, ∀ index ∈ sharder.shard keyHash, index < bound) (quorum : Quorum)
    (interleaving : Interleaving) (source : Feed κ σ) :
    (sessions.sendAll topology sharder quorum interleaving source).2.Within bound := by
  induction source generalizing sessions with
  | nil => exact h
  | cons item rest ih =>
    cases item with
    | error cause => exact h
    | ok entry =>
      have hsend := h.send topology hsharder interleaving entry
      rw [UploadSessions.sendAll]
      split
      next => exact hsend
      next => exact ih hsend

/-- Sending is given up only where the write falls short. -/
theorem unsatisfied_of_quorumLost [Fingerprint κ] {topology : Topology γ} {sharder : SchemeSharder}
    {quorum : Quorum} {interleaving : Interleaving} {source : Feed κ σ} {sessions after : UploadSessions κ σ}
    (h : sessions.sendAll topology sharder quorum interleaving source = (.quorumLost, after)) :
    sharder.isWriteSatisfied after.failed after.buckets quorum = false := by
  induction source generalizing sessions with
  | nil => cases h
  | cons item rest ih =>
    cases item with
    | error cause => cases h
    | ok entry =>
      rw [UploadSessions.sendAll] at h
      split at h
      next hlost =>
        cases h
        exact hlost.2
      next => exact ih h

def sessionOf : List (Entry κ σ) → Option (List (Entry κ σ))
  | [] => none
  | entries => some entries.reverse

private theorem sessionOf_append (entries : List (Entry κ σ)) (entry : Entry κ σ) :
    sessionOf (entries ++ [entry]) = some (entry :: (sessionOf entries).getD []) := by
  cases entries with
  | nil => rfl
  | cons first rest => simp [sessionOf]

structure Holds [Fingerprint κ] (sharder : SchemeSharder) (read : List (Entry κ σ))
    (sessions : UploadSessions κ σ) : Prop where
  buckets : ∀ entry ∈ read, sessions.buckets.contains (Bucket.ofHash (hash32 entry.key)) = true
  sent : ∀ index, index ∉ sessions.failed →
    sessions.sent[index]? = sessionOf (read.filter (sharder.targets index))
  mem_read : ∀ index, ∀ entry ∈ sessions.sent.getD index [], entry ∈ read

namespace Holds

variable [Fingerprint κ] {sharder : SchemeSharder} {read : List (Entry κ σ)}
  {sessions : UploadSessions κ σ}

theorem empty (sharder : SchemeSharder) :
    Holds sharder ([] : List (Entry κ σ)) .empty where
  buckets := by simp
  sent index _ := Std.TreeMap.getElem?_emptyc
  mem_read index entry h := by
    rw [UploadSessions.empty, Std.TreeMap.getD_emptyc] at h
    contradiction

private theorem send (h : Holds sharder read sessions) (topology : Topology γ)
    (interleaving : Interleaving) (entry : Entry κ σ) :
    Holds sharder (read ++ [entry]) (sessions.send topology sharder interleaving entry) where
  buckets e he := by
    unfold UploadSessions.send
    dsimp only
    rw [foldl_sendTo_buckets, BucketSet.contains_insert]
    rcases List.mem_append.mp he with hread | hlast
    · rw [h.buckets e hread, Bool.true_or]
    · rw [List.mem_singleton.mp hlast]
      simp
  sent index hhealthy := by
    unfold UploadSessions.send at hhealthy ⊢
    dsimp only at hhealthy ⊢
    rw [List.filter_append]
    by_cases hmem : index ∈ sharder.shard (hash32 entry.key)
    · have htarget : sharder.targets index entry = true := List.contains_iff_mem.mpr hmem
      obtain ⟨hbefore, hsent⟩ := foldl_sendTo_self (sharder.nodup_shard _) hmem hhealthy
      rw [hsent, Std.TreeMap.getD_eq_getD_getElem?, h.sent index hbefore,
        List.filter_cons_of_pos htarget, List.filter_nil, sessionOf_append]
    · have htarget : ¬sharder.targets index entry = true := fun h => hmem (List.contains_iff_mem.mp h)
      obtain ⟨hsent, hfailed⟩ := foldl_sendTo_other hmem
      rw [hsent, List.filter_cons_of_neg htarget, List.filter_nil, List.append_nil]
      exact h.sent index fun hmem => hhealthy (hfailed.mpr hmem)
  mem_read index e he := by
    rcases foldl_sendTo_mem he with rfl | hmem
    · exact List.mem_append_right read (List.mem_singleton_self _)
    · exact List.mem_append_left _ (h.mem_read index e hmem)

/-- Reading on keeps what the sessions hold. What is read begins the source, and is all of a source that ends. -/
theorem sendAll_begins {topology : Topology γ} {interleaving : Interleaving} {quorum : Quorum}
    {source : Feed κ σ} {stop : UploadStop} {after : UploadSessions κ σ}
    (h : Holds sharder read sessions)
    (hrun : sessions.sendAll topology sharder quorum interleaving source = (stop, after)) :
    ∃ more, Feed.ofEntries more <+: source ∧ Holds sharder (read ++ more) after ∧
      (stop = .ended → source = .ofEntries more) := by
  induction source generalizing read sessions with
  | nil =>
    cases hrun
    exact ⟨[], List.prefix_rfl, by rwa [List.append_nil], fun _ => rfl⟩
  | cons item rest ih =>
    cases item with
    | error cause =>
      cases hrun
      exact ⟨[], List.nil_prefix, by rwa [List.append_nil], fun hstop => by contradiction⟩
    | ok entry =>
      have hsend := h.send topology interleaving entry
      rw [UploadSessions.sendAll] at hrun
      split at hrun
      next =>
        cases hrun
        exact ⟨[entry], ⟨rest, rfl⟩, hsend, fun hstop => by contradiction⟩
      next =>
        obtain ⟨more, hbegins, hmore, hended⟩ := ih hsend hrun
        refine ⟨entry :: more, (List.prefix_cons_inj _).mpr hbegins, by rwa [List.append_assoc] at hmore,
          fun hstop => ?_⟩
        rw [hended hstop]
        rfl

theorem sendAll {topology : Topology γ} {interleaving : Interleaving} {quorum : Quorum}
    {source : Feed κ σ} {stop : UploadStop} {after : UploadSessions κ σ}
    (h : Holds sharder read sessions)
    (hrun : sessions.sendAll topology sharder quorum interleaving source = (stop, after)) :
    ∃ more, Holds sharder (read ++ more) after ∧ (stop = .ended → source = .ofEntries more) := by
  obtain ⟨more, -, hmore⟩ := h.sendAll_begins hrun
  exact ⟨more, hmore⟩

end Holds

end UploadSessions

/-- The upload of a session's feed to the store of its partition, with the answer of the store. -/
structure SessionUpload (κ σ : Type) where
  index : Nat
  feed : Feed κ σ
  answer : Except StoreError Unit

/-- Uploads to the stores of partitions, one after the other, lead from one state of the world to
another. -/
inductive SessionRun (client : Nat → Option (Store μ ρ κ σ)) : List (SessionUpload κ σ) → μ → μ → Prop
  | nil (world : μ) : SessionRun client [] world world
  | cons {upload : SessionUpload κ σ} {rest : List (SessionUpload κ σ)} {before between after : μ}
    {store : Store μ ρ κ σ} (hclient : client upload.index = some store)
    (hupload : store.upload upload.feed before = (upload.answer, between))
    (hrest : SessionRun client rest between after) : SessionRun client (upload :: rest) before after

namespace UploadSessions

variable {client : Nat → Option (Store μ ρ κ σ)} {interleaving : Interleaving}

private theorem filter_eq_nil_of_not_mem {index : Nat} {uploads : List (SessionUpload κ σ)}
    (h : index ∉ uploads.map SessionUpload.index) :
    (uploads.filter fun upload => upload.index == index) = [] := by
  refine List.filter_eq_nil_iff.mpr fun upload hmem heq => h ?_
  exact List.mem_map.mpr ⟨upload, hmem, beq_iff_eq.mp heq⟩

/-- How some uploads to stores complete sessions, so that the partitions `last` have failed in the end:
each partition that has not took the whole of its session, once. -/
structure Completion (client : Nat → Option (Store μ ρ κ σ)) (interleaving : Interleaving)
    (sessions : List (Nat × List (Entry κ σ))) (last : IndexSet) (uploads : List (SessionUpload κ σ))
    (before after : μ) : Prop where
  run : SessionRun client uploads before after
  order : (uploads.map SessionUpload.index).Sublist (sessions.map Prod.fst)
  healthy : ∀ index sent, (index, sent) ∈ sessions → index ∉ last →
    (uploads.filter fun upload => upload.index == index) = [⟨index, feedOf sent true, .ok ()⟩]
  fed : ∀ upload ∈ uploads, ∃ sent, (upload.index, sent) ∈ sessions ∧
    (upload.feed = feedOf sent true ∨ upload.feed = refusedFeed interleaving upload.index sent)

namespace Completion

variable {rest : List (Nat × List (Entry κ σ))} {last : IndexSet} {uploads : List (SessionUpload κ σ)}
  {before between after : μ} {index : Nat} {sent : List (Entry κ σ)}

private theorem skip (h : Completion client interleaving rest last uploads before after)
    (hfailed : index ∈ last) :
    Completion client interleaving ((index, sent) :: rest) last uploads before after where
  run := h.run
  order := h.order.trans (List.sublist_cons_self ..)
  healthy i s hmem hhealthy := by
    rcases List.mem_cons.mp hmem with heq | hrest
    · cases heq
      exact absurd hfailed hhealthy
    · exact h.healthy i s hrest hhealthy
  fed upload hmem := by
    obtain ⟨s, hs, hfeed⟩ := h.fed upload hmem
    exact ⟨s, List.mem_cons_of_mem _ hs, hfeed⟩

private theorem add {store : Store μ ρ κ σ} {feed : Feed κ σ} {answer : Except StoreError Unit}
    (h : Completion client interleaving rest last uploads between after)
    (hnew : index ∉ rest.map Prod.fst) (hclient : client index = some store)
    (hupload : store.upload feed before = (answer, between))
    (hfeed : feed = feedOf sent true ∨ feed = refusedFeed interleaving index sent)
    (hhealthy : index ∉ last → feed = feedOf sent true ∧ answer = .ok ()) :
    Completion client interleaving ((index, sent) :: rest) last (⟨index, feed, answer⟩ :: uploads)
      before after where
  run := .cons hclient hupload h.run
  order := h.order.cons_cons index
  healthy i s hmem hi := by
    rcases List.mem_cons.mp hmem with heq | hrest
    · cases heq
      obtain ⟨rfl, rfl⟩ := hhealthy hi
      have hothers := filter_eq_nil_of_not_mem fun hmem => hnew (h.order.subset hmem)
      simp only [List.filter_cons, beq_self_eq_true, if_true, hothers]
    · have hne : index ≠ i := by
        rintro rfl
        exact hnew (List.mem_map_of_mem hrest)
      rw [List.filter_cons_of_neg (by simpa using hne)]
      exact h.healthy i s hrest hi
  fed upload hmem := by
    rcases List.mem_cons.mp hmem with rfl | hrest
    · exact ⟨sent, List.mem_cons_self .., hfeed⟩
    · obtain ⟨s, hs, hfeed⟩ := h.fed upload hrest
      exact ⟨s, List.mem_cons_of_mem _ hs, hfeed⟩

end Completion

theorem completeAll_completion {sessions : List (Nat × List (Entry κ σ))} {failed last : IndexSet}
    {before after : μ} (hnodup : (sessions.map Prod.fst).Nodup)
    (h : completeAll Store.upload client interleaving sessions failed before = (last, after)) :
    (∀ index, index ∈ failed → index ∈ last) ∧
      ∃ uploads, Completion client interleaving sessions last uploads before after := by
  induction sessions generalizing failed before with
  | nil =>
    cases h
    exact ⟨fun index => id, [], .nil _, .slnil, by simp, by simp⟩
  | cons session rest ih =>
    obtain ⟨index, sent⟩ := session
    obtain ⟨hnew, hrest⟩ := List.nodup_cons.mp hnodup
    rw [completeAll] at h
    cases hclient : client index with
    | none =>
      rw [hclient] at h
      obtain ⟨hkept, uploads, hmore⟩ := ih hrest h
      exact ⟨fun i hi => hkept i (Std.TreeSet.mem_insert.mpr (.inr hi)), uploads,
        hmore.skip (hkept index Std.TreeSet.mem_insert_self)⟩
    | some store =>
      rw [hclient] at h
      dsimp only at h
      split at h
      next hfailed =>
        obtain ⟨hkept, uploads, hmore⟩ := ih hrest h
        have hlast := hkept index (Std.TreeSet.mem_iff_contains.mpr hfailed)
        exact ⟨hkept, _, hmore.add hnew hclient rfl (.inr rfl) (absurd hlast)⟩
      next =>
        split at h
        next between hanswer =>
          obtain ⟨hkept, uploads, hmore⟩ := ih hrest h
          exact ⟨hkept, _, hmore.add hnew hclient hanswer (.inl rfl) fun _ => ⟨rfl, rfl⟩⟩
        next cause between hanswer =>
          obtain ⟨hkept, uploads, hmore⟩ := ih hrest h
          have hlast := hkept index Std.TreeSet.mem_insert_self
          exact ⟨fun i hi => hkept i (Std.TreeSet.mem_insert.mpr (.inr hi)), _,
            hmore.add hnew hclient hanswer (.inl rfl) (absurd hlast)⟩

private theorem mem_of_mem_insert {failed : IndexSet} {index other : Nat} (h : index ∈ failed.insert other) :
    index = other ∨ index ∈ failed := by
  rw [Std.TreeSet.mem_insert] at h
  exact h.imp_left fun heq => (Nat.compare_eq_eq.mp heq).symm

theorem mem_of_mem_completeAll {sessions : List (Nat × List (Entry κ σ))} {failed : IndexSet} {world : μ}
    {index : Nat}
    (h : index ∈ (completeAll Store.upload client interleaving sessions failed world).1) :
    index ∈ failed ∨ index ∈ sessions.map Prod.fst := by
  induction sessions generalizing failed world with
  | nil => exact .inl h
  | cons session rest ih =>
    obtain ⟨other, sent⟩ := session
    have hkept : index ∈ failed ∨ index ∈ rest.map Prod.fst →
        index ∈ failed ∨ index ∈ ((other, sent) :: rest).map Prod.fst :=
      Or.imp_right (List.mem_cons_of_mem other)
    have hadded : index ∈ failed.insert other ∨ index ∈ rest.map Prod.fst →
        index ∈ failed ∨ index ∈ ((other, sent) :: rest).map Prod.fst := by
      intro hmem
      rcases hmem with hinserted | hrest
      · rcases mem_of_mem_insert hinserted with rfl | hfailed
        · exact .inr (List.mem_cons_self ..)
        · exact .inl hfailed
      · exact .inr (List.mem_cons_of_mem other hrest)
    rw [completeAll] at h
    cases hclient : client other with
    | none =>
      rw [hclient] at h
      exact hadded (ih h)
    | some store =>
      rw [hclient] at h
      dsimp only at h
      split at h
      next => exact hkept (ih h)
      next =>
        split at h
        next => exact hkept (ih h)
        next => exact hadded (ih h)

end UploadSessions

end ReplicatedStore
