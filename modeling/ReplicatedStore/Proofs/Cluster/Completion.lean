import ReplicatedStore.Proofs.Cluster.FanIn
/-!
# Which sources a merge has completed

A merge records that a source was read to its end only once all of its entries were merged into entries
that it yielded. This holds whatever interrupts the sources, and however the merge ends.
-/

namespace ReplicatedStore

variable {κ σ : Type}

namespace MergeSource

/-- What has become of a source that was opened with a feed, of which the entries `taken` were merged. A
source is given up only with the whole merge, once that is `broken`. -/
inductive Fate (completed failed : IndexSet) (broken : Prop) (feed : Feed κ σ) (taken : List (Entry κ σ))
    (source : MergeSource κ σ) : Prop
  | pending {rest : Feed κ σ} (hrest : source.feed.rest = some rest)
    (hfeed : feed = .ofEntries (taken ++ source.head.toList) ++ rest)
    (hcompleted : source.index ∉ completed) (hfailed : source.index ∉ failed)
  | completed (hover : source.isOver) (hfeed : feed = .ofEntries taken)
    (hcompleted : source.index ∈ completed) (hfailed : source.index ∉ failed)
  | failed (hover : source.isOver) (hcompleted : source.index ∉ completed)
    (hfailed : source.index ∈ failed)
  | abandoned (hbroken : broken) (hover : source.isOver) (hcompleted : source.index ∉ completed)
    (hfailed : source.index ∉ failed)

variable {completed failed : IndexSet} {broken : Prop} {feed : Feed κ σ} {taken : List (Entry κ σ)}
  {source : MergeSource κ σ}

namespace Fate

theorem not_mem_failed (h : source.Fate completed failed broken feed taken)
    (hmem : source.index ∈ completed) : source.index ∉ failed := by
  cases h with
  | pending _ _ hcompleted => exact absurd hmem hcompleted
  | completed _ _ _ hfailed => exact hfailed
  | failed _ hcompleted => exact absurd hmem hcompleted
  | abandoned _ _ hcompleted => exact absurd hmem hcompleted

theorem feed_eq (h : source.Fate completed failed broken feed taken)
    (hmem : source.index ∈ completed) : feed = .ofEntries taken := by
  cases h with
  | pending _ _ hcompleted => exact absurd hmem hcompleted
  | completed _ hfeed => exact hfeed
  | failed _ hcompleted => exact absurd hmem hcompleted
  | abandoned _ _ hcompleted => exact absurd hmem hcompleted

theorem mem_or_mem (h : source.Fate completed failed broken feed taken) (hover : source.isOver)
    (hwhole : ¬broken) : source.index ∈ completed ∨ source.index ∈ failed := by
  cases h with
  | pending hrest =>
    rw [hover.2] at hrest
    contradiction
  | completed _ _ hcompleted => exact .inl hcompleted
  | failed _ _ hfailed => exact .inr hfailed
  | abandoned hbroken => exact absurd hbroken hwhole

theorem head_mem (h : source.Fate completed failed broken feed taken) {entry : Entry κ σ}
    (hhead : source.head = some entry) : .ok entry ∈ feed := by
  cases h with
  | pending _ hfeed =>
    rw [hfeed, hhead]
    simp [Feed.ofEntries]
  | completed hover | failed hover | abandoned _ hover =>
    rw [hover.1] at hhead
    contradiction

theorem mono {later : Prop} (h : source.Fate completed failed broken feed taken) (hbroken : broken → later) :
    source.Fate completed failed later feed taken := by
  cases h with
  | pending hrest hfeed hcompleted hfailed => exact .pending hrest hfeed hcompleted hfailed
  | completed hover hfeed hcompleted hfailed => exact .completed hover hfeed hcompleted hfailed
  | failed hover hcompleted hfailed => exact .failed hover hcompleted hfailed
  | abandoned hmet hover hcompleted hfailed => exact .abandoned (hbroken hmet) hover hcompleted hfailed

theorem congr {completed' failed' : IndexSet} (h : source.Fate completed failed broken feed taken)
    (hc : source.index ∈ completed' ↔ source.index ∈ completed)
    (hf : source.index ∈ failed' ↔ source.index ∈ failed) :
    source.Fate completed' failed' broken feed taken := by
  cases h with
  | pending hrest hfeed hcompleted hfailed =>
    exact .pending hrest hfeed (mt hc.mp hcompleted) (mt hf.mp hfailed)
  | completed hover hfeed hcompleted hfailed =>
    exact .completed hover hfeed (hc.mpr hcompleted) (mt hf.mp hfailed)
  | failed hover hcompleted hfailed => exact .failed hover (mt hc.mp hcompleted) (hf.mpr hfailed)
  | abandoned hbroken hover hcompleted hfailed =>
    exact .abandoned hbroken hover (mt hc.mp hcompleted) (mt hf.mp hfailed)

theorem advance {completed' failed' : IndexSet} (h : source.Fate completed failed broken feed taken)
    (interruption : Interruption)
    (hc : source.index ∈ completed' ↔
      (source.advance interruption).1 = .completed ∨ source.index ∈ completed)
    (hf : source.index ∈ failed' ↔
      (source.advance interruption).1 = .failed ∨ source.index ∈ failed) :
    (source.advance interruption).2.Fate completed' failed' broken feed taken := by
  cases hsource : source.head with
  | some entry =>
    have hsame : source.advance interruption = (.same, source) := by rw [MergeSource.advance, hsource]
    simp only [hsame, reduceCtorEq, false_or] at hc hf ⊢
    exact h.congr hc hf
  | none =>
    cases hrest : source.feed.rest with
    | none =>
      simp only [advance_of_isOver ⟨hsource, hrest⟩, reduceCtorEq, false_or] at hc hf ⊢
      exact h.congr hc hf
    | some items =>
      cases h with
      | completed hover | failed hover | abandoned _ hover =>
        rw [hover.2] at hrest
        contradiction
      | pending hitems hfeed hcompleted hfailed =>
        obtain ⟨index, head, ⟨rest, polled⟩⟩ := source
        obtain rfl : head = none := hsource
        obtain rfl : rest = some items := hrest
        cases hitems
        rw [Option.toList_none, List.append_nil] at hfeed
        simp only [MergeSource.advance, OpenFeed.poll] at hc hf ⊢
        cases hpolled : interruption polled with
        | some cause =>
          simp only [hpolled, reduceCtorEq, false_or, true_or, iff_true] at hc hf ⊢
          exact .failed ⟨rfl, rfl⟩ (mt hc.mp hcompleted) hf
        | none =>
          cases items with
          | nil =>
            simp only [hpolled, reduceCtorEq, false_or, true_or, iff_true] at hc hf ⊢
            rw [List.append_nil] at hfeed
            exact .completed ⟨rfl, rfl⟩ hfeed hc (mt hf.mp hfailed)
          | cons item tail =>
            cases item with
            | error cause =>
              simp only [hpolled, reduceCtorEq, false_or, true_or, iff_true] at hc hf ⊢
              exact .failed ⟨rfl, rfl⟩ (mt hc.mp hcompleted) hf
            | ok entry =>
              simp only [hpolled, reduceCtorEq, false_or] at hc hf ⊢
              refine .pending rfl ?_ (mt hc.mp hcompleted) (mt hf.mp hfailed)
              rw [hfeed]
              simp [Feed.ofEntries]

theorem cleared (h : source.Fate completed failed broken feed taken) :
    source.cleared.Fate completed failed True feed taken := by
  cases h with
  | pending _ _ hcompleted hfailed => exact .abandoned trivial ⟨rfl, rfl⟩ hcompleted hfailed
  | completed _ hfeed hcompleted hfailed => exact .completed ⟨rfl, rfl⟩ hfeed hcompleted hfailed
  | failed _ hcompleted hfailed => exact .failed ⟨rfl, rfl⟩ hcompleted hfailed
  | abandoned _ _ hcompleted hfailed => exact .abandoned trivial ⟨rfl, rfl⟩ hcompleted hfailed

theorem passed [Ord κ] (h : source.Fate completed failed broken feed taken) (key : κ) :
    ∃ more, (∀ entry ∈ more, source.hasHead key = true ∧ source.head = some entry) ∧
      (source.passed key).Fate completed failed broken feed (taken ++ more) := by
  unfold MergeSource.passed
  split
  next hhead =>
    refine ⟨source.head.toList, fun entry hmem => ⟨hhead, Option.mem_toList.mp hmem⟩, ?_⟩
    cases h with
    | pending hrest hfeed hcompleted hfailed =>
      refine .pending hrest ?_ hcompleted hfailed
      rw [hfeed, Option.toList_none, List.append_nil]
    | completed hover | failed hover | abandoned _ hover =>
      rw [hasHead, hover.1] at hhead
      contradiction
  next =>
    rw [← List.append_nil taken] at h
    exact ⟨[], by simp, h⟩

end Fate

end MergeSource

namespace Merge

/-- The copies that a merge joined into one entry: of each of the feeds `opened` at most one, in their order. -/
structure Copies (f : MergeFunction σ) (opened : List (Nat × Feed κ σ)) (copies : List (Nat × Entry κ σ))
    (merged : Entry κ σ) : Prop where
  positions : (copies.map Prod.fst).Sublist (opened.map Prod.fst)
  delivered : ∀ copy ∈ copies, copy.2.key = merged.key ∧ ∃ feed, (copy.1, feed) ∈ opened ∧ .ok copy.2 ∈ feed
  joined : Entry.joined f (copies.map Prod.snd) = some merged

/-- How far a merge of the feeds `opened` has come, where `handed` are the copies it has merged. -/
structure Progress (opened : List (Nat × Feed κ σ)) (handed : Nat → Entry κ σ → Prop) (broken : Prop)
    (merge : Merge κ σ) : Prop where
  indices : merge.sources.map MergeSource.index = opened.map Prod.fst
  fates : ∀ source ∈ merge.sources, ∃ feed taken, (source.index, feed) ∈ opened ∧
    (∀ entry ∈ taken, handed source.index entry) ∧
    source.Fate merge.completed merge.failed broken feed taken
  opened : ∀ index ∈ merge.completed, index ∈ opened.map Prod.fst

variable {opened : List (Nat × Feed κ σ)} {handed : Nat → Entry κ σ → Prop} {broken : Prop}
  {merge : Merge κ σ}

namespace Progress

theorem ofFeeds (opened : List (Nat × Feed κ σ)) (unhealthy : IndexSet) :
    (Merge.ofFeeds opened unhealthy).Progress opened (fun _ _ => False) False := by
  refine ⟨?_, ?_, fun index hmem => absurd hmem Std.TreeSet.not_mem_emptyc⟩
  · rw [Merge.ofFeeds, List.map_map]
    rfl
  · intro source hmem
    obtain ⟨⟨index, feed⟩, hopened, rfl⟩ := List.mem_map.mp hmem
    exact ⟨feed, [], hopened, by simp,
      .pending rfl rfl Std.TreeSet.not_mem_emptyc Std.TreeSet.not_mem_emptyc⟩

theorem mono {more : Nat → Entry κ σ → Prop} {later : Prop} (h : merge.Progress opened handed broken)
    (hmore : ∀ index entry, handed index entry → more index entry) (hbroken : broken → later) :
    merge.Progress opened more later := by
  refine ⟨h.indices, fun source hmem => ?_, h.opened⟩
  obtain ⟨feed, taken, hfeed, htaken, hfate⟩ := h.fates source hmem
  exact ⟨feed, taken, hfeed, fun entry hentry => hmore _ _ (htaken entry hentry), hfate.mono hbroken⟩

theorem exists_source (h : merge.Progress opened handed broken) {index : Nat}
    (hindex : index ∈ opened.map Prod.fst) : ∃ source ∈ merge.sources, source.index = index := by
  rw [← h.indices] at hindex
  exact List.mem_map.mp hindex

private theorem mem_recorded (h : merge.Progress opened handed broken) (hdistinct : (opened.map Prod.fst).Nodup)
    (interruption : Nat → Interruption) {source : MergeSource κ σ} (hsource : source ∈ merge.sources)
    (news : SourceNews) (set : IndexSet) :
    source.index ∈ set.insertAll (indicesOf news
        (merge.sources.map fun source => source.advance (interruption source.index))) ↔
      (source.advance (interruption source.index)).1 = news ∨ source.index ∈ set := by
  rw [IndexSet.mem_insertAll, mem_indicesOf]
  refine or_congr_left ⟨?_, fun hnews => ⟨source, hsource, rfl, hnews⟩⟩
  rintro ⟨other, hother, hindex, hnews⟩
  rw [← h.indices] at hdistinct
  obtain rfl := List.inj_on_of_nodup_map hdistinct hother hsource hindex
  exact hnews

theorem fill (h : merge.Progress opened handed broken) (hdistinct : (opened.map Prod.fst).Nodup)
    (interruption : Nat → Interruption) : (merge.fill interruption).2.Progress opened handed broken := by
  have hindex := fun source : MergeSource κ σ => (MergeSource.advance_advanced interruption source).index
  refine ⟨?_, ?_, ?_⟩
  · rw [← h.indices]
    simp only [Merge.fill, List.map_map]
    exact List.map_congr_left fun source _ => hindex source
  · intro after hafter
    simp only [Merge.fill, List.map_map, List.mem_map] at hafter
    obtain ⟨source, hsource, rfl⟩ := hafter
    obtain ⟨feed, taken, hfeed, htaken, hfate⟩ := h.fates source hsource
    simp only [Function.comp_apply, hindex]
    refine ⟨feed, taken, hfeed, htaken, hfate.advance _ ?_ ?_⟩
    · exact h.mem_recorded hdistinct interruption hsource _ _
    · exact h.mem_recorded hdistinct interruption hsource _ _
  · intro index hmem
    rcases IndexSet.mem_insertAll.mp hmem with hnew | hold
    · obtain ⟨source, hsource, rfl, -⟩ := mem_indicesOf.mp hnew
      rw [← h.indices]
      exact List.mem_map_of_mem hsource
    · exact h.opened index hold

theorem abandoned (h : merge.Progress opened handed broken) :
    merge.abandoned.Progress opened handed True := by
  refine ⟨?_, ?_, h.opened⟩
  · rw [← h.indices, Merge.abandoned, List.map_map]
    rfl
  · intro after hafter
    obtain ⟨source, hsource, rfl⟩ := List.mem_map.mp hafter
    obtain ⟨feed, taken, hfeed, htaken, hfate⟩ := h.fates source hsource
    exact ⟨feed, taken, hfeed, htaken, hfate.cleared⟩

end Progress

variable [Ord κ]

private def heads (key : κ) (merge : Merge κ σ) : List (Nat × Entry κ σ) :=
  (merge.sources.filter (MergeSource.hasHead key)).filterMap fun source =>
    source.head.map fun entry => (source.index, entry)

private theorem mem_heads {key : κ} {index : Nat} {entry : Entry κ σ} :
    (index, entry) ∈ merge.heads key ↔
      ∃ source ∈ merge.sources, source.index = index ∧ source.head = some entry ∧
        source.hasHead key = true := by
  simp only [heads, List.mem_filterMap, List.mem_filter, Option.map_eq_some_iff, Prod.mk.injEq]
  constructor
  · rintro ⟨source, ⟨hsource, hhas⟩, _, hhead, rfl, rfl⟩
    exact ⟨source, hsource, rfl, hhead, hhas⟩
  · rintro ⟨source, hsource, rfl, hhead, hhas⟩
    exact ⟨source, ⟨hsource, hhas⟩, entry, hhead, rfl, rfl⟩

private theorem map_snd_heads (key : κ) (merge : Merge κ σ) :
    (merge.heads key).map Prod.snd =
      (merge.sources.filter (MergeSource.hasHead key)).filterMap MergeSource.head := by
  rw [heads, List.map_filterMap]
  refine List.filterMap_congr fun source _ => ?_
  rw [Option.map_map]
  exact Option.map_id'

private theorem map_fst_heads (key : κ) (merge : Merge κ σ) :
    ((merge.heads key).map Prod.fst).Sublist (merge.sources.map MergeSource.index) := by
  have hsome : ∀ sources : List (MergeSource κ σ),
      ((sources.filterMap fun source => source.head.map fun entry => (source.index, entry)).map Prod.fst).Sublist
        (sources.map MergeSource.index) := by
    intro sources
    induction sources with
    | nil => exact List.Sublist.refl []
    | cons first rest ih =>
      rw [List.filterMap_cons]
      cases first.head with
      | none => exact ih.cons _
      | some entry => exact ih.cons_cons _
  exact (hsome _).trans (List.filter_sublist.map MergeSource.index)

inductive Progressed (f : MergeFunction σ) (opened : List (Nat × Feed κ σ)) (handed : Nat → Entry κ σ → Prop)
    (broken : Prop) : MergeStep κ σ × IndexSet × Merge κ σ → Prop
  | entry {copies : List (Nat × Entry κ σ)} {merged : Entry κ σ} {failures : IndexSet}
    {after : Merge κ σ} (hcopies : Copies f opened copies merged)
    (hafter : after.Progress opened (fun index entry => handed index entry ∨ (index, entry) ∈ copies) broken) :
    Progressed f opened handed broken (.entry merged, failures, after)
  | ended {failures : IndexSet} {after : Merge κ σ} (hafter : after.Progress opened handed broken)
    (hover : ∀ source ∈ after.sources, source.isOver) :
    Progressed f opened handed broken (.ended, failures, after)
  | invalid {failures : IndexSet} {after : Merge κ σ} (hafter : after.Progress opened handed True) :
    Progressed f opened handed broken (.invalid, failures, after)

namespace Progress

theorem passed (h : merge.Progress opened handed broken) (key : κ) :
    Progress opened (fun index entry => handed index entry ∨ (index, entry) ∈ merge.heads key) broken
      { merge with sources := merge.sources.map (MergeSource.passed key) } := by
  have hindex : ∀ source : MergeSource κ σ, (source.passed key).index = source.index := by
    intro source
    unfold MergeSource.passed
    split <;> rfl
  refine ⟨?_, ?_, h.opened⟩
  · rw [← h.indices, List.map_map]
    exact List.map_congr_left fun source _ => hindex source
  · intro after hafter
    obtain ⟨source, hsource, rfl⟩ := List.mem_map.mp hafter
    obtain ⟨feed, taken, hfeed, htaken, hfate⟩ := h.fates source hsource
    obtain ⟨more, hmore, hpassed⟩ := hfate.passed key
    rw [hindex]
    refine ⟨feed, taken ++ more, hfeed, fun entry hentry => ?_, hpassed⟩
    rcases List.mem_append.mp hentry with hold | hnew
    · exact .inl (htaken entry hold)
    · obtain ⟨hhas, hhead⟩ := hmore entry hnew
      exact .inr (mem_heads.mpr ⟨source, hsource, rfl, hhead, hhas⟩)

variable [Std.LawfulEqOrd κ]

theorem copies (h : merge.Progress opened handed broken) {f : MergeFunction σ} {key : κ}
    {first : Entry κ σ} {rest : List (Entry κ σ)}
    (hheads : (merge.sources.filter (MergeSource.hasHead key)).filterMap MergeSource.head = first :: rest) :
    Copies f opened (merge.heads key) (Entry.mergeAll f first rest) := by
  have hkeys : ∀ index entry, (index, entry) ∈ merge.heads key → entry.key = key := by
    intro index entry hmem
    obtain ⟨source, -, -, hhead, hhas⟩ := mem_heads.mp hmem
    rw [MergeSource.hasHead, hhead] at hhas
    exact Entry.hasKey_iff.mp hhas
  have hsnd := map_snd_heads key merge
  rw [hheads] at hsnd
  have hfirst : first.key = key := by
    have hmem : first ∈ (merge.heads key).map Prod.snd := hsnd ▸ List.mem_cons_self ..
    obtain ⟨⟨index, entry⟩, hcopy, rfl⟩ := List.mem_map.mp hmem
    exact hkeys index entry hcopy
  refine ⟨h.indices ▸ map_fst_heads key merge, ?_, by rw [hsnd, Entry.joined]⟩
  rintro ⟨index, entry⟩ hmem
  obtain ⟨source, hsource, rfl, hhead, -⟩ := mem_heads.mp hmem
  obtain ⟨feed, taken, hfeed, -, hfate⟩ := h.fates source hsource
  refine ⟨?_, feed, hfeed, hfate.head_mem hhead⟩
  rw [Entry.key_mergeAll, hfirst]
  exact hkeys _ entry hmem

variable [Std.TransOrd κ]

/-- A step of a merge hands out what it merges, and completes no source of which something is left. -/
theorem next (h : merge.Progress opened handed broken) (hdistinct : (opened.map Prod.fst).Nodup)
    (f : MergeFunction σ) (valid : IndexSet → Bool) (interruption : Nat → Interruption) :
    Progressed f opened handed broken (merge.next f valid interruption) := by
  have hfilled := h.fill hdistinct interruption
  have hspent := (fill_filled interruption merge).spent
  unfold Merge.next
  generalize merge.fill interruption = result at hfilled hspent
  obtain ⟨failures, filled⟩ := result
  dsimp only at hfilled hspent ⊢
  split
  next =>
    cases hkey : filled.leastKey? with
    | none =>
      have hheads := leastKey?_eq_none hkey
      simp only [mergeHeads, hkey]
      exact .ended hfilled fun source hmem => hspent source hmem (hheads source hmem)
    | some key =>
      simp only [mergeHeads, hkey]
      split
      next hnone =>
        obtain ⟨⟨source, hsource, hhas⟩, -⟩ := leastKey?_eq_some hkey
        have hhead := List.filterMap_eq_nil_iff.mp hnone source (List.mem_filter.mpr ⟨hsource, hhas⟩)
        rw [MergeSource.hasHead, hhead] at hhas
        contradiction
      next first rest hheads => exact .entry (hfilled.copies hheads) (hfilled.passed key)
  next => exact .invalid hfilled.abandoned

end Progress

end Merge

end ReplicatedStore
