import ReplicatedStore.Proofs.Entry.Join
/-!
# Copies of a key

Partitions, segments and sessions deliver the copies of a key in any order and any number of times. What
merging them one after the other comes to depends on which copies there are and on nothing else: the merged
entry has the latest of their times, and it is kept at a horizon if one of them is.
-/

namespace ReplicatedStore.Entry

variable {κ σ : Type}

/-- Two lists of entries of one key in which the same entries occur, however often. -/
structure SameCopies (key : κ) (first second : List (Entry κ σ)) : Prop where
  keys : ∀ entry ∈ first, entry.key = key
  mem_iff : ∀ entry, entry ∈ first ↔ entry ∈ second

/-- The time is that of some entry, and none is later. -/
def IsLatest (time : Entry κ σ → UInt64) (entries : List (Entry κ σ)) (latest : UInt64) : Prop :=
  (∃ entry ∈ entries, time entry = latest) ∧ ∀ entry ∈ entries, time entry ≤ latest

/-- The entry stands for some copies of a key: it has their latest time, and it is kept at every horizon at
which one of them is. -/
structure StandsFor (f : MergeFunction σ) (key : κ) (copies : List (Entry κ σ)) (merged : Entry κ σ) :
    Prop where
  key_eq : merged.key = key
  latest : IsLatest timestamp copies merged.timestamp
  kept : ∀ horizon, (∃ copy ∈ copies, (copy.extract f horizon).isSome = true) →
    (merged.extract f horizon).isSome = true

section Latest

variable {f : MergeFunction σ} {time : Entry κ σ → UInt64}

theorem max_eq_or (a b : UInt64) : max a b = a ∨ max a b = b := by
  simp only [← UInt64.toNat_inj, toNat_max]
  omega

theorem isLatest_mergeAll (hmerge : ∀ a b, time (merge f a b) = max (time a) (time b)) (first : Entry κ σ)
    (rest : List (Entry κ σ)) : IsLatest time (first :: rest) (time (mergeAll f first rest)) := by
  induction rest generalizing first with
  | nil => simp [IsLatest, mergeAll]
  | cons second rest ih =>
    change IsLatest time _ (time (mergeAll f (merge f first second) rest))
    obtain ⟨⟨entry, hentry, htime⟩, hlater⟩ := ih (merge f first second)
    have hpair := hlater (merge f first second) List.mem_cons_self
    have hrest : ∀ entry ∈ rest, time entry ≤ time (mergeAll f (merge f first second) rest) :=
      fun entry hmem => hlater entry (List.mem_cons_of_mem _ hmem)
    rw [hmerge, UInt64.le_iff_toNat_le, toNat_max] at hpair
    constructor
    · rcases List.mem_cons.mp hentry with rfl | hmem
      · rw [hmerge] at htime
        rcases max_eq_or (time first) (time second) with hmax | hmax
        · exact ⟨first, by simp, by rw [← htime, hmax]⟩
        · exact ⟨second, by simp, by rw [← htime, hmax]⟩
      · exact ⟨entry, by simp [hmem], htime⟩
    · intro entry hentry
      simp only [List.mem_cons] at hentry
      rcases hentry with rfl | rfl | hmem
      · rw [UInt64.le_iff_toNat_le]
        omega
      · rw [UInt64.le_iff_toNat_le]
        omega
      · exact hrest entry hmem

end Latest

theorem isSome_extract_iff {f : MergeFunction σ} {entry : Entry κ σ} {horizon : UInt64} :
    (entry.extract f horizon).isSome = true ↔
      horizon ≤ entry.timestamp ∧ (f.extract entry.state horizon).isSome = true := by
  unfold extract
  split
  next h => simp [UInt64.not_le.mpr h]
  next h => simp [UInt64.not_lt.mp h]

theorem isSome_extract_stamped {combine : σ → σ → σ} {state : Stamped σ} {horizon : UInt64} :
    ((MergeFunction.stamped combine).extract state horizon).isSome = true ↔ horizon ≤ state.timestamp := by
  change (if state.timestamp < horizon then none else some state : Option (Stamped σ)).isSome = true ↔ _
  split
  next h => simp [UInt64.not_le.mpr h]
  next h => simp [UInt64.not_lt.mp h]

theorem standsFor_mergeAll {f : MergeFunction σ} {key : κ} {first : Entry κ σ} {rest : List (Entry κ σ)}
    (hkey : first.key = key)
    (hstate : ∀ horizon, ∀ copy ∈ first :: rest, (f.extract copy.state horizon).isSome = true →
      (f.extract (mergeAll f first rest).state horizon).isSome = true) :
    StandsFor f key (first :: rest) (mergeAll f first rest) := by
  have hlatest : IsLatest timestamp (first :: rest) (mergeAll f first rest).timestamp :=
    isLatest_mergeAll (timestamp_merge f) first rest
  refine ⟨(key_mergeAll f first rest).trans hkey, hlatest, ?_⟩
  rintro horizon ⟨copy, hcopy, hkept⟩
  rw [isSome_extract_iff] at hkept ⊢
  exact ⟨UInt64.le_trans hkept.1 (hlatest.2 copy hcopy), hstate horizon copy hcopy hkept.2⟩

/-- Each merge absorbs the copies of the other, so neither order nor repetition makes a difference. -/
theorem mergeAll_eq_of_sameCopies {f : MergeFunction σ} (hf : f.Semilattice) {key : κ}
    {first second : Entry κ σ} {rest others : List (Entry κ σ)}
    (h : SameCopies key (first :: rest) (second :: others)) :
    mergeAll f first rest = mergeAll f second others := by
  have hkeys : ∀ entry ∈ second :: others, entry.key = key := fun entry hmem =>
    h.keys entry ((h.mem_iff entry).mpr hmem)
  have hjoined : joined f (first :: rest) = some (mergeAll f first rest) := rfl
  have hjoined' : joined f (second :: others) = some (mergeAll f second others) := rfl
  obtain ⟨habsorbs, hleast⟩ := absorbs_joined hf h.keys hjoined
  obtain ⟨habsorbs', hleast'⟩ := absorbs_joined hf hkeys hjoined'
  apply Absorbs.antisymm hf
  · exact hleast' _ fun entry hmem => habsorbs entry ((h.mem_iff entry).mpr hmem)
  · exact hleast _ fun entry hmem => habsorbs' entry ((h.mem_iff entry).mp hmem)

/-- What copies of a key are merged into depends neither on their order nor on how often each occurs, and it
stands for all of them. This holds of states joined as they are, and of states that carry their own times,
where the merged state has the latest of these. -/
theorem mergeAll_of_sameCopies {combine : σ → σ → σ}
    (hassoc : ∀ a b c, combine (combine a b) c = combine a (combine b c))
    (hcomm : ∀ a b, combine a b = combine b a) (hidem : ∀ a, combine a a = a) (key : κ) :
    (∀ (first second : Entry κ σ) (rest others : List (Entry κ σ)),
      SameCopies key (first :: rest) (second :: others) →
      let merged := mergeAll (.ignoringTime combine) first rest
      mergeAll (.ignoringTime combine) second others = merged ∧
        StandsFor (.ignoringTime combine) key (first :: rest) merged) ∧
    ∀ (first second : Entry κ (Stamped σ)) (rest others : List (Entry κ (Stamped σ))),
      SameCopies key (first :: rest) (second :: others) →
      let merged := mergeAll (.stamped combine) first rest
      mergeAll (.stamped combine) second others = merged ∧
        StandsFor (.stamped combine) key (first :: rest) merged ∧
        IsLatest (fun entry => entry.state.timestamp) (first :: rest) merged.state.timestamp := by
  constructor
  · intro first second rest others hsame
    have hf := (MergeFunction.lawful_ignoringTime hassoc hcomm hidem).semilattice
    refine ⟨(mergeAll_eq_of_sameCopies hf hsame).symm, ?_⟩
    exact standsFor_mergeAll (hsame.keys first List.mem_cons_self) fun _ _ _ _ => rfl
  · intro first second rest others hsame
    have hf := (MergeFunction.lawful_stamped hassoc hcomm hidem).semilattice
    have hlatest : IsLatest (fun entry => entry.state.timestamp) (first :: rest)
        (mergeAll (.stamped combine) first rest).state.timestamp :=
      isLatest_mergeAll (fun _ _ => rfl) first rest
    refine ⟨(mergeAll_eq_of_sameCopies hf hsame).symm, ?_, hlatest⟩
    apply standsFor_mergeAll (hsame.keys first List.mem_cons_self)
    intro horizon copy hcopy hkept
    rw [isSome_extract_stamped] at hkept ⊢
    exact UInt64.le_trans hkept (hlatest.2 copy hcopy)

/-- Three copies, one of them delivered twice, are merged in two orders. -/
theorem mergeAll_of_sameCopies_thrice :
    let a : Entry String (Stamped Nat) := ⟨"k", 5, ⟨2, 1⟩⟩
    let b : Entry String (Stamped Nat) := ⟨"k", 3, ⟨3, 7⟩⟩
    let c : Entry String (Stamped Nat) := ⟨"k", 4, ⟨1, 4⟩⟩
    SameCopies "k" [a, b, c] [c, b, a, b] ∧
      mergeAll (.stamped max) c [b, a, b] = mergeAll (.stamped max) a [b, c] ∧
      mergeAll (.stamped max) a [b, c] = ⟨"k", 5, ⟨3, 7⟩⟩ ∧
      ((mergeAll (.stamped max) a [b, c]).extract (.stamped max) 3).isSome = true := by
  intro a b c
  have hsame : SameCopies "k" [a, b, c] [c, b, a, b] :=
    ⟨by decide, fun entry => by simp only [List.mem_cons, List.not_mem_nil, or_false]; tauto⟩
  obtain ⟨horder, hstands, -⟩ :=
    (mergeAll_of_sameCopies Nat.max_assoc Nat.max_comm Nat.max_self "k").2 a c [b, c] [b, a, b] hsame
  exact ⟨hsame, horder, rfl, hstands.kept 3 ⟨b, by simp, by decide⟩⟩

end ReplicatedStore.Entry
