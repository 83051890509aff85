import Mathlib.Data.List.Perm.Basic
import ReplicatedStore.Proofs.Entry.Gathering
import ReplicatedStore.Store.File
/-!
# What merging runs yields

The heap of runs keeps every run below those that it follows, so the merge of sorted runs is sorted and
has all their entries. Joining neighbours in it leaves one entry for each key, made of all entries of the key
from left to right. Sorting by key is stable, so the entries of an upload are joined as they arrived.
-/

namespace ReplicatedStore

variable {κ σ : Type} [Ord κ]

/-- The entries are in key order, in which a key may stand several times. -/
def Entry.Sorted (entries : List (Entry κ σ)) : Prop :=
  entries.Pairwise fun a b => (compare a.key b.key).isLE = true

instance (entries : List (Entry κ σ)) : Decidable (Entry.Sorted entries) :=
  inferInstanceAs (Decidable (entries.Pairwise fun a b => (compare a.key b.key).isLE = true))

namespace RunHeap

def NotAfter (a b : Run κ σ) : Prop := (compare a.head.key b.head.key).isLE = true

/-- From a position on, no run follows one of its children. -/
def Ordered (heap : Array (Run κ σ)) (start : Nat) : Prop :=
  ∀ parent child (_ : parent < heap.size) (_ : child < heap.size), start ≤ parent →
    child = 2 * parent + 1 ∨ child = 2 * parent + 2 → NotAfter heap[parent] heap[child]

/-- What remains to be ordered is the run at one position, which may follow its children; the run above does
not follow them. -/
structure OrderedExcept (heap : Array (Run κ σ)) (start hole : Nat) : Prop where
  except : ∀ parent child (_ : parent < heap.size) (_ : child < heap.size), start ≤ parent → parent ≠ hole →
    child = 2 * parent + 1 ∨ child = 2 * parent + 2 → NotAfter heap[parent] heap[child]
  above : ∀ parent child (_ : parent < heap.size) (_ : child < heap.size), start ≤ parent →
    hole = 2 * parent + 1 ∨ hole = 2 * parent + 2 → child = 2 * hole + 1 ∨ child = 2 * hole + 2 →
    NotAfter heap[parent] heap[child]

variable {heap : Array (Run κ σ)} {start hole child : Nat}

theorem Ordered.except (h : Ordered heap (start + 1)) : OrderedExcept heap start start := by
  refine ⟨fun parent child hparent hchild hstart hne => ?_, fun parent child hparent hchild hstart hhole => ?_⟩
  · exact h parent child hparent hchild (by omega)
  · omega

private theorem notAfter_of_precedes {a b : Run κ σ} (h : a.precedes b = true) : NotAfter a b := by
  rw [Run.precedes, Ordering.isLT_iff_eq_lt] at h
  rw [NotAfter, h]
  rfl

private theorem notAfter_of_not_precedes [Std.TransOrd κ] {a b : Run κ σ} (h : a.precedes b = false) :
    NotAfter b a := by
  have hnot : compare a.head.key b.head.key ≠ .lt := by
    rw [Run.precedes] at h
    intro hlt
    rw [hlt] at h
    contradiction
  exact Std.OrientedCmp.isGE_iff_isLE.mp (Ordering.isGE_iff_ne_lt.mpr hnot)

private theorem NotAfter.trans [Std.TransOrd κ] {a b c : Run κ σ} (hab : NotAfter a b) (hbc : NotAfter b c) :
    NotAfter a c :=
  Std.TransCmp.isLE_trans hab hbc

private theorem OrderedExcept.finish (h : OrderedExcept heap start hole)
    (hstop : ∀ child (_ : hole < heap.size) (_ : child < heap.size),
      child = 2 * hole + 1 ∨ child = 2 * hole + 2 → NotAfter heap[hole] heap[child]) :
    Ordered heap start := by
  intro parent child hparent hchild hstart hrelated
  by_cases hhole : parent = hole
  · subst hhole
    exact hstop child hparent hchild hrelated
  · exact h.except parent child hparent hchild hstart hhole hrelated

private theorem OrderedExcept.move (h : OrderedExcept heap start hole) (hstart : start ≤ hole)
    (hhole : hole < heap.size) (hchild : child < heap.size)
    (hrelated : child = 2 * hole + 1 ∨ child = 2 * hole + 2)
    (hfirst : NotAfter heap[child] heap[hole])
    (hleast : ∀ other (_ : other < heap.size), other = 2 * hole + 1 ∨ other = 2 * hole + 2 →
      NotAfter heap[child] heap[other]) :
    OrderedExcept (heap.swap hole child) start child := by
  have hsize : (heap.swap hole child).size = heap.size := Array.size_swap
  constructor
  · intro parent other hparent hother hfrom hne hbelow
    rw [Array.getElem_swap, Array.getElem_swap]
    by_cases hat : parent = hole
    · subst hat
      rw [if_pos rfl, if_neg (by omega)]
      split
      · exact hfirst
      · exact hleast other (hsize ▸ hother) hbelow
    · rw [if_neg hat, if_neg hne]
      by_cases hinto : other = hole
      · subst hinto
        rw [if_pos rfl]
        exact h.above parent child (hsize ▸ hparent) hchild hfrom hbelow hrelated
      · rw [if_neg hinto, if_neg (by omega)]
        exact h.except parent other (hsize ▸ hparent) (hsize ▸ hother) hfrom hat hbelow
  · -- The run that was at the child now stands above, and followed none of its children.
    intro parent other hparent hother hfrom habove hbelow
    obtain rfl : parent = hole := by omega
    rw [Array.getElem_swap, Array.getElem_swap, if_pos rfl, if_neg (by omega), if_neg (by omega)]
    exact h.except child other hchild (hsize ▸ hother) (by omega) (by omega) hbelow

variable [Std.TransOrd κ]

theorem siftDown_ordered (h : OrderedExcept heap start hole) (hstart : start ≤ hole) :
    Ordered (siftDown heap hole) start := by
  fun_induction siftDown heap hole with
  | case1 heap hole left hright hless hmoves ih =>
    refine ih (h.move hstart _ _ (.inr rfl) (notAfter_of_precedes hmoves) ?_) (by omega)
    rintro other hother (rfl | rfl)
    · exact notAfter_of_precedes hless
    · exact Std.ReflCmp.isLE_rfl
  | case2 heap hole left hright hless hstays =>
    have hstop := notAfter_of_not_precedes (Bool.eq_false_iff.mpr hstays)
    refine h.finish ?_
    rintro other hhole hother (rfl | rfl)
    · exact hstop.trans (notAfter_of_precedes hless)
    · exact hstop
  | case3 heap hole left hright hless hmoves ih =>
    refine ih (h.move hstart _ _ (.inl rfl) (notAfter_of_precedes hmoves) ?_) (by omega)
    rintro other hother (rfl | rfl)
    · exact Std.ReflCmp.isLE_rfl
    · exact notAfter_of_not_precedes (Bool.eq_false_iff.mpr hless)
  | case4 heap hole left hright hless hstays =>
    have hstop := notAfter_of_not_precedes (Bool.eq_false_iff.mpr hstays)
    refine h.finish ?_
    rintro other hhole hother (rfl | rfl)
    · exact hstop
    · exact hstop.trans (notAfter_of_not_precedes (Bool.eq_false_iff.mpr hless))
  | case5 heap hole left hright hleft hmoves =>
    have hmoved := h.move hstart (by omega) hleft (.inl rfl) (notAfter_of_precedes hmoves) (by
      rintro other hother (rfl | rfl)
      · exact Std.ReflCmp.isLE_rfl
      · omega)
    refine hmoved.finish fun other hhole hother hbelow => ?_
    rw [Array.size_swap] at hother
    omega
  | case6 heap hole left hright hleft hstays =>
    refine h.finish ?_
    rintro other hhole hother (rfl | rfl)
    · exact notAfter_of_not_precedes (Bool.eq_false_iff.mpr hstays)
    · omega
  | case7 heap hole left hright hleft => exact h.finish fun other hhole hother hbelow => by omega

theorem ofRuns_ordered (runs : List (Run κ σ)) : Ordered (ofRuns runs) 0 := by
  have hsift : ∀ count (heap : Array (Run κ σ)), Ordered heap count →
      Ordered ((List.range count).foldr (fun pos heap => siftDown heap pos) heap) 0 := by
    intro count
    induction count with
    | zero => exact fun heap h => h
    | succ count ih =>
      intro heap h
      rw [List.range_succ, List.foldr_append]
      exact ih _ (siftDown_ordered h.except (Nat.le_refl _))
  refine hsift _ _ fun parent child hparent hchild hstart hbelow => ?_
  rw [List.size_toArray] at hchild
  omega

omit [Std.TransOrd κ] in
theorem ofRuns_perm (runs : List (Run κ σ)) : (ofRuns runs).Perm runs.toArray := by
  have hsift : ∀ (positions : List Nat) (heap : Array (Run κ σ)),
      (positions.foldr (fun pos heap => siftDown heap pos) heap).Perm heap := by
    intro positions heap
    induction positions with
    | nil => exact Array.Perm.refl _
    | cons pos rest ih => exact (siftDown_perm _ _).trans ih
  exact hsift _ _

theorem Ordered.root (h : Ordered heap 0) (hroot : 0 < heap.size) {pos : Nat} (hpos : pos < heap.size) :
    NotAfter heap[0] heap[pos] := by
  induction pos using Nat.strongRecOn with
  | ind pos ih =>
    by_cases hzero : pos = 0
    · subst hzero
      exact Std.ReflCmp.isLE_rfl
    · have hparent : (pos - 1) / 2 < heap.size := by omega
      exact (ih _ (by omega) hparent).trans (h _ pos hparent hpos (Nat.zero_le _) (by omega))

section Advance

omit [Ord κ] [Std.TransOrd κ]

theorem advance_perm (nonempty : 0 < heap.size) :
    (heap.toList.flatMap Run.toList).Perm
      (heap[0].head :: (advance heap nonempty).toList.flatMap Run.toList) := by
  unfold advance
  split
  next next rest htail =>
    obtain ⟨runs⟩ := heap
    cases runs with
    | nil => contradiction
    | cons run runs =>
      obtain ⟨head, tail⟩ := run
      obtain rfl : tail = next :: rest := htail
      exact List.Perm.refl _
  next htail =>
    have hlast : (heap.swap 0 (heap.size - 1)).toList =
        (heap.swap 0 (heap.size - 1)).pop.toList ++ [heap[0]] := by
      have hne : (heap.swap 0 (heap.size - 1)).toList ≠ [] := by
        intro hnil
        have hsize := congrArg List.length hnil
        simp only [Array.length_toList, Array.size_swap, List.length_nil] at hsize
        omega
      rw [Array.toList_pop, ← List.dropLast_concat_getLast hne]
      simp [List.getLast_eq_getElem]
    have hroot : heap[0].toList = [heap[0].head] := congrArg (heap[0].head :: ·) htail
    have hswap : (heap.swap 0 (heap.size - 1)).Perm heap := Array.swap_perm ..
    have hperm := (hswap.toList.flatMap_right Run.toList).symm
    rw [hlast, List.flatMap_append, List.flatMap_singleton, hroot] at hperm
    exact hperm.trans List.perm_append_comm

theorem mem_advance (nonempty : 0 < heap.size) {run : Run κ σ} (h : run ∈ advance heap nonempty) :
    run.toList = heap[0].tail ∨ run ∈ heap := by
  unfold advance at h
  split at h
  next next rest htail =>
    rcases Array.mem_or_eq_of_mem_set h with hold | rfl
    · exact .inr hold
    · exact .inl htail.symm
  next =>
    have hswap : (heap.swap 0 (heap.size - 1)).Perm heap := Array.swap_perm ..
    rw [← Array.mem_toList_iff, Array.toList_pop] at h
    exact .inr (hswap.mem_iff.mp (Array.mem_toList_iff.mp ((List.dropLast_sublist _).subset h)))

private theorem getElem?_advance (nonempty : 0 < heap.size) {pos : Nat} (hpos : pos ≠ 0) {run : Run κ σ}
    (h : (advance heap nonempty)[pos]? = some run) : heap[pos]? = some run := by
  unfold advance at h
  split at h
  next next rest htail =>
    rwa [Array.getElem?_set_ne _ hpos.symm] at h
  next =>
    obtain ⟨hlt, rfl⟩ := Array.getElem?_eq_some_iff.mp h
    have hsize : pos < heap.size - 1 := by simpa using hlt
    rw [Array.getElem_pop, Array.getElem_swap, if_neg hpos, if_neg (by omega)]
    exact Array.getElem?_eq_getElem (by omega)

end Advance

omit [Std.TransOrd κ] in
theorem Ordered.advance (h : Ordered heap 0) (nonempty : 0 < heap.size) :
    OrderedExcept (advance heap nonempty) 0 0 := by
  refine ⟨?_, fun _ _ _ _ _ hroot => by omega⟩
  intro parent child hparent hchild _ hne hbelow
  obtain ⟨hparent', hsame⟩ := Array.getElem?_eq_some_iff.mp
    (getElem?_advance nonempty hne (Array.getElem?_eq_getElem hparent))
  obtain ⟨hchild', hsame'⟩ := Array.getElem?_eq_some_iff.mp
    (getElem?_advance nonempty (by omega) (Array.getElem?_eq_getElem hchild))
  rw [← hsame, ← hsame']
  exact h parent child hparent' hchild' (Nat.zero_le _) hbelow

omit [Std.TransOrd κ] in
theorem drain_perm (heap : Array (Run κ σ)) : (drain heap).Perm (heap.toList.flatMap Run.toList) := by
  fun_induction drain heap with
  | case1 heap nonempty ih =>
    have hsift := (siftDown_perm (RunHeap.advance heap nonempty) 0).toList.flatMap_right Run.toList
    exact ((ih.trans hsift).cons _).trans (advance_perm nonempty).symm
  | case2 heap hempty =>
    have hnil : heap = #[] := Array.size_eq_zero_iff.mp (by omega)
    rw [hnil]
    exact List.Perm.refl _

/-- The merge of sorted runs is sorted. -/
theorem drain_sorted (h : Ordered heap 0) (hruns : ∀ run ∈ heap, Entry.Sorted run.toList) :
    Entry.Sorted (drain heap) := by
  fun_induction drain heap with
  | case1 heap nonempty ih =>
    have hroot := List.pairwise_cons.mp (hruns heap[0] (Array.getElem_mem nonempty))
    have hadvanced : ∀ run ∈ siftDown (RunHeap.advance heap nonempty) 0,
        run.toList = heap[0].tail ∨ run ∈ heap := by
      intro run hmem
      exact mem_advance nonempty ((siftDown_perm ..).mem_iff.mp hmem)
    refine List.pairwise_cons.mpr ⟨fun entry hentry => ?_, ih ?_ fun run hmem => ?_⟩
    · obtain ⟨run, hmem, hin⟩ := List.mem_flatMap.mp ((drain_perm _).mem_iff.mp hentry)
      rcases hadvanced run (Array.mem_toList_iff.mp hmem) with htail | hold
      · exact hroot.1 entry (htail ▸ hin)
      · obtain ⟨pos, hpos, rfl⟩ := Array.getElem_of_mem hold
        have hfirst : NotAfter heap[0] heap[pos] := h.root nonempty hpos
        rcases List.mem_cons.mp hin with rfl | hrest
        · exact hfirst
        · exact Std.TransCmp.isLE_trans hfirst ((List.pairwise_cons.mp (hruns _ hold)).1 entry hrest)
    · exact siftDown_ordered (h.advance nonempty) (Nat.zero_le _)
    · rcases hadvanced run hmem with htail | hold
      · rw [htail]
        exact hroot.2
      · exact hruns run hold
  | case2 => exact List.Pairwise.nil

end RunHeap

variable [Std.TransOrd κ]

omit [Ord κ] [Std.TransOrd κ] in
private theorem flatMap_ofLists (runs : List (List (Entry κ σ))) :
    (Run.ofLists runs).flatMap Run.toList = runs.flatten := by
  induction runs with
  | nil => rfl
  | cons run rest ih =>
    cases run with
    | nil => exact ih
    | cons head tail => exact congrArg (head :: tail ++ ·) ih

omit [Std.TransOrd κ] in
theorem mergeRuns_perm (runs : List (List (Entry κ σ))) : (mergeRuns runs).Perm runs.flatten := by
  have hruns := (RunHeap.ofRuns_perm (Run.ofLists runs)).toList.flatMap_right Run.toList
  rw [← flatMap_ofLists]
  exact (RunHeap.drain_perm _).trans hruns

theorem mergeRuns_sorted {runs : List (List (Entry κ σ))} (h : ∀ run ∈ runs, Entry.Sorted run) :
    Entry.Sorted (mergeRuns runs) := by
  refine RunHeap.drain_sorted (RunHeap.ofRuns_ordered _) fun run hmem => ?_
  have hrun := List.mem_toArray.mp ((RunHeap.ofRuns_perm _).mem_iff.mp hmem)
  obtain ⟨list, hlist, hsome⟩ := List.mem_filterMap.mp hrun
  cases list with
  | nil => contradiction
  | cons head tail =>
    cases hsome
    exact h _ hlist

private theorem isLE_key_trans (a b c : Entry κ σ) (hab : (compare a.key b.key).isLE = true)
    (hbc : (compare b.key c.key).isLE = true) : (compare a.key c.key).isLE = true :=
  Std.TransCmp.isLE_trans hab hbc

private theorem isLE_key_total (a b : Entry κ σ) :
    ((compare a.key b.key).isLE || (compare b.key a.key).isLE) = true := by
  have hswap : compare b.key a.key = (compare a.key b.key).swap := Std.OrientedCmp.eq_swap
  rw [hswap]
  cases compare a.key b.key <;> rfl

theorem sortByKey_sorted (entries : List (Entry κ σ)) : Entry.Sorted (sortByKey entries) :=
  List.pairwise_mergeSort isLE_key_trans isLE_key_total entries

omit [Std.TransOrd κ] in
theorem sortByKey_perm (entries : List (Entry κ σ)) : (sortByKey entries).Perm entries :=
  List.mergeSort_perm ..

theorem filter_sortByKey [Std.LawfulEqOrd κ] (entries : List (Entry κ σ)) (key : κ) :
    (sortByKey entries).filter (Entry.hasKey key) = entries.filter (Entry.hasKey key) := by
  have hsorted : Entry.Sorted (entries.filter (Entry.hasKey key)) := by
    refine List.pairwise_of_forall_mem_list fun a ha b hb => ?_
    rw [Entry.hasKey_iff.mp (List.mem_filter.mp ha).2, Entry.hasKey_iff.mp (List.mem_filter.mp hb).2]
    exact Std.ReflCmp.isLE_rfl
  have hkept : (entries.filter (Entry.hasKey key)).Sublist (sortByKey entries) :=
    List.sublist_mergeSort isLE_key_trans isLE_key_total hsorted List.filter_sublist
  have hfiltered := hkept.filter (Entry.hasKey key)
  rw [List.filter_filter] at hfiltered
  simp only [Bool.and_self] at hfiltered
  exact (hfiltered.eq_of_length ((sortByKey_perm entries).filter _).length_eq.symm).symm

section SameKey

variable {first next : Entry κ σ} {rest entries : List (Entry κ σ)}

private theorem lt_of_mem_rest {entry : Entry κ σ} (h : Entry.Sorted (first :: next :: rest))
    (hne : compare first.key next.key ≠ .eq) (hmem : entry ∈ next :: rest) :
    compare first.key entry.key = .lt := by
  obtain ⟨hfirst, hrest⟩ := List.pairwise_cons.mp h
  have hlt := (Ordering.isLE_iff_eq_lt_or_eq_eq.mp (hfirst next (List.mem_cons_self ..))).resolve_right hne
  rcases List.mem_cons.mp hmem with rfl | hin
  · exact hlt
  · exact Std.TransCmp.lt_of_lt_of_isLE hlt ((List.pairwise_cons.mp hrest).1 entry hin)

variable [Std.LawfulEqOrd κ]

private theorem filter_rest_eq_nil (h : Entry.Sorted (first :: next :: rest))
    (hne : compare first.key next.key ≠ .eq) : (next :: rest).filter (Entry.hasKey first.key) = [] := by
  refine List.filter_eq_nil_iff.mpr fun entry hmem hhas => ?_
  exact Entry.key_ne_of_lt (lt_of_mem_rest h hne hmem) (Entry.hasKey_iff.mp hhas)

private theorem filter_first_isPrefix (h : Entry.Sorted (first :: rest)) :
    (first :: rest).filter (Entry.hasKey first.key) <+: first :: rest := by
  induction rest generalizing first with
  | nil =>
    rw [Entry.filter_hasKey_cons_of_eq rfl]
    exact List.prefix_rfl
  | cons next rest ih =>
    rw [Entry.filter_hasKey_cons_of_eq rfl, List.prefix_cons_inj]
    by_cases hsame : compare first.key next.key = .eq
    · rw [Std.LawfulEqOrd.eq_of_compare hsame]
      exact ih (List.pairwise_cons.mp h).2
    · rw [filter_rest_eq_nil h hsame]
      exact List.nil_prefix

theorem Entry.Sorted.filter_isInfix (h : Entry.Sorted entries) (key : κ) :
    entries.filter (hasKey key) <:+: entries := by
  induction entries with
  | nil => exact List.infix_rfl
  | cons first rest ih =>
    by_cases hkey : first.key = key
    · subst hkey
      exact (filter_first_isPrefix h).isInfix
    · rw [filter_hasKey_cons_of_ne hkey]
      exact List.infix_cons (ih (List.pairwise_cons.mp h).2)

end SameKey

section Coalesce

variable (f : MergeFunction σ)

omit [Std.TransOrd κ] in
private theorem exists_key_of_mem_coalesceFrom {held entry : Entry κ σ} {rest : List (Entry κ σ)}
    (h : entry ∈ coalesceFrom f held rest) : ∃ other ∈ held :: rest, entry.key = other.key := by
  fun_induction coalesceFrom f held rest with
  | case1 held => exact ⟨entry, h, rfl⟩
  | case2 held next rest heq ih =>
    obtain ⟨other, hmem, hkey⟩ := ih h
    rcases List.mem_cons.mp hmem with rfl | hrest
    · exact ⟨held, List.mem_cons_self .., hkey⟩
    · exact ⟨other, List.mem_cons_of_mem _ (List.mem_cons_of_mem _ hrest), hkey⟩
  | case3 held next rest hne ih =>
    rcases List.mem_cons.mp h with rfl | hrest
    · exact ⟨entry, List.mem_cons_self .., rfl⟩
    · obtain ⟨other, hmem, hkey⟩ := ih hrest
      exact ⟨other, List.mem_cons_of_mem _ hmem, hkey⟩

omit [Std.TransOrd κ] in
private theorem sorted_merge {held next : Entry κ σ} {rest : List (Entry κ σ)}
    (h : Entry.Sorted (held :: next :: rest)) : Entry.Sorted (held.merge f next :: rest) := by
  obtain ⟨hheld, hrest⟩ := List.pairwise_cons.mp h
  refine List.pairwise_cons.mpr ⟨fun entry hmem => ?_, (List.pairwise_cons.mp hrest).2⟩
  exact hheld entry (List.mem_cons_of_mem _ hmem)

private theorem coalesceFrom_ascending {held : Entry κ σ} {rest : List (Entry κ σ)}
    (h : Entry.Sorted (held :: rest)) : Entry.Ascending (coalesceFrom f held rest) := by
  fun_induction coalesceFrom f held rest with
  | case1 held => exact List.pairwise_singleton ..
  | case2 held next rest heq ih => exact ih (sorted_merge f h)
  | case3 held next rest hne ih =>
    refine List.pairwise_cons.mpr ⟨fun entry hmem => ?_, ih (List.pairwise_cons.mp h).2⟩
    obtain ⟨other, hother, hkey⟩ := exists_key_of_mem_coalesceFrom f hmem
    rw [hkey]
    exact lt_of_mem_rest h hne hother

theorem coalesce_ascending {entries : List (Entry κ σ)} (h : Entry.Sorted entries) :
    Entry.Ascending (coalesce f entries) := by
  cases entries with
  | nil => exact List.Pairwise.nil
  | cons first rest => exact coalesceFrom_ascending f h

omit [Std.TransOrd κ] in
private theorem shared_coalesceFrom [Std.LawfulEqOrd κ] {held : Entry κ σ} {rest : List (Entry κ σ)}
    {group : List (Entry κ σ)} {groups : List (List (Entry κ σ))} (hheld : Entry.MadeOf f group held)
    (hrest : List.Forall₂ (Entry.MadeOf f) groups rest) :
    ∃ shares, shares.flatten = group ++ groups.flatten ∧
      List.Forall₂ (Entry.MadeOf f) shares (coalesceFrom f held rest) := by
  -- The held entry is made of `group`, and takes along the parts of each next entry of its key.
  fun_induction coalesceFrom f held rest generalizing group groups with
  | case1 held =>
    cases hrest
    exact ⟨[group], rfl, .cons hheld .nil⟩
  | case2 held next rest heq ih =>
    obtain ⟨second, others, hnext, hothers, rfl⟩ := List.forall₂_cons_right_iff.mp hrest
    have hmerged := hheld.merge hnext (Std.LawfulEqOrd.eq_of_compare heq)
    obtain ⟨shares, hparts, hshares⟩ := ih hmerged hothers
    refine ⟨shares, ?_, hshares⟩
    rw [hparts, List.flatten_cons, List.append_assoc]
  | case3 held next rest hne ih =>
    obtain ⟨second, others, hnext, hothers, rfl⟩ := List.forall₂_cons_right_iff.mp hrest
    obtain ⟨shares, hparts, hshares⟩ := ih hnext hothers
    refine ⟨group :: shares, ?_, .cons hheld hshares⟩
    rw [List.flatten_cons, List.flatten_cons, hparts]

variable [Std.LawfulEqOrd κ]

private theorem lookup?_coalesceFrom {held : Entry κ σ} {rest : List (Entry κ σ)}
    (h : Entry.Sorted (held :: rest)) (key : κ) :
    Entry.lookup? key (coalesceFrom f held rest) =
      Entry.joined f ((held :: rest).filter (Entry.hasKey key)) := by
  fun_induction coalesceFrom f held rest with
  | case1 held =>
    by_cases hkey : held.key = key
    · subst hkey
      rw [Entry.lookup?_cons_self, Entry.filter_hasKey_cons_of_eq rfl]
      rfl
    · rw [Entry.lookup?_cons_of_ne hkey, Entry.filter_hasKey_cons_of_ne hkey]
      rfl
  | case2 held next rest heq ih =>
    have hnext : held.key = next.key := Std.LawfulEqOrd.eq_of_compare heq
    rw [ih (sorted_merge f h)]
    by_cases hkey : held.key = key
    · -- Both go into the join of their key, the held entry first.
      have hmerged : (held.merge f next).key = key := hkey
      rw [Entry.filter_hasKey_cons_of_eq hmerged, Entry.filter_hasKey_cons_of_eq hkey,
        Entry.filter_hasKey_cons_of_eq (hnext ▸ hkey)]
      rfl
    · have hmerged : (held.merge f next).key ≠ key := hkey
      rw [Entry.filter_hasKey_cons_of_ne hmerged, Entry.filter_hasKey_cons_of_ne hkey,
        Entry.filter_hasKey_cons_of_ne (hnext ▸ hkey)]
  | case3 held next rest hne ih =>
    by_cases hkey : held.key = key
    · subst hkey
      rw [Entry.lookup?_cons_self, Entry.filter_hasKey_cons_of_eq rfl, filter_rest_eq_nil h hne]
      rfl
    · rw [Entry.lookup?_cons_of_ne hkey, ih (List.pairwise_cons.mp h).2, Entry.filter_hasKey_cons_of_ne hkey]

/-- Of sorted entries, one is left for each key: its entries, joined from left to right. -/
theorem joins_coalesce {entries : List (Entry κ σ)} (h : Entry.Sorted entries) :
    Entry.Joins f entries (coalesce f entries) := by
  refine ⟨coalesce_ascending f h, fun key => ?_⟩
  cases entries with
  | nil => rfl
  | cons first rest => exact lookup?_coalesceFrom f h key

variable {f}

theorem gathers_coalesce {entries : List (Entry κ σ)} {groups : List (List (Entry κ σ))}
    (hsorted : Entry.Sorted entries) (h : List.Forall₂ (Entry.MadeOf f) groups entries) :
    Entry.Gathers f groups.flatten (coalesce f entries) := by
  refine ⟨coalesce_ascending f hsorted, ?_⟩
  cases h with
  | nil => exact ⟨[], List.Perm.refl _, .nil⟩
  | cons hfirst hrest =>
    obtain ⟨shares, hparts, hshares⟩ := shared_coalesceFrom f hfirst hrest
    exact ⟨shares, List.Perm.of_eq hparts, hshares⟩

end Coalesce

variable [Std.LawfulEqOrd κ] {f : MergeFunction σ}

variable (f) in
theorem joins_arranged (entries : List (Entry κ σ)) :
    Entry.Joins f entries (FileStore.arranged f entries) := by
  have hjoins := joins_coalesce f (sortByKey_sorted entries)
  refine ⟨hjoins.ascending, fun key => ?_⟩
  rw [FileStore.arranged, hjoins.lookup, filter_sortByKey]

theorem gathers_arranged (entries : List (Entry κ σ)) :
    Entry.Gathers f entries (FileStore.arranged f entries) := by
  have hgathers := gathers_coalesce (sortByKey_sorted entries) (Entry.madeOf_singletons (f := f) _)
  rw [Entry.flatten_singletons] at hgathers
  exact hgathers.perm (sortByKey_perm entries)

/-- Runs that gather some entries each are merged into one that gathers all of these. -/
theorem gathers_merge {ι : Type} {indices : List ι} {parts content : ι → List (Entry κ σ)}
    (h : ∀ index ∈ indices, Entry.Gathers f (parts index) (content index)) :
    Entry.Gathers f (indices.flatMap parts) (coalesce f (mergeRuns (indices.map content))) := by
  have hsorted : ∀ run ∈ indices.map content, Entry.Sorted run := by
    intro run hmem
    obtain ⟨index, hindex, rfl⟩ := List.mem_map.mp hmem
    refine (h index hindex).ascending.imp fun hlt => ?_
    rw [hlt]
    rfl
  have hgroups : ∃ groups, groups.flatten.Perm (indices.flatMap parts) ∧
      List.Forall₂ (Entry.MadeOf f) groups (indices.map content).flatten := by
    clear hsorted
    induction indices with
    | nil => exact ⟨[], List.Perm.refl _, .nil⟩
    | cons index rest ih =>
      obtain ⟨hindex, hrest⟩ := List.forall_mem_cons.mp h
      obtain ⟨first, hfirst, hmade⟩ := hindex.shares
      obtain ⟨others, hothers, hmade'⟩ := ih hrest
      refine ⟨first ++ others, ?_, List.rel_append hmade hmade'⟩
      rw [List.flatten_append]
      exact hfirst.append hothers
  obtain ⟨groups, hparts, hmade⟩ := hgroups
  obtain ⟨merged, hmerged, hperm⟩ := List.perm_comp_forall₂ (mergeRuns_perm _) hmade.flip
  exact (gathers_coalesce (mergeRuns_sorted hsorted) hmerged.flip).perm (hperm.flatten.trans hparts)

end ReplicatedStore
