import ReplicatedStore.Entry.Basic
/-!
# Merging runs of entries

Several runs are merged through a binary heap of their remaining parts, which yields the entries of
sorted runs in key order; among equal keys the shape of the heap decides. Neighbouring entries of one
key are then joined from left to right.
-/

namespace ReplicatedStore

variable {κ σ : Type} [Ord κ]

/-- What remains of a run that has not ended. -/
structure Run (κ σ : Type) where
  head : Entry κ σ
  tail : List (Entry κ σ)
deriving Repr

namespace Run

def toList (run : Run κ σ) : List (Entry κ σ) := run.head :: run.tail

def precedes (a b : Run κ σ) : Bool := (compare a.head.key b.head.key).isLT

def ofLists (runs : List (List (Entry κ σ))) : List (Run κ σ) :=
  runs.filterMap fun
    | [] => none
    | head :: tail => some ⟨head, tail⟩

end Run

namespace RunHeap

def entryCount (heap : Array (Run κ σ)) : Nat := (heap.toList.flatMap Run.toList).length

/-- Moves the run at `pos` below every run that precedes it, along the smaller children. -/
def siftDown (heap : Array (Run κ σ)) (pos : Nat) : Array (Run κ σ) :=
  let left := 2 * pos + 1
  if _ : left + 1 < heap.size then
    if heap[left + 1].precedes heap[left] then
      if heap[left + 1].precedes heap[pos] then siftDown (heap.swap pos (left + 1)) (left + 1) else heap
    else if heap[left].precedes heap[pos] then siftDown (heap.swap pos left) left
    else heap
  else if _ : left < heap.size then
    if heap[left].precedes heap[pos] then heap.swap pos left else heap
  else heap
termination_by heap.size - pos
decreasing_by all_goals simp only [Array.size_swap]; omega

def ofRuns (runs : List (Run κ σ)) : Array (Run κ σ) :=
  (List.range (runs.length / 2)).foldr (fun pos heap => siftDown heap pos) runs.toArray

/-- Drops the first entry of the first run; an ended run gives its place to the last one. -/
def advance (heap : Array (Run κ σ)) (nonempty : 0 < heap.size) : Array (Run κ σ) :=
  match heap[0].tail with
  | next :: rest => heap.set 0 ⟨next, rest⟩
  | [] => (heap.swap 0 (heap.size - 1)).pop

omit [Ord κ] in
theorem entryCount_eq_of_perm {a b : Array (Run κ σ)} (h : a.Perm b) : entryCount a = entryCount b :=
  (h.toList.flatMap_right Run.toList).length_eq

theorem siftDown_perm (heap : Array (Run κ σ)) (pos : Nat) : (siftDown heap pos).Perm heap := by
  fun_induction siftDown heap pos with
  | case1 heap pos left h _ _ ih => exact ih.trans (Array.swap_perm ..)
  | case2 => exact Array.Perm.refl _
  | case3 heap pos left h _ _ ih => exact ih.trans (Array.swap_perm ..)
  | case4 => exact Array.Perm.refl _
  | case5 => exact Array.swap_perm ..
  | case6 => exact Array.Perm.refl _
  | case7 => exact Array.Perm.refl _

omit [Ord κ] in
theorem entryCount_pop_lt (heap : Array (Run κ σ)) (nonempty : 0 < heap.size) :
    entryCount heap.pop < entryCount heap := by
  have h : heap.toList ≠ [] := by intro h; simp_all
  rw [entryCount, entryCount, Array.toList_pop]
  conv => rhs; rw [← List.dropLast_concat_getLast h]
  simp [Run.toList]

omit [Ord κ] in
theorem entryCount_advance_lt (heap : Array (Run κ σ)) (nonempty : 0 < heap.size) :
    entryCount (advance heap nonempty) < entryCount heap := by
  rw [advance]
  split
  · next next rest h =>
    obtain ⟨runs⟩ := heap
    cases runs with
    | nil => simp at nonempty
    | cons run runs =>
      simp only [List.getElem_toArray, List.getElem_cons_zero] at h
      simp [entryCount, Run.toList, h]
  · next h =>
    have := entryCount_pop_lt (heap.swap 0 (heap.size - 1)) (by simpa using nonempty)
    rwa [entryCount_eq_of_perm (Array.swap_perm ..)] at this

def drain (heap : Array (Run κ σ)) : List (Entry κ σ) :=
  if nonempty : 0 < heap.size then heap[0].head :: drain (siftDown (advance heap nonempty) 0) else []
termination_by entryCount heap
decreasing_by
  rw [entryCount_eq_of_perm (siftDown_perm ..)]
  exact entryCount_advance_lt ..

end RunHeap

def mergeRuns (runs : List (List (Entry κ σ))) : List (Entry κ σ) :=
  RunHeap.drain (RunHeap.ofRuns (Run.ofLists runs))

/-- Joins the entry held with the following entries of its key, and so on for the rest. -/
def coalesceFrom (f : MergeFunction σ) (held : Entry κ σ) : List (Entry κ σ) → List (Entry κ σ)
  | [] => [held]
  | next :: rest =>
    if compare held.key next.key = .eq then coalesceFrom f (held.merge f next) rest
    else held :: coalesceFrom f next rest

def coalesce (f : MergeFunction σ) : List (Entry κ σ) → List (Entry κ σ)
  | [] => []
  | first :: rest => coalesceFrom f first rest

def sortByKey (entries : List (Entry κ σ)) : List (Entry κ σ) :=
  entries.mergeSort fun a b => (compare a.key b.key).isLE

end ReplicatedStore
