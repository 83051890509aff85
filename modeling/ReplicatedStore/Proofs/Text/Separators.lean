import Mathlib.Data.List.TakeWhile
import ReplicatedStore.Text.Blank
/-!
# Pieces and padding

Cutting a text at its separators undoes joining pieces with them, whatever the pieces are: a piece that
has the separator itself is cut again. White space around a text that has none at its ends is taken off.
-/

namespace ReplicatedStore.Text

variable {separator c : Char} {before after cs : List Char}

/-! ### Cutting -/

theorem split_eq_splitOn (separator : Char) (cs : List Char) : split separator cs = cs.splitOn separator := by
  induction cs with
  | nil => rfl
  | cons c cs ih =>
    rw [split, List.splitOn_cons_eq_if_modifyHead, ih]
    by_cases h : c = separator
    · simp [h]
    · cases hpieces : cs.splitOn separator with
      | nil => exact absurd hpieces (List.splitOn_ne_nil separator cs)
      | cons piece pieces => simp [h]

theorem split_append (separator : Char) (before after : List Char) :
    split separator (before ++ separator :: after) = split separator before ++ split separator after := by
  simp only [split_eq_splitOn, List.splitOn_append_cons_self]

theorem split_of_not_mem (h : separator ∉ cs) : split separator cs = [cs] := by
  rw [split_eq_splitOn, List.splitOn_eq_singleton h]

theorem length_split (separator : Char) (cs : List Char) :
    (split separator cs).length = cs.count separator + 1 := by
  rw [split_eq_splitOn]
  induction cs with
  | nil => rfl
  | cons c cs ih =>
    rw [List.splitOn_cons_eq_if_modifyHead, List.count_cons]
    split <;> simp [ih]

theorem split_ne_nil (separator : Char) (cs : List Char) : split separator cs ≠ [] := by
  apply List.ne_nil_of_length_pos
  rw [length_split]
  omega

theorem not_mem_of_mem_split {piece : List Char} (h : piece ∈ split separator cs) : separator ∉ piece := by
  induction cs generalizing piece with
  | nil => simp_all [split]
  | cons c cs ih =>
    rw [split_eq_splitOn, List.splitOn_cons_eq_if_modifyHead, ← split_eq_splitOn] at h
    by_cases hc : c = separator
    · simp only [hc, BEq.rfl, if_true, List.mem_cons] at h
      rcases h with rfl | h
      · simp
      · exact ih h
    · cases hpieces : split separator cs with
      | nil => exact absurd hpieces (split_ne_nil separator cs)
      | cons first rest =>
        simp only [hpieces, beq_eq_false_iff_ne.mpr hc, Bool.false_eq_true, if_false,
          List.modifyHead_cons, List.mem_cons] at h
        rw [hpieces] at ih
        rcases h with rfl | h
        · simpa [Ne.symm hc] using ih List.mem_cons_self
        · exact ih (List.mem_cons_of_mem _ h)

theorem not_mem_intercalate {pieces : List (List Char)} (hc : c ≠ separator) (h : ∀ piece ∈ pieces, c ∉ piece) :
    c ∉ [separator].intercalate pieces := by
  induction pieces with
  | nil => simp
  | cons piece rest ih =>
    obtain ⟨hpiece, hrest⟩ := List.forall_mem_cons.mp h
    cases rest with
    | nil => simpa using hpiece
    | cons next rest =>
      rw [List.intercalate_cons_cons]
      simp [hpiece, hc, ih hrest]

theorem splitFirst?_append (h : separator ∉ before) (after : List Char) :
    splitFirst? separator (before ++ separator :: after) = some (before, after) := by
  induction before with
  | nil => rw [List.nil_append, splitFirst?, if_pos rfl]
  | cons c cs ih =>
    rw [List.mem_cons, not_or] at h
    obtain ⟨hne, hcs⟩ := h
    rw [List.cons_append, splitFirst?, if_neg (Ne.symm hne), ih hcs]
    rfl

theorem splitLast?_append (before : List Char) (h : separator ∉ after) :
    splitLast? separator (before ++ separator :: after) = some (before, after) := by
  have hreverse : (before ++ separator :: after).reverse = after.reverse ++ separator :: before.reverse := by
    simp
  rw [splitLast?, hreverse, splitFirst?_append (by simpa using h)]
  simp

/-! ### Padding -/

def Blank (cs : List Char) : Prop := ∀ c ∈ cs, isBlank c = true

instance (cs : List Char) : Decidable (Blank cs) := decidable_of_iff (cs.all isBlank = true) List.all_eq_true

theorem blank_nil : Blank [] := by simp [Blank]

theorem trimmed_of_blank (h : Blank cs) : trimmed cs = [] := by
  have hnil : cs.dropWhile isBlank = [] := List.dropWhile_eq_nil_iff.mpr h
  simp [trimmed, hnil]

theorem trimmed_padded (hbefore : Blank before) (hafter : Blank after) (cs : List Char) :
    trimmed (before ++ cs ++ after) = trimmed cs := by
  have hback : ∀ c ∈ after.reverse, isBlank c = true := by simpa [Blank] using hafter
  rw [List.append_assoc, trimmed, List.dropWhile_append_of_pos hbefore, List.dropWhile_append]
  split
  next hcs =>
    have hblank : after.dropWhile isBlank = [] := List.dropWhile_eq_nil_iff.mpr hafter
    simp [trimmed, hblank, List.isEmpty_iff.mp hcs]
  next => rw [List.reverse_append, List.dropWhile_append_of_pos hback, trimmed]

theorem trimmed_eq_self (hfirst : ∀ c, cs.head? = some c → isBlank c = false)
    (hlast : ∀ c, cs.getLast? = some c → isBlank c = false) : trimmed cs = cs := by
  have hends : ∀ {cs : List Char}, (∀ c, cs.head? = some c → isBlank c = false) →
      cs.dropWhile isBlank = cs := by
    intro cs h
    cases cs with
    | nil => rfl
    | cons c cs => simp [h c rfl]
  rw [trimmed, hends hfirst, hends (by simpa using hlast), List.reverse_reverse]

theorem trimmed_eq_self_of_forall (h : ∀ c ∈ cs, isBlank c = false) : trimmed cs = cs := by
  apply trimmed_eq_self
  · intro c hc
    exact h c (List.mem_of_mem_head? hc)
  · intro c hc
    exact h c (List.mem_of_getLast? hc)

private theorem exists_blank_front (cs : List Char) :
    ∃ before, Blank before ∧ cs = before ++ cs.dropWhile isBlank := by
  have hblank : Blank (cs.takeWhile isBlank) := fun c h => List.mem_takeWhile_imp h
  exact ⟨_, hblank, List.takeWhile_append_dropWhile.symm⟩

private theorem exists_blank_back (cs : List Char) :
    ∃ after, Blank after ∧ cs = (cs.reverse.dropWhile isBlank).reverse ++ after := by
  obtain ⟨after, hafter, htext⟩ := exists_blank_front cs.reverse
  refine ⟨after.reverse, by simpa [Blank] using hafter, ?_⟩
  rw [← List.reverse_append, ← htext, List.reverse_reverse]

theorem exists_padding (cs : List Char) :
    ∃ before after, Blank before ∧ Blank after ∧ cs = before ++ trimmed cs ++ after := by
  obtain ⟨before, hbefore, hfront⟩ := exists_blank_front cs
  obtain ⟨after, hafter, hback⟩ := exists_blank_back (cs.dropWhile isBlank)
  refine ⟨before, after, hbefore, hafter, ?_⟩
  rw [List.append_assoc, trimmed, ← hback, ← hfront]

/-- The white space around a text is not part of the pieces that it is cut into, up to the white space
around these. -/
theorem map_trimmed_split_padded (hseparator : isBlank separator = false) (hbefore : Blank before)
    (hafter : Blank after) (cs : List Char) :
    (split separator (before ++ cs ++ after)).map trimmed = (split separator cs).map trimmed := by
  have hnot : ∀ {cs}, Blank cs → separator ∉ cs := by
    intro cs h hmem
    rw [h separator hmem] at hseparator
    contradiction
  -- The white space in front is part of the first piece, that behind part of the last one.
  induction h : cs.length using Nat.strongRecOn generalizing before cs with
  | ind n ih =>
    by_cases hmem : separator ∈ cs
    · obtain ⟨piece, rest, rfl, hpiece⟩ := List.eq_append_cons_of_mem hmem
      have htext : before ++ (piece ++ separator :: rest) ++ after =
          (before ++ piece) ++ separator :: (rest ++ after) := by simp
      have hfirst : separator ∉ before ++ piece := by simp [hnot hbefore, hpiece]
      have hpadded : trimmed (before ++ piece) = trimmed piece := by
        simpa using trimmed_padded hbefore blank_nil piece
      have hrest := ih rest.length (by simp at h; omega) blank_nil rest rfl
      rw [List.nil_append] at hrest
      rw [htext, split_append, split_append, split_of_not_mem hfirst, split_of_not_mem hpiece, List.map_append,
        List.map_append, hrest]
      simp [hpadded]
    · have hall : separator ∉ before ++ cs ++ after := by simp [hnot hbefore, hnot hafter, hmem]
      rw [split_of_not_mem hall, split_of_not_mem hmem, List.map_singleton, List.map_singleton,
        trimmed_padded hbefore hafter]

theorem map_trimmed_split_trimmed (hseparator : isBlank separator = false) (cs : List Char) :
    (split separator (trimmed cs)).map trimmed = (split separator cs).map trimmed := by
  obtain ⟨before, after, hbefore, hafter, htext⟩ := exists_padding cs
  have h := map_trimmed_split_padded hseparator hbefore hafter (trimmed cs)
  rw [← htext] at h
  exact h.symm

/-! ### Padding around a separator -/

def trimmedStart (cs : List Char) : List Char := cs.dropWhile isBlank

def trimmedEnd (cs : List Char) : List Char := (cs.reverse.dropWhile isBlank).reverse

theorem trimmed_trimmedStart (cs : List Char) : trimmed (trimmedStart cs) = trimmed cs := by
  obtain ⟨before, hbefore, htext⟩ := exists_blank_front cs
  have h := trimmed_padded hbefore blank_nil (trimmedStart cs)
  rw [List.append_nil, trimmedStart, ← htext] at h
  exact h.symm

theorem trimmed_trimmedEnd (cs : List Char) : trimmed (trimmedEnd cs) = trimmed cs := by
  obtain ⟨after, hafter, htext⟩ := exists_blank_back cs
  have h := trimmed_padded blank_nil hafter (trimmedEnd cs)
  rw [List.nil_append, trimmedEnd, ← htext] at h
  exact h.symm

theorem trimmed_around (h : isBlank c = false) (before after : List Char) :
    trimmed (before ++ c :: after) = trimmedStart before ++ c :: trimmedEnd after := by
  have hdrop : ∀ before after : List Char,
      (before ++ c :: after).dropWhile isBlank = before.dropWhile isBlank ++ c :: after := by
    intro before after
    rw [List.dropWhile_append]
    split
    next hnil => simp [h, List.isEmpty_iff.mp hnil]
    next => rfl
  rw [trimmed, hdrop, List.reverse_append, List.reverse_cons, List.append_assoc, List.singleton_append, hdrop]
  simp [trimmedStart, trimmedEnd]

end ReplicatedStore.Text
