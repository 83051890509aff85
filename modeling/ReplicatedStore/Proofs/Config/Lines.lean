import Mathlib.Data.List.Induction
import ReplicatedStore.Config.Source
import ReplicatedStore.Proofs.Text.Separators
/-!
# Property text

Text with one setting a line is read as exactly these settings, whatever white space stands around keys
and values and whatever remarks stand between the lines. Where no key is set twice, every key has the
value that was written.
-/

namespace ReplicatedStore.ConfigSource

/-! ### Lines -/

def Padding (cs : List Char) : Prop := Text.Blank cs ∧ '\n' ∉ cs

instance (cs : List Char) : Decidable (Padding cs) := inferInstanceAs (Decidable (Text.Blank cs ∧ '\n' ∉ cs))

def Padded (core text : List Char) : Prop :=
  ∃ before after, Padding before ∧ Padding after ∧ text = before ++ core ++ after

inductive IsRemark : List Char → Prop where
  | blank {line : List Char} : Padding line → IsRemark line
  | remark {blanks text : List Char} : Padding blanks → '\n' ∉ text → IsRemark (blanks ++ '#' :: text)

/-- The lines on which settings are written, one a line, in any layout. -/
inductive Lines : List (String × List Char) → List (List Char) → Prop where
  | nil : Lines [] []
  | remark {settings : List (String × List Char)} {line : List Char} {lines : List (List Char)} :
      IsRemark line → Lines settings lines → Lines settings (line :: lines)
  | setting {key : String} {value front back : List Char} {settings : List (String × List Char)}
      {lines : List (List Char)} : Padded key.toList front → Padded value back → Lines settings lines →
      Lines ((key, value) :: settings) ((front ++ '=' :: back) :: lines)

structure IsKey (key : String) : Prop where
  equals : '=' ∉ key.toList
  newline : '\n' ∉ key.toList
  /-- It starts with a character that is no white space and starts no remark. -/
  first : ∃ c cs, key.toList = c :: cs ∧ Text.isBlank c = false ∧ c ≠ '#'
  tight : Text.trimmed key.toList = key.toList

variable {core text line : List Char} {key : String} {value : List Char}
  {settings : List (String × List Char)} {lines : List (List Char)}

theorem Padding.not_mem {c : Char} (h : Padding text) (hc : Text.isBlank c = false ∨ c = '\n') : c ∉ text := by
  intro hmem
  rcases hc with hblank | rfl
  · rw [h.1 c hmem] at hblank
    contradiction
  · exact h.2 hmem

theorem Padded.not_mem {c : Char} (h : Padded core text) (hcore : c ∉ core)
    (hc : Text.isBlank c = false ∨ c = '\n') : c ∉ text := by
  obtain ⟨before, after, hbefore, hafter, rfl⟩ := h
  simp [hbefore.not_mem hc, hafter.not_mem hc, hcore]

theorem Padded.trimmed (h : Padded core text) : Text.trimmed text = Text.trimmed core := by
  obtain ⟨before, after, hbefore, hafter, rfl⟩ := h
  exact Text.trimmed_padded hbefore.1 hafter.1 core

theorem IsRemark.newline (h : IsRemark line) : '\n' ∉ line := by
  cases h with
  | blank hline => exact hline.2
  | remark hblanks htext => simp [hblanks.2, htext]

theorem parseLine_remark (h : IsRemark line) : parseLine line = .ok none := by
  cases h with
  | blank hline => simp [parseLine, Text.trimmed_of_blank hline.1]
  | remark hblanks htext =>
    have hstart := List.dropWhile_eq_nil_iff.mpr hblanks.1
    rw [parseLine, Text.trimmed_around rfl, Text.trimmedStart, hstart]
    simp

theorem parseLine_setting {front back : List Char} (hkey : IsKey key) (hfront : Padded key.toList front)
    (hback : Padded value back) :
    parseLine (front ++ '=' :: back) = .ok (some (key, String.ofList (Text.trimmed value))) := by
  have hkeyText : Text.trimmed (Text.trimmedStart front) = key.toList := by
    rw [Text.trimmed_trimmedStart, hfront.trimmed, hkey.tight]
  have hvalueText : Text.trimmed (Text.trimmedEnd back) = Text.trimmed value := by
    rw [Text.trimmed_trimmedEnd, hback.trimmed]
  obtain ⟨before, after, hbefore, hafter, rfl⟩ := hfront
  obtain ⟨c, cs, hchars, hblank, hremark⟩ := hkey.first
  have hstart : Text.trimmedStart (before ++ key.toList ++ after) = c :: (cs ++ after) := by
    rw [Text.trimmedStart, List.append_assoc, List.dropWhile_append_of_pos hbefore.1, hchars]
    simp [hblank]
  have hequals : '=' ∉ c :: (cs ++ after) := by
    rw [← List.cons_append, ← hchars, List.mem_append, not_or]
    exact ⟨hkey.equals, hafter.not_mem (.inl rfl)⟩
  rw [hstart] at hkeyText
  rw [parseLine, Text.trimmed_around rfl, hstart, Text.splitFirst?_append hequals]
  simp [hremark, hkeyText, hvalueText]

theorem parseLines_lines (h : Lines settings lines) (hkeys : ∀ setting ∈ settings, IsKey setting.1) :
    parseLines lines =
      .ok (settings.map fun setting => (setting.1, String.ofList (Text.trimmed setting.2))) := by
  induction h with
  | nil => rfl
  | remark hline _ ih =>
    simp [parseLines, parseLine_remark hline, ih hkeys, bind, Except.bind, pure, Except.pure]
  | setting hfront hback _ ih =>
    obtain ⟨hkey, hrest⟩ := List.forall_mem_cons.mp hkeys
    simp [parseLines, parseLine_setting hkey hfront hback, ih hrest, bind, Except.bind, pure, Except.pure]

theorem newline_not_mem_lines (h : Lines settings lines) (hkeys : ∀ setting ∈ settings, IsKey setting.1)
    (hvalues : ∀ setting ∈ settings, '\n' ∉ setting.2) : ∀ line ∈ lines, '\n' ∉ line := by
  induction h with
  | nil => simp
  | remark hline _ ih => exact List.forall_mem_cons.mpr ⟨hline.newline, ih hkeys hvalues⟩
  | setting hfront hback _ ih =>
    obtain ⟨hkey, hkeys⟩ := List.forall_mem_cons.mp hkeys
    obtain ⟨hvalue, hvalues⟩ := List.forall_mem_cons.mp hvalues
    refine List.forall_mem_cons.mpr ⟨?_, ih hkeys hvalues⟩
    simp [hfront.not_mem hkey.newline (.inr rfl), hback.not_mem hvalue (.inr rfl)]

/-- Property text is read as the settings that are written on its lines. -/
theorem parse_lines (h : Lines settings lines) (hkeys : ∀ setting ∈ settings, IsKey setting.1)
    (hvalues : ∀ setting ∈ settings, '\n' ∉ setting.2) :
    parse (String.ofList (['\n'].intercalate lines)) =
      .ok (ofPairs (settings.map fun setting => (setting.1, String.ofList (Text.trimmed setting.2)))) := by
  have hread : parseLines (Text.split '\n' (['\n'].intercalate lines)) = parseLines lines := by
    cases lines with
    | nil => rfl
    | cons line rest =>
      rw [Text.split_eq_splitOn, List.splitOn_intercalate _ (newline_not_mem_lines h hkeys hvalues) (by simp)]
  rw [parse, String.toList_ofList, hread, parseLines_lines h hkeys]
  rfl

/-! ### Values of keys -/

theorem get?_ofPairs {pairs : List (String × String)} (h : (pairs.map Prod.fst).Nodup) (key value : String) :
    (ofPairs pairs).get? key = some value ↔ (key, value) ∈ pairs := by
  induction pairs using List.reverseRecOn with
  | nil => simp [ofPairs, get?]
  | append_singleton pairs last ih =>
    rw [List.map_append, List.nodup_append] at h
    obtain ⟨hpairs, -, hnew⟩ := h
    have hinsert : (ofPairs (pairs ++ [last])).get? key =
        if last.1 = key then some last.2 else (ofPairs pairs).get? key := by
      simp only [ofPairs, get?, List.foldl_append, List.foldl_cons, List.foldl_nil, Std.TreeMap.getElem?_insert,
        Std.LawfulEqOrd.compare_eq_iff_eq]
    rw [hinsert, List.mem_append, List.mem_singleton]
    split
    next hkey =>
      have hnot : (key, value) ∉ pairs := fun hmem =>
        hnew key (List.mem_map_of_mem hmem) last.1 (by simp) hkey.symm
      simp [hnot, Prod.ext_iff, hkey, eq_comm]
    next hkey =>
      rw [ih hpairs]
      simp [Prod.ext_iff, Ne.symm hkey]

theorem mem_keys_ofPairs {pairs : List (String × String)} {key : String} :
    key ∈ (ofPairs pairs).values.keys ↔ key ∈ pairs.map Prod.fst := by
  rw [Std.TreeMap.mem_keys]
  induction pairs using List.reverseRecOn with
  | nil => simp [ofPairs]
  | append_singleton pairs last ih =>
    have hinsert : key ∈ (ofPairs (pairs ++ [last])).values ↔ last.1 = key ∨ key ∈ (ofPairs pairs).values := by
      simp only [ofPairs, List.foldl_append, List.foldl_cons, List.foldl_nil, Std.TreeMap.mem_insert,
        Std.LawfulEqOrd.compare_eq_iff_eq]
    rw [hinsert, ih]
    simp [or_comm, eq_comm]

end ReplicatedStore.ConfigSource
