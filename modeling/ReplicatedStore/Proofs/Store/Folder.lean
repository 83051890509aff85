import Mathlib.Logic.Function.Basic
import ReplicatedStore.Proofs.Store.Segment
import ReplicatedStore.Store.File
/-!
# Folders of files

A folder that holds nothing but files is told by what each of them contains. In these terms, each step that a
store in files takes is an update of one file or two, and none of them is refused.
-/

namespace ReplicatedStore.Folder

def Lists (named : Std.TreeMap String FolderItem) (content : String → Option Bytes) : Prop :=
  ∀ path : String, named[path]? = (content path).map .file

/-- The folder holds files with the given contents, and nothing else. -/
def HasFiles (folder : Folder) (content : String → Option Bytes) : Prop :=
  ∃ named, folder = .items named ∧ Lists named content

variable {named : Std.TreeMap String FolderItem} {folder : Folder} {content : String → Option Bytes}
  {path source target : String} {bytes : Bytes}

namespace Lists

theorem insert (h : Lists named content) (path : String) (bytes : Bytes) :
    Lists (named.insert path (.file bytes)) (Function.update content path (some bytes)) := by
  intro other
  rw [Std.TreeMap.getElem?_insert]
  by_cases hother : other = path
  · subst hother
    rw [if_pos Std.ReflOrd.compare_self, Function.update_self, Option.map_some]
  · rw [if_neg fun heq => hother (Std.LawfulEqOrd.eq_of_compare heq).symm, h, Function.update_of_ne hother]

theorem erase (h : Lists named content) (path : String) :
    Lists (named.erase path) (Function.update content path none) := by
  intro other
  rw [Std.TreeMap.getElem?_erase]
  by_cases hother : other = path
  · subst hother
    rw [if_pos Std.ReflOrd.compare_self, Function.update_self, Option.map_none]
  · rw [if_neg fun heq => hother (Std.LawfulEqOrd.eq_of_compare heq).symm, h, Function.update_of_ne hother]

theorem ne_folder (h : Lists named content) (path : String) : named[path]? ≠ some .folder := by
  rw [h]
  cases content path <;> simp

end Lists

theorem hasFiles_empty : HasFiles (.items ∅) fun _ => none :=
  ⟨∅, rfl, fun path => by simp⟩

namespace HasFiles

theorem create (h : folder.HasFiles content) : folder.create = .ok folder := by
  obtain ⟨named, rfl, -⟩ := h
  rfl

theorem read (h : folder.HasFiles content) (path : String) :
    folder.read path = (content path).elim (.error .notFound) .ok := by
  obtain ⟨named, rfl, hnamed⟩ := h
  simp only [Folder.read, items?, bind, Except.bind, hnamed path]
  cases content path <;> rfl

theorem holds (h : folder.HasFiles content) (path : String) : folder.holds path = (content path).isSome := by
  obtain ⟨named, rfl, hnamed⟩ := h
  rw [Folder.holds, Std.TreeMap.contains_eq_isSome_getElem?, hnamed, Option.isSome_map]

theorem write (h : folder.HasFiles content) (hpath : leading path = []) (bytes : Bytes) :
    ∃ after, folder.write path bytes = .ok after ∧
      after.HasFiles (Function.update content path (some bytes)) := by
  obtain ⟨named, rfl, hnamed⟩ := h
  refine ⟨_, ?_, _, rfl, hnamed.insert path bytes⟩
  simp only [Folder.write, itemsThrough, items?, hpath, bind, Except.bind]
  exact if_neg (hnamed.ne_folder path)

theorem rename (h : folder.HasFiles content) (hsource : content source = some bytes) (target : String) :
    ∃ after, folder.rename source target = .ok after ∧
      after.HasFiles (Function.update (Function.update content source none) target (some bytes)) := by
  obtain ⟨named, rfl, hnamed⟩ := h
  have hitem : named[source]? = some (.file bytes) := by rw [hnamed, hsource, Option.map_some]
  refine ⟨_, ?_, _, rfl, (hnamed.erase source).insert target bytes⟩
  simp only [Folder.rename, items?, bind, Except.bind, hitem]
  exact if_neg (hnamed.ne_folder target)

theorem discard (h : folder.HasFiles content) (path : String) :
    ∃ after, folder.discard path = .ok after ∧ after.HasFiles (Function.update content path none) := by
  obtain ⟨named, rfl, hnamed⟩ := h
  cases hpath : content path with
  | none =>
    have hitem : named[path]? = none := by rw [hnamed, hpath, Option.map_none]
    have hsame : Function.update content path none = content := by
      rw [← hpath]
      exact Function.update_eq_self path content
    refine ⟨_, ?_, named, rfl, by rw [hsame]; exact hnamed⟩
    simp only [Folder.discard, Folder.remove, items?, bind, Except.bind, hitem]
  | some bytes =>
    have hitem : named[path]? = some (.file bytes) := by rw [hnamed, hpath, Option.map_some]
    refine ⟨_, ?_, _, rfl, hnamed.erase path⟩
    simp only [Folder.discard, Folder.remove, items?, bind, Except.bind, hitem]

theorem run_discards (h : folder.HasFiles content) (paths : List String) :
    ∃ after, folder.run (paths.map .discard) = (.ok (), after) ∧
      after.HasFiles fun path => if path ∈ paths then none else content path := by
  induction paths generalizing folder content with
  | nil => exact ⟨folder, rfl, by simpa using h⟩
  | cons path rest ih =>
    obtain ⟨between, hdiscard, hbetween⟩ := h.discard path
    obtain ⟨after, hrun, hafter⟩ := ih hbetween
    refine ⟨after, ?_, ?_⟩
    · rw [List.map_cons, Folder.run, Folder.apply, hdiscard]
      exact hrun
    · convert hafter using 2 with other
      by_cases hrest : other ∈ rest
      · simp [hrest]
      · by_cases hpath : other = path
        · subst hpath
          simp [hrest]
        · simp [hrest, hpath]

theorem mem_withExtension (h : folder.HasFiles content) (extension : String) :
    ∃ names, folder.withExtension extension = .ok names ∧ names.Pairwise (fun a b => compare a b = .lt) ∧
      ∀ path, path ∈ names ↔
        (content path).isSome = true ∧ isName path = true ∧ extension? path = some extension := by
  obtain ⟨named, rfl, hnamed⟩ := h
  refine ⟨_, rfl, ?_, fun path => ?_⟩
  · exact Std.TreeMap.ordered_keys.filter _
  · rw [List.mem_filter, Std.TreeMap.mem_keys, Std.TreeMap.mem_iff_isSome_getElem?, hnamed, Option.isSome_map,
      Bool.and_eq_true, beq_iff_eq]

end HasFiles

section Reading

variable {after : Folder}

theorem read_eq_ok_iff :
    folder.read path = .ok bytes ↔ ∃ named, folder = .items named ∧ named[path]? = some (.file bytes) := by
  constructor
  · intro h
    cases folder with
    | absent => cases h
    | blocked => cases h
    | file => cases h
    | items named =>
      refine ⟨named, rfl, ?_⟩
      simp only [read, items?, bind, Except.bind] at h
      split at h
      next => cases h
      next => cases h
      next hitem => rw [hitem, Except.ok.inj h]
  · rintro ⟨named, rfl, hitem⟩
    simp only [read, items?, bind, Except.bind, hitem]

theorem read_of_write (h : folder.write path bytes = .ok after) : after.read path = .ok bytes := by
  unfold write at h
  cases hnamed : folder.itemsThrough (leading path) with
  | error cause =>
    rw [hnamed] at h
    cases h
  | ok named =>
    simp only [hnamed, bind, Except.bind] at h
    split at h
    next => cases h
    next =>
      cases h
      exact read_eq_ok_iff.mpr ⟨_, rfl, Std.TreeMap.getElem?_insert_self⟩

theorem read_of_rename (hsource : folder.read source = .ok bytes) (h : folder.rename source target = .ok after) :
    after.read target = .ok bytes := by
  obtain ⟨named, rfl, hitem⟩ := read_eq_ok_iff.mp hsource
  simp only [rename, items?, bind, Except.bind, hitem] at h
  split at h
  next => cases h
  next =>
    cases h
    exact read_eq_ok_iff.mpr ⟨_, rfl, Std.TreeMap.getElem?_insert_self⟩

end Reading

end ReplicatedStore.Folder
