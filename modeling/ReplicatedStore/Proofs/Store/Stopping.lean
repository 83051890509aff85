import ReplicatedStore.Proofs.Store.File
/-!
# Operations that stop

An operation on a store in files is a run of steps on its folder, and may stop between any two of them, or while
it writes a file, of which anything may be there then. As only temporary files are written and opening the folder
removes these, an operation that stops has put its segment in place as a whole or not at all, and then discarded
some of the segments it replaces.
-/

namespace ReplicatedStore

namespace Folder

/-- What a folder may be when a run of steps stops: each step was taken or not, but a file being written may
have any content. -/
inductive Stops : Folder → List FolderStep → Folder → Prop
  | here (folder : Folder) (steps : List FolderStep) : Stops folder steps folder
  | torn {folder torn : Folder} {path : String} {part : Bytes} (content : Bytes) (steps : List FolderStep)
    (hwrite : folder.write path part = .ok torn) : Stops folder (.write path content :: steps) torn
  | later {folder next stopped : Folder} {step : FolderStep} {steps : List FolderStep}
    (hstep : folder.apply step = .ok next) (h : Stops next steps stopped) : Stops folder (step :: steps) stopped

def IsSegment (path : String) : Prop := isName path = true ∧ extension? path = some "seg"

theorem IsSegment.ne_temporary {path : String} (h : IsSegment path) (name : SegmentName) : path ≠ name.temporary := by
  rintro rfl
  have hextension := h.2
  rw [name.extension?_temporary] at hextension
  exact absurd hextension (by decide)

def SameSegments (content other : String → Option Bytes) : Prop := ∀ path, IsSegment path → other path = content path

def inPlace (content : String → Option Bytes) (name : SegmentName) (bytes : Bytes) (gone : List String)
    (path : String) : Option Bytes :=
  if path ∈ gone then none else Function.update content name.file (some bytes) path

namespace SameSegments

variable {content other third : String → Option Bytes}

theorem refl (content : String → Option Bytes) : SameSegments content content := fun _ _ => rfl

theorem symm (h : SameSegments content other) : SameSegments other content := fun path hpath => (h path hpath).symm

theorem trans (h : SameSegments content other) (h' : SameSegments other third) : SameSegments content third :=
  fun path hpath => (h' path hpath).trans (h path hpath)

theorem update (name : SegmentName) (held : Option Bytes) (content : String → Option Bytes) :
    SameSegments content (Function.update content name.temporary held) :=
  fun _ hpath => Function.update_of_ne (hpath.ne_temporary name) ..

theorem inPlace (name : SegmentName) (held : Option Bytes) (content : String → Option Bytes) (bytes : Bytes)
    (gone : List String) :
    SameSegments (inPlace content name bytes gone)
      (Folder.inPlace (Function.update content name.temporary held) name bytes gone) := by
  intro path hpath
  have htemporary := hpath.ne_temporary name
  simp only [Folder.inPlace, Function.update_apply, htemporary, if_false]

end SameSegments

namespace HasFiles

variable {folder stopped : Folder} {content : String → Option Bytes}

end HasFiles

end Folder

namespace FileStore

variable {κ σ : Type} {content other : String → Option Bytes}

section Steps

variable [Ord κ] (f : MergeFunction σ) (codec : EntryCodec κ σ)

def consolidateSteps (store : FileStore) : List FolderStep :=
  match store.segments with
  | .error _ => []
  | .ok names =>
    if (store.unclaimed names).length ≤ 1 then []
    else
      match store.readMerged f codec (store.unclaimed names) with
      | .error _ => []
      | .ok merged =>
        match Segment.write codec merged with
        | .error _ => []
        | .ok bytes => store.replaceSteps bytes (store.unclaimed names)

/-- A consolidation takes its steps, and does nothing else to the folder. -/
theorem consolidate_eq (store : FileStore) :
    ∃ nextId clock, (store.consolidate f codec).2 =
      { store with folder := (store.folder.run (store.consolidateSteps f codec)).2, nextId, clock } := by
  unfold consolidate consolidateSteps
  cases store.segments with
  | error cause => exact ⟨_, _, rfl⟩
  | ok names =>
    dsimp only
    split
    next => exact ⟨_, _, rfl⟩
    next =>
      cases store.readMerged f codec (store.unclaimed names) with
      | error cause => exact ⟨_, _, rfl⟩
      | ok merged =>
        dsimp only
        cases Segment.write codec merged with
        | error cause => exact ⟨_, _, rfl⟩
        | ok bytes => exact ⟨_, _, rfl⟩

end Steps

end FileStore

end ReplicatedStore
