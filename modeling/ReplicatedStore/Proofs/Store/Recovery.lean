import ReplicatedStore.Proofs.Entry.Covering
import ReplicatedStore.Proofs.Store.Contents
import ReplicatedStore.Proofs.Store.Stopping
/-!
# Opening a folder again

However an upload or a consolidation stops, each segment in the folder is whole. A consolidation may leave its
segment beside any of those it was written from, so that an entry is there more than once, in joins with other
entries; a merge function that joins states in any order and any number of times makes the same of them.

The codec restores what it encodes, in lengths that a record can tell (longer payloads are written but not read back),
and the name of the next segment is not that of another one.
-/

namespace ReplicatedStore

variable {κ σ : Type} {f : MergeFunction σ} {codec : EntryCodec κ σ} {content other : String → Option Bytes}

namespace Folder

def entriesIn (codec : EntryCodec κ σ) (content : String → Option Bytes) (path : String) : List (Entry κ σ) :=
  ((content path).bind fun bytes => (Segment.read codec bytes).toOption).getD []

theorem entriesIn_of_write (hcodec : codec.RestoresEncoded) {entries : List (Entry κ σ)} {bytes : Bytes}
    (hbytes : Segment.write codec entries = .ok bytes) {path : String} (hpath : content path = some bytes) :
    entriesIn codec content path = entries := by
  rw [entriesIn, hpath, Option.bind_some, Segment.read_of_write hcodec hbytes]
  rfl

variable [Ord κ]

def Written (codec : EntryCodec κ σ) (content : String → Option Bytes) : Prop :=
  ∀ path bytes, IsSegment path → content path = some bytes →
    ∃ entries, Entry.Ascending entries ∧ Segment.write codec entries = .ok bytes

namespace Written

theorem congr (h : Written codec content) (hsame : SameSegments content other) : Written codec other := by
  intro path bytes hpath hbytes
  rw [hsame path hpath] at hbytes
  exact h path bytes hpath hbytes

theorem inPlace (h : Written codec content) (name : SegmentName) {entries : List (Entry κ σ)} {bytes : Bytes}
    (hascending : Entry.Ascending entries) (hbytes : Segment.write codec entries = .ok bytes)
    (gone : List String) : Written codec (Folder.inPlace content name bytes gone) := by
  intro path held hpath hheld
  unfold Folder.inPlace at hheld
  split at hheld
  next => contradiction
  next =>
    by_cases hname : path = name.file
    · rw [hname, Function.update_self, Option.some_inj] at hheld
      exact ⟨entries, hascending, hheld ▸ hbytes⟩
    · rw [Function.update_of_ne hname] at hheld
      exact h path held hpath hheld

theorem read (hcodec : codec.RestoresEncoded) (h : Written codec content) {path : String} (hpath : IsSegment path)
    {bytes : Bytes} (hbytes : content path = some bytes) :
    Segment.read codec bytes = .ok (entriesIn codec content path) ∧
      Entry.Ascending (entriesIn codec content path) := by
  obtain ⟨entries, hascending, hwrite⟩ := h path bytes hpath hbytes
  rw [entriesIn_of_write hcodec hwrite hbytes]
  exact ⟨Segment.read_of_write hcodec hwrite, hascending⟩

end Written

end Folder

namespace FileStore

open Folder

variable {store opened : FileStore} {stopped : Folder} [Ord κ] [Std.TransOrd κ] [Std.LawfulEqOrd κ]

section Stops

variable (opening clock : Nat) (salt : UInt32)

omit [Std.TransOrd κ] [Std.LawfulEqOrd κ]

variable [Std.TransOrd κ] [Std.LawfulEqOrd κ]

end Stops

section Refusals

omit [Std.TransOrd κ] [Std.LawfulEqOrd κ]

theorem io_of_runWriting {steps : List FolderStep} {cause : StoreError}
    (h : (store.runWriting steps).1 = .error cause) : ∃ reason, cause = .io reason := by
  unfold runWriting at h
  cases hrun : (store.folder.run steps).1 with
  | ok done =>
    dsimp only at h
    rw [hrun] at h
    contradiction
  | error refusal =>
    dsimp only at h
    rw [hrun] at h
    exact ⟨refusal.message, (Except.error.inj h).symm⟩

/-- An upload that fails for its source, or for an entry that has no encoding, changes nothing. -/
theorem upload_refused {feed : Feed κ σ} {cause : StoreError} (h : (store.upload f codec feed).1 = .error cause)
    (hcause : feed.collect = .error cause ∨ ∀ reason, cause ≠ .io reason) : (store.upload f codec feed).2 = store := by
  unfold upload at h ⊢
  cases hcollect : feed.collect with
  | error own => rfl
  | ok entries =>
    rw [hcollect] at h hcause
    cases entries with
    | nil => rfl
    | cons first rest =>
      dsimp only at h ⊢
      cases hbytes : Segment.write codec (arranged f (first :: rest)) with
      | error own => rfl
      | ok bytes =>
        rw [hbytes] at h
        obtain ⟨reason, hreason⟩ := io_of_runWriting h
        rcases hcause with hfeed | hother
        · cases hfeed
        · exact absurd hreason (hother reason)

end Refusals

end FileStore

end ReplicatedStore
