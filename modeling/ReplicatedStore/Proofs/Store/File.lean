import Mathlib.Data.List.Nodup
import Mathlib.Data.List.Sort
import ReplicatedStore.Proofs.Store.Folder
import ReplicatedStore.Proofs.Store.Feed
/-!
# Requests to a store in files

What each request does to a store whose folder holds finished segments only: which files it adds and removes,
and which segments it claims. A request that is refused leaves the store as it is.
-/

namespace ReplicatedStore.FileStore

variable {κ σ : Type} [Ord κ] {f : MergeFunction σ} {codec : EntryCodec κ σ} {store : FileStore}
  {content : String → Option Bytes}

def advanced (folder : Folder) (store : FileStore) : FileStore :=
  { store with folder, nextId := store.nextId + 1, clock := store.clock + 1 }

theorem run_replacing {folder : Folder} (h : folder.HasFiles content) (name : SegmentName) (bytes : Bytes)
    (replaced : List String) :
    ∃ after, folder.run (writeSteps name bytes ++ replaced.map .discard) = (.ok (), after) ∧
      after.HasFiles fun path => if path ∈ replaced then none
        else Function.update (Function.update content name.temporary none) name.file (some bytes) path := by
  obtain ⟨between, hwrite, hbetween⟩ := h.write name.leading_temporary bytes
  obtain ⟨renamed, hrename, hrenamed⟩ := hbetween.rename (Function.update_self ..) name.file
  rw [Function.update_idem] at hrenamed
  obtain ⟨after, hrun, hafter⟩ := hrenamed.run_discards replaced
  refine ⟨after, ?_, hafter⟩
  simp only [writeSteps, List.cons_append, List.nil_append, Folder.run, Folder.apply, hwrite, hrename, hrun]

theorem runWriting_replaceSteps (h : store.folder.HasFiles content)
    (htemporary : content store.nextName.temporary = none) (bytes : Bytes) (replaced : List String) :
    ∃ folder, store.runWriting (store.replaceSteps bytes replaced) = (.ok (), store.advanced folder) ∧
      folder.HasFiles fun path =>
        if path ∈ replaced then none else Function.update content store.nextName.file (some bytes) path := by
  obtain ⟨folder, hrun, hfolder⟩ := run_replacing h store.nextName bytes replaced
  have hsame : Function.update content store.nextName.temporary none = content := by
    rw [← htemporary]
    exact Function.update_eq_self _ content
  rw [hsame] at hfolder
  refine ⟨folder, ?_, hfolder⟩
  rw [runWriting, replaceSteps, hrun]
  rfl

/-- What an upload does to a store whose folder holds files with the given contents. -/
inductive Uploaded (f : MergeFunction σ) (codec : EntryCodec κ σ) (content : String → Option Bytes)
    (store : FileStore) : Feed κ σ → Except StoreError Unit × FileStore → Prop
  | aborted {feed : Feed κ σ} {cause : StoreError} (hfeed : feed.collect = .error cause) :
    Uploaded f codec content store feed (.error cause, store)
  | empty : Uploaded f codec content store [] (.ok (), store)
  | unwritable {entries : List (Entry κ σ)} {cause : CodecError}
    (hbytes : Segment.write codec (arranged f entries) = .error cause) :
    Uploaded f codec content store (.ofEntries entries) (.error (.codec cause), store)
  | written {entries : List (Entry κ σ)} {bytes : Bytes} {folder : Folder} (hne : entries ≠ [])
    (hbytes : Segment.write codec (arranged f entries) = .ok bytes)
    (hfolder : folder.HasFiles (Function.update content store.nextName.file (some bytes))) :
    Uploaded f codec content store (.ofEntries entries) (.ok (), store.advanced folder)

variable (f codec) in
theorem upload_uploaded (h : store.folder.HasFiles content)
    (htemporary : content store.nextName.temporary = none) (feed : Feed κ σ) :
    Uploaded f codec content store feed (store.upload f codec feed) := by
  unfold upload
  cases hcollect : feed.collect with
  | error cause => exact .aborted hcollect
  | ok entries =>
    obtain rfl := Feed.eq_ofEntries_of_collect hcollect
    cases entries with
    | nil => exact .empty
    | cons first rest =>
      dsimp only
      cases hbytes : Segment.write codec (arranged f (first :: rest)) with
      | error cause => exact .unwritable hbytes
      | ok bytes =>
        obtain ⟨folder, hrun, hfolder⟩ := runWriting_replaceSteps h htemporary bytes []
        rw [replaceSteps, List.map_nil, List.append_nil] at hrun
        simp only [List.not_mem_nil, if_false] at hfolder
        dsimp only
        rw [hrun]
        exact .written (List.cons_ne_nil first rest) hbytes hfolder

inductive Consolidated (f : MergeFunction σ) (codec : EntryCodec κ σ) (content : String → Option Bytes)
    (store : FileStore) (names : List String) : Except StoreError Nat × FileStore → Prop
  | idle (hfew : (store.unclaimed names).length ≤ 1) :
    Consolidated f codec content store names (.ok 0, store)
  | unreadable {cause : StoreError} (hread : store.readMerged f codec (store.unclaimed names) = .error cause) :
    Consolidated f codec content store names (.error cause, store)
  | unwritable {entries : List (Entry κ σ)} {cause : CodecError}
    (hread : store.readMerged f codec (store.unclaimed names) = .ok entries)
    (hbytes : Segment.write codec entries = .error cause) :
    Consolidated f codec content store names (.error (.codec cause), store)
  | merged {entries : List (Entry κ σ)} {bytes : Bytes} {folder : Folder} {count : Nat}
    (hcount : (store.unclaimed names).length = count + 2)
    (hread : store.readMerged f codec (store.unclaimed names) = .ok entries)
    (hbytes : Segment.write codec entries = .ok bytes)
    (hfolder : folder.HasFiles fun path => if path ∈ store.unclaimed names then none
      else Function.update content store.nextName.file (some bytes) path) :
    Consolidated f codec content store names (.ok (count + 2), store.advanced folder)

variable (f codec) in
theorem consolidate_consolidated (h : store.folder.HasFiles content)
    (htemporary : content store.nextName.temporary = none) {names : List String}
    (hnames : store.segments = .ok names) :
    Consolidated f codec content store names (store.consolidate f codec) := by
  unfold consolidate
  rw [hnames]
  dsimp only
  split
  next hfew => exact .idle hfew
  next hmany =>
    obtain ⟨count, hcount⟩ := Nat.exists_eq_add_of_le (Nat.lt_of_not_le hmany)
    cases hread : store.readMerged f codec (store.unclaimed names) with
    | error cause => exact .unreadable hread
    | ok entries =>
      dsimp only
      cases hbytes : Segment.write codec entries with
      | error cause => exact .unwritable hread hbytes
      | ok bytes =>
        obtain ⟨folder, hrun, hfolder⟩ := runWriting_replaceSteps h htemporary bytes (store.unclaimed names)
        dsimp only
        rw [hrun]
        have hcount' : (store.unclaimed names).length = count + 2 := by omega
        rw [hcount']
        exact .merged hcount' hread hbytes hfolder

inductive Taken (f : MergeFunction σ) (codec : EntryCodec κ σ) (store : FileStore) (names : List String) :
    Except StoreError (List (Entry κ σ) × SegmentClaim) × FileStore → Prop
  | unreadable {cause : StoreError} (hread : store.readMerged f codec names = .error cause) :
    Taken f codec store names (.error cause, store)
  | opened {entries : List (Entry κ σ)} (hread : store.readMerged f codec names = .ok entries) :
    Taken f codec store names
      (.ok (entries, ⟨store.opening, names⟩), { store with claims := names.foldl claim store.claims })

variable (f codec) in
theorem take_taken {names : List String} (hnames : store.segments = .ok names) :
    Taken f codec store names (store.take f codec) := by
  unfold take
  rw [hnames]
  dsimp only
  cases hread : store.readMerged f codec names with
  | error cause => exact .unreadable hread
  | ok entries => exact .opened hread

theorem take_of_contents {entries : List (Entry κ σ)} (h : store.contents f codec = .ok entries) :
    ∃ claimed, (store.take f codec).1 = .ok (entries, claimed) := by
  unfold contents at h
  unfold take
  cases hnames : store.segments with
  | error cause =>
    rw [hnames] at h
    contradiction
  | ok names =>
    rw [hnames] at h
    have hread : store.readMerged f codec names = .ok entries := h
    dsimp only
    rw [hread]
    exact ⟨_, rfl⟩

omit [Ord κ] in
theorem commit_eq (h : store.folder.HasFiles content) (claimed : SegmentClaim) :
    ∃ folder, store.commit claimed = (.ok (), { store with folder }.release claimed) ∧
      folder.HasFiles fun path => if path ∈ claimed.segments then none else content path := by
  obtain ⟨folder, hrun, hfolder⟩ := h.run_discards claimed.segments
  refine ⟨folder, ?_, hfolder⟩
  rw [commit, hrun]
  rfl

theorem openFolder_eq {folder made : Folder} (hcreate : folder.create = .ok made) (h : made.HasFiles content)
    (hfinished : ∀ path, (content path).isSome = true → Folder.extension? path ≠ some "tmp")
    (path : String) (opening clock : Nat) (salt : UInt32) :
    openFolder path opening clock salt folder = (.ok ⟨path, made, opening, ∅, 0, clock, salt⟩, made) := by
  obtain ⟨names, hnames, -, hmem⟩ := h.mem_withExtension "tmp"
  have hnone : names = [] := by
    refine List.eq_nil_iff_forall_not_mem.mpr fun path hpath => ?_
    obtain ⟨hsome, -, hextension⟩ := (hmem path).mp hpath
    exact hfinished path hsome hextension
  simp only [openFolder, hcreate, hnames, hnone, List.map_nil, Folder.run]

theorem reopen_eq (h : store.folder.HasFiles content)
    (hfinished : ∀ path, (content path).isSome = true → Folder.extension? path ≠ some "tmp") :
    store.reopen = (.ok (), { store with opening := store.opening + 1, claims := ∅, nextId := 0 }) := by
  rw [reopen, openFolder_eq h.create h hfinished]

section Segments

omit [Ord κ]

theorem segments_eq (h : store.folder.HasFiles content) :
    ∃ names, store.segments = .ok names ∧ names.Pairwise (fun a b => compare a b = .lt) ∧
      ∀ path, path ∈ names ↔
        (content path).isSome = true ∧ Folder.isName path = true ∧ Folder.extension? path = some "seg" := by
  obtain ⟨names, hnames, hrest⟩ := h.mem_withExtension "seg"
  refine ⟨names, ?_, hrest⟩
  rw [segments, hnames]
  rfl

theorem readSegment_eq {name : String} {bytes : Bytes} {entries : List (Entry κ σ)}
    (hname : store.folder.read name = .ok bytes) (hread : Segment.read codec bytes = .ok entries) :
    store.readSegment codec name = .ok entries := by
  rw [readSegment, hname]
  dsimp only
  rw [hread]

theorem readSegments_eq {ι : Type} {indices : List ι} {name : ι → String} {entries : ι → List (Entry κ σ)}
    (h : ∀ index ∈ indices, store.readSegment codec (name index) = .ok (entries index)) :
    store.readSegments codec (indices.map name) = .ok (indices.map entries) := by
  induction indices with
  | nil => rfl
  | cons index rest ih =>
    obtain ⟨hfirst, hrest⟩ := List.forall_mem_cons.mp h
    rw [List.map_cons, readSegments, hfirst, ih hrest]
    rfl

end Segments

section Unclaimed

variable {other : Folder} {content' : String → Option Bytes}

end Unclaimed

section Claims

omit [Ord κ]

/-- What the claims have for a segment that some number of open takes read. -/
def counted (takes : Nat) : Option Nat := if takes = 0 then none else some takes

variable {claims : Std.TreeMap String Nat} {name file : String} {takes : Nat}

private theorem counted_claim (h : claims[file]? = counted takes) :
    (claim claims name)[file]? = counted (if name = file then takes + 1 else takes) := by
  rw [claim, Std.TreeMap.getElem?_insert]
  by_cases hname : name = file
  · subst hname
    have hcount : claims.getD name 0 = takes := by
      rw [Std.TreeMap.getD_eq_getD_getElem?, h, counted]
      split <;> simp_all
    rw [if_pos Std.ReflOrd.compare_self, if_pos rfl, hcount, counted, if_neg (Nat.succ_ne_zero takes)]
  · rw [if_neg fun heq => hname (Std.LawfulEqOrd.eq_of_compare heq), if_neg hname, h]

private theorem counted_unclaim (h : claims[file]? = counted takes) :
    (unclaim claims name)[file]? = counted (if name = file then takes - 1 else takes) := by
  by_cases hname : name = file
  · subst hname
    rw [if_pos rfl, unclaim, h]
    rcases takes with _ | _ | takes
    · exact h
    · exact Std.TreeMap.getElem?_erase_self
    · exact Std.TreeMap.getElem?_insert_self
  · have hne : compare name file ≠ .eq := fun heq => hname (Std.LawfulEqOrd.eq_of_compare heq)
    rw [if_neg hname, ← h, unclaim]
    split
    next => rfl
    next =>
      split
      next => rw [Std.TreeMap.getElem?_erase, if_neg hne]
      next => rw [Std.TreeMap.getElem?_insert, if_neg hne]

theorem counted_foldl_claim (names : List String) (h : claims[file]? = counted takes) :
    (names.foldl claim claims)[file]? = counted (takes + names.count file) := by
  induction names generalizing claims takes with
  | nil => exact h
  | cons name rest ih =>
    rw [List.foldl_cons, ih (counted_claim h), List.count_cons]
    by_cases hname : name = file
    · rw [if_pos hname, if_pos (beq_iff_eq.mpr hname), Nat.add_right_comm, Nat.add_assoc]
    · rw [if_neg hname, if_neg (mt beq_iff_eq.mp hname), Nat.add_zero]

theorem counted_foldl_unclaim (names : List String) (h : claims[file]? = counted takes) :
    (names.foldl unclaim claims)[file]? = counted (takes - names.count file) := by
  induction names generalizing claims takes with
  | nil => exact h
  | cons name rest ih =>
    rw [List.foldl_cons, ih (counted_unclaim h), List.count_cons]
    by_cases hname : name = file
    · rw [if_pos hname, if_pos (beq_iff_eq.mpr hname), Nat.sub_sub, Nat.add_comm]
    · rw [if_neg hname, if_neg (mt beq_iff_eq.mp hname), Nat.add_zero]

end Claims

end ReplicatedStore.FileStore
