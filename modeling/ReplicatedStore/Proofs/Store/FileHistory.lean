import Mathlib.Data.List.Perm.Basic
import ReplicatedStore.Proofs.Store.File
/-!
# Histories of a store in files

A store in files is followed through uploads, consolidations, takes, and the commits and drops of takes, with
any number of takes open at once, and through further openings of its folder while none is. Beside the store
stand the uploaded entries: those that some segment has, and those that a committed take has read. A
consolidation moves entries between segments, but never those of a segment that an open take has read.
-/

namespace ReplicatedStore

/-- A finished segment, with the uploaded entries that went into it. -/
structure LiveSegment (κ σ : Type) where
  file : String
  parts : List (Entry κ σ × Nat)

/-- A take from a store in files that was neither committed nor dropped. -/
structure OpenFileTake where
  receipt : SegmentClaim
  /-- The segments there were. -/
  read : List String
  /-- The segments written since. -/
  later : List String

/-- A store in files with what led to its state. -/
structure FileHistory (κ σ : Type) where
  store : FileStore
  /-- What was uploaded, with the number of each entry. -/
  uploaded : List (Entry κ σ × Nat)
  live : List (LiveSegment κ σ)
  /-- What was in the segments that committed takes have read. -/
  covered : List (Entry κ σ × Nat)
  takes : List OpenFileTake
  /-- The segments there were when the folder was opened last. -/
  found : List String

namespace FileHistory

variable {κ σ : Type}

def start (store : FileStore) : FileHistory κ σ := ⟨store, [], [], [], [], []⟩

def files (history : FileHistory κ σ) : List String := history.live.map LiveSegment.file

def readers (file : String) (history : FileHistory κ σ) : Nat :=
  history.takes.countP fun take => take.read.contains file

def wrote (kept : List (LiveSegment κ σ)) (parts : List (Entry κ σ × Nat)) (store : FileStore)
    (history : FileHistory κ σ) : FileHistory κ σ :=
  let file := history.store.nextName.file
  { history with
    store
    live := kept ++ [⟨file, parts⟩]
    takes := history.takes.map fun take => { take with later := take.later ++ [file] } }

def appended (arriving : List (Entry κ σ)) (store : FileStore) (history : FileHistory κ σ) : FileHistory κ σ :=
  let parts := arriving.zipIdx history.uploaded.length
  { history.wrote history.live parts store with uploaded := history.uploaded ++ parts }

def isFree (history : FileHistory κ σ) (segment : LiveSegment κ σ) : Bool := history.readers segment.file == 0

/-- The history after the next segment was written for those that no open take has read. -/
def replaced (store : FileStore) (history : FileHistory κ σ) : FileHistory κ σ :=
  history.wrote (history.live.filter fun segment => !history.isFree segment)
    ((history.live.filter history.isFree).flatMap LiveSegment.parts) store

def reopen (history : FileHistory κ σ) : FileHistory κ σ :=
  { history with store := history.store.reopen.2, found := history.files }

def tick (clock : Nat) (salt : UInt32) (history : FileHistory κ σ) : FileHistory κ σ :=
  { history with store := { history.store with clock, salt } }

variable [Ord κ] (f : MergeFunction σ) (codec : EntryCodec κ σ)

def upload (feed : Feed κ σ) (history : FileHistory κ σ) : FileHistory κ σ :=
  match (FileStore.requests f codec).upload feed history.store with
  | (.ok (), store) =>
    match feed.delivered with
    | [] => { history with store }
    | arriving => history.appended arriving store
  | (.error _, store) => { history with store }

def consolidate (history : FileHistory κ σ) : FileHistory κ σ :=
  match history.store.consolidate f codec with
  | (.ok (_ + 1), store) => history.replaced store
  | (_, store) => { history with store }

def take (history : FileHistory κ σ) : FileHistory κ σ :=
  match (FileStore.requests f codec).take history.store with
  | (.ok (_, receipt), store) =>
    { history with store, takes := history.takes ++ [⟨receipt, history.files, []⟩] }
  | (.error _, store) => { history with store }

def commit (position : Nat) (drained : Bool) (history : FileHistory κ σ) : FileHistory κ σ :=
  match history.takes[position]? with
  | none => history
  | some take =>
    let gone (segment : LiveSegment κ σ) : Bool := take.read.contains segment.file
    { history with
      store := ((FileStore.requests f codec).commit take.receipt drained history.store).2
      live := history.live.filter fun segment => !gone segment
      covered := history.covered ++ (history.live.filter gone).flatMap LiveSegment.parts
      takes := history.takes.eraseIdx position }

def drop (position : Nat) (history : FileHistory κ σ) : FileHistory κ σ :=
  match history.takes[position]? with
  | none => history
  | some take =>
    { history with
      store := (FileStore.requests f codec).release take.receipt history.store
      takes := history.takes.eraseIdx position }

def download (horizon : UInt64) (history : FileHistory κ σ) : FileHistory κ σ :=
  { history with store := ((FileStore.requests f codec).download horizon history.store).2 }

/-- The histories of a store that is opened first on a folder without items. Times and salts are arbitrary.
Only the name of a new segment must not be one that was found when the folder was opened again, which time and
salt are there for: nothing was found at the first opening, and within one the numbers differ. -/
inductive Reached : FileHistory κ σ → Prop
  | start {path : String} {opening clock : Nat} {salt : UInt32} {folder after : Folder} {store : FileStore}
    (hempty : folder = .absent ∨ folder = .items ∅)
    (hopen : FileStore.openFolder path opening clock salt folder = (.ok store, after)) :
    Reached (start store)
  | upload {history : FileHistory κ σ} (h : Reached history)
    (hfresh : history.store.nextName.file ∉ history.found) (feed : Feed κ σ) :
    Reached (history.upload f codec feed)
  | consolidate {history : FileHistory κ σ} (h : Reached history)
    (hfresh : history.store.nextName.file ∉ history.found) : Reached (history.consolidate f codec)
  | download {history : FileHistory κ σ} (h : Reached history) (horizon : UInt64) :
    Reached (history.download f codec horizon)
  | take {history : FileHistory κ σ} (h : Reached history) : Reached (history.take f codec)
  | commit {history : FileHistory κ σ} (h : Reached history) (position : Nat) (drained : Bool) :
    Reached (history.commit f codec position drained)
  | drop {history : FileHistory κ σ} (h : Reached history) (position : Nat) :
    Reached (history.drop f codec position)
  | reopen {history : FileHistory κ σ} (h : Reached history) (hclosed : history.takes = []) :
    Reached history.reopen
  | tick {history : FileHistory κ σ} (h : Reached history) (clock : Nat) (salt : UInt32) :
    Reached (history.tick clock salt)

section Invariants

omit [Ord κ]

def Named (history : FileHistory κ σ) (file : String) : Prop :=
  ∃ name : SegmentName, name.file = file ∧ (file ∈ history.found ∨ name.id < history.store.nextId)

/-- What an open take knows: its claim, which is of this opening, and names, which are those of no segment
written since. -/
structure Claims (history : FileHistory κ σ) (take : OpenFileTake) : Prop where
  opening : take.receipt.opening = history.store.opening
  segments : take.receipt.segments.Perm take.read
  nodup : take.read.Nodup
  named : ∀ file ∈ take.read, history.Named file
  later : ∀ file ∈ take.later, file ∉ take.read

structure Holds (history : FileHistory κ σ) (content : String → Option Bytes) : Prop where
  folder : history.store.folder.HasFiles content
  files : ∀ path, (content path).isSome = true ↔ path ∈ history.files

/-- What holds of every history: the folder has the finished segments and nothing else, and each segment is
claimed by the takes that have read it. -/
structure Sound (history : FileHistory κ σ) : Prop where
  folder : ∃ content, history.Holds content
  nodup : history.files.Nodup
  named : ∀ file ∈ history.files, history.Named file
  counted : ∀ file, history.store.claims[file]? = FileStore.counted (history.readers file)
  takes : ∀ take ∈ history.takes, history.Claims take

structure Accounted (history : FileHistory κ σ) : Prop where
  placed : (history.live.flatMap LiveSegment.parts ++ history.covered).Perm history.uploaded
  numbered : history.uploaded.map Prod.snd = List.range history.uploaded.length

variable {history : FileHistory κ σ}

theorem Named.ne_temporary {file : String} (h : history.Named file) (name : SegmentName) :
    name.temporary ≠ file := by
  obtain ⟨other, rfl, -⟩ := h
  exact name.temporary_ne_file other

theorem Named.ne_next {file : String} (h : history.Named file)
    (hfresh : history.store.nextName.file ∉ history.found) : file ≠ history.store.nextName.file := by
  rintro rfl
  obtain ⟨name, hname, hfound | hearlier⟩ := h
  · exact hfresh hfound
  · -- Whatever the times and salts, names with different numbers differ.
    have hsame : name.id = history.store.nextId := SegmentName.id_of_file hname
    omega

theorem Named.is_segment {file : String} (h : history.Named file) :
    Folder.isName file = true ∧ Folder.extension? file = some "seg" := by
  obtain ⟨name, rfl, -⟩ := h
  exact ⟨name.isName_file, name.extension?_file⟩

theorem Named.advanced {file : String} {after : FileHistory κ σ} (h : history.Named file)
    (hfound : after.found = history.found) (hnext : history.store.nextId ≤ after.store.nextId) :
    after.Named file := by
  obtain ⟨name, rfl, hold | hearlier⟩ := h
  · exact ⟨name, rfl, .inl (hfound ▸ hold)⟩
  · exact ⟨name, rfl, .inr (Nat.lt_of_lt_of_le hearlier hnext)⟩

theorem Claims.advanced {take : OpenFileTake} {after : FileHistory κ σ} (h : history.Claims take)
    (hopening : after.store.opening = history.store.opening) (hfound : after.found = history.found)
    (hnext : history.store.nextId ≤ after.store.nextId) : after.Claims take where
  opening := h.opening.trans hopening.symm
  segments := h.segments
  nodup := h.nodup
  named := fun file hmem => (h.named file hmem).advanced hfound hnext
  later := h.later

@[simp] theorem readers_wrote (kept : List (LiveSegment κ σ)) (parts : List (Entry κ σ × Nat))
    (store : FileStore) (file : String) :
    (history.wrote kept parts store).readers file = history.readers file := by
  simp [readers, wrote, List.countP_map, Function.comp_def]

theorem files_filter (live : List (LiveSegment κ σ)) (keep : String → Bool) :
    (live.filter fun segment => keep segment.file).map LiveSegment.file =
      (live.map LiveSegment.file).filter keep :=
  List.filter_map.symm

theorem parts_replaced (history : FileHistory κ σ) (store : FileStore) :
    ((history.replaced store).live.flatMap LiveSegment.parts).Perm
      (history.live.flatMap LiveSegment.parts) := by
  simp only [replaced, wrote, List.flatMap_append, List.flatMap_singleton]
  rw [← List.flatMap_append]
  exact (List.perm_append_comm.trans (List.filter_append_perm _ _)).flatMap_right _

theorem readers_eraseIdx {position : Nat} {take : OpenFileTake} (h : history.takes[position]? = some take)
    (file : String) : history.readers file =
      (history.takes.eraseIdx position).countP (fun other => other.read.contains file) +
        if take.read.contains file then 1 else 0 := by
  obtain ⟨hposition, rfl⟩ := List.getElem?_eq_some_iff.mp h
  have hperm := List.getElem_cons_eraseIdx_perm hposition
  rw [readers, ← hperm.countP_eq, List.countP_cons]

end Invariants

variable {f codec} {history : FileHistory κ σ}

namespace Accounted

omit [Ord κ] in
private theorem zipIdx_snd {α : Type} (items : List α) (start : Nat) :
    (items.zipIdx start).map Prod.snd = List.range' start items.length := by
  rw [List.zipIdx_eq_zip_range', List.map_snd_zip]
  simp

omit [Ord κ] in
theorem start (store : FileStore) : (start store : FileHistory κ σ).Accounted :=
  ⟨List.Perm.refl _, rfl⟩

theorem upload (h : history.Accounted) (feed : Feed κ σ) : (history.upload f codec feed).Accounted := by
  unfold FileHistory.upload
  split
  next store _ =>
    cases hfeed : feed.delivered with
    | nil => exact ⟨h.placed, h.numbered⟩
    | cons first rest =>
      dsimp only
      constructor
      · simp only [appended, wrote, List.flatMap_append, List.flatMap_singleton]
        refine List.Perm.trans ?_ (h.placed.append_right _)
        rw [List.append_assoc, List.append_assoc]
        exact List.perm_append_comm.append_left _
      · simp only [appended]
        have hnumbers : List.range (history.uploaded.length + (first :: rest).length) =
            List.range history.uploaded.length ++
              List.range' history.uploaded.length (first :: rest).length := by
          rw [List.range_eq_range', List.range_eq_range', ← List.range'_append_1, Nat.zero_add]
        rw [List.map_append, h.numbered, zipIdx_snd, List.length_append, List.length_zipIdx, hnumbers]
  next => exact ⟨h.placed, h.numbered⟩

theorem consolidate (h : history.Accounted) : (history.consolidate f codec).Accounted := by
  unfold FileHistory.consolidate
  split
  next =>
    exact ⟨((history.parts_replaced _).append_right _).trans h.placed, h.numbered⟩
  next => exact ⟨h.placed, h.numbered⟩

theorem take (h : history.Accounted) : (history.take f codec).Accounted := by
  unfold FileHistory.take
  split <;> exact ⟨h.placed, h.numbered⟩

theorem commit (h : history.Accounted) (position : Nat) (drained : Bool) :
    (history.commit f codec position drained).Accounted := by
  unfold FileHistory.commit
  split
  next => exact h
  next take _ =>
    refine ⟨List.Perm.trans ?_ h.placed, h.numbered⟩
    refine (List.perm_append_comm.append_left _).trans ?_
    rw [← List.append_assoc, ← List.flatMap_append]
    refine List.Perm.append_right _ (List.Perm.flatMap_right _ ?_)
    exact List.perm_append_comm.trans (List.filter_append_perm _ _)

theorem drop (h : history.Accounted) (position : Nat) : (history.drop f codec position).Accounted := by
  unfold FileHistory.drop
  split <;> exact ⟨h.placed, h.numbered⟩

end Accounted

namespace Sound

section Shape

omit [Ord κ]

theorem temporary_absent (h : history.Sound) {content : String → Option Bytes}
    (hcontent : history.Holds content) : content history.store.nextName.temporary = none := by
  refine Option.not_isSome_iff_eq_none.mp fun hsome => ?_
  exact (h.named _ ((hcontent.files _).mp hsome)).ne_temporary _ rfl

theorem segments (h : history.Sound) :
    ∃ names, history.store.segments = .ok names ∧ names.Perm history.files := by
  obtain ⟨content, hcontent⟩ := h.folder
  obtain ⟨names, hnames, hordered, hmem⟩ := FileStore.segments_eq hcontent.folder
  have hnodup : names.Nodup := by
    refine hordered.imp ?_
    rintro name other hlt rfl
    rw [Std.ReflOrd.compare_self] at hlt
    contradiction
  refine ⟨names, hnames, (List.perm_ext_iff_of_nodup hnodup h.nodup).mpr fun path => ?_⟩
  rw [hmem, hcontent.files]
  exact and_iff_left_of_imp fun hpath => (h.named path hpath).is_segment

theorem reopen_eq (h : history.Sound) : history.store.reopen =
    (.ok (), { history.store with opening := history.store.opening + 1, claims := ∅, nextId := 0 }) := by
  obtain ⟨content, hcontent⟩ := h.folder
  refine FileStore.reopen_eq hcontent.folder fun path hsome htemporary => ?_
  rw [(h.named path ((hcontent.files path).mp hsome)).is_segment.2] at htemporary
  contradiction

theorem start {path : String} {opening clock : Nat} {salt : UInt32} {folder after : Folder} {store : FileStore}
    (hempty : folder = .absent ∨ folder = .items ∅)
    (hopen : FileStore.openFolder path opening clock salt folder = (.ok store, after)) :
    (start store : FileHistory κ σ).Sound := by
  have hcreate : folder.create = .ok (.items ∅) := by rcases hempty with rfl | rfl <;> rfl
  rw [FileStore.openFolder_eq hcreate Folder.hasFiles_empty (by simp), Prod.mk.injEq, Except.ok.injEq] at hopen
  obtain ⟨rfl, -⟩ := hopen
  refine ⟨⟨_, ⟨Folder.hasFiles_empty, ?_⟩⟩, ?_, ?_, ?_, ?_⟩ <;>
    simp [FileHistory.start, files, readers, FileStore.counted]

theorem reopen (h : history.Sound) (hclosed : history.takes = []) : history.reopen.Sound := by
  obtain ⟨content, hcontent⟩ := h.folder
  rw [FileHistory.reopen, h.reopen_eq]
  refine ⟨⟨content, hcontent.folder, hcontent.files⟩, h.nodup, fun file hmem => ?_, fun file => ?_,
    fun take hmem => ?_⟩
  · obtain ⟨name, hname, -⟩ := h.named file hmem
    exact ⟨name, hname, .inl hmem⟩
  · rw [readers, hclosed]
    exact Std.TreeMap.getElem?_emptyc
  · rw [hclosed] at hmem
    contradiction

theorem tick (h : history.Sound) (clock : Nat) (salt : UInt32) : (history.tick clock salt).Sound := by
  obtain ⟨content, hcontent⟩ := h.folder
  exact ⟨⟨content, hcontent.folder, hcontent.files⟩, h.nodup, h.named, h.counted,
    fun take hmem => (h.takes take hmem).advanced rfl rfl (Nat.le_refl _)⟩

theorem contains_claims (h : history.Sound) (file : String) :
    history.store.claims.contains file = !(history.readers file == 0) := by
  rw [Std.TreeMap.contains_eq_isSome_getElem?, h.counted, FileStore.counted]
  by_cases hnone : history.readers file = 0 <;> simp [hnone]

theorem wrote (h : history.Sound) (hfresh : history.store.nextName.file ∉ history.found)
    {kept : List (LiveSegment κ σ)} (hkept : kept.Sublist history.live) (parts : List (Entry κ σ × Nat))
    {folder : Folder} {content : String → Option Bytes} (hfolder : folder.HasFiles content)
    (hfiles : ∀ path, (content path).isSome = true ↔
      path ∈ kept.map LiveSegment.file ∨ path = history.store.nextName.file) :
    (history.wrote kept parts (history.store.advanced folder)).Sound := by
  have hsub : (kept.map LiveSegment.file).Sublist history.files := hkept.map _
  have hall : (history.wrote kept parts (history.store.advanced folder)).files =
      kept.map LiveSegment.file ++ [history.store.nextName.file] := List.map_append ..
  constructor
  · refine ⟨content, hfolder, fun path => ?_⟩
    rw [hfiles, hall, List.mem_append, List.mem_singleton]
  · rw [hall, List.nodup_append]
    refine ⟨hsub.nodup h.nodup, List.nodup_singleton _, fun file hmem next hnext => ?_⟩
    rw [List.mem_singleton.mp hnext]
    exact (h.named file (hsub.subset hmem)).ne_next hfresh
  · rw [hall]
    intro file hmem
    rcases List.mem_append.mp hmem with hold | hnew
    · exact (h.named file (hsub.subset hold)).advanced rfl (Nat.le_succ _)
    · rw [List.mem_singleton.mp hnew]
      exact ⟨history.store.nextName, rfl, .inr (Nat.lt_succ_self _)⟩
  · intro file
    rw [readers_wrote]
    exact h.counted file
  · intro take hmem
    obtain ⟨earlier, hearlier, rfl⟩ := List.mem_map.mp hmem
    have hclaims := h.takes earlier hearlier
    refine ⟨hclaims.opening, hclaims.segments, hclaims.nodup,
      fun file hread => (hclaims.named file hread).advanced rfl (Nat.le_succ _), fun file hlater hread => ?_⟩
    rcases List.mem_append.mp hlater with hold | hnew
    · exact hclaims.later file hold hread
    · exact (hclaims.named file hread).ne_next hfresh (List.mem_singleton.mp hnew)

theorem counted_release (h : history.Sound) {position : Nat} {take : OpenFileTake}
    (htake : history.takes[position]? = some take) (file : String) :
    (take.receipt.segments.foldl FileStore.unclaim history.store.claims)[file]? = FileStore.counted
      ((history.takes.eraseIdx position).countP fun other => other.read.contains file) := by
  have hclaims := h.takes take (List.mem_of_getElem? htake)
  have hcount : take.receipt.segments.count file = if take.read.contains file then 1 else 0 := by
    rw [hclaims.segments.count_eq, hclaims.nodup.count]
    simp
  rw [FileStore.counted_foldl_unclaim _ (h.counted file), hcount, readers_eraseIdx htake, Nat.add_sub_cancel]

theorem commit_eq (h : history.Sound) {content : String → Option Bytes} (hcontent : history.Holds content)
    {position : Nat} {take : OpenFileTake} (htake : history.takes[position]? = some take) :
    ∃ folder, history.store.commit take.receipt = (.ok (), { history.store with
        folder, claims := take.receipt.segments.foldl FileStore.unclaim history.store.claims }) ∧
      folder.HasFiles fun path => if path ∈ take.read then none else content path := by
  have hclaims := h.takes take (List.mem_of_getElem? htake)
  obtain ⟨folder, hcommit, hfolder⟩ := FileStore.commit_eq hcontent.folder take.receipt
  refine ⟨folder, ?_, ?_⟩
  · rw [hcommit, FileStore.release, if_pos hclaims.opening]
  · simpa only [hclaims.segments.mem_iff] using hfolder

/-- What is not claimed is what no open take has read. -/
theorem unclaimed_perm (h : history.Sound) {names : List String} (hnames : names.Perm history.files) :
    (history.store.unclaimed names).Perm ((history.live.filter history.isFree).map LiveSegment.file) := by
  have hfree : (history.live.filter history.isFree).map LiveSegment.file =
      history.files.filter fun file => history.readers file == 0 :=
    files_filter history.live fun file => history.readers file == 0
  have hunclaimed : history.store.unclaimed names = names.filter fun file => history.readers file == 0 := by
    refine List.filter_congr fun file _ => ?_
    rw [h.contains_claims, Bool.not_not]
  rw [hfree, hunclaimed]
  exact hnames.filter _

theorem mem_unclaimed (h : history.Sound) {names : List String} (hnames : names.Perm history.files)
    {file : String} :
    file ∈ history.store.unclaimed names ↔ file ∈ history.files ∧ history.readers file = 0 := by
  rw [FileStore.unclaimed, List.mem_filter, hnames.mem_iff, h.contains_claims]
  simp

end Shape

inductive UploadOf (f : MergeFunction σ) (codec : EntryCodec κ σ) (history : FileHistory κ σ)
    (content : String → Option Bytes) : Feed κ σ → FileHistory κ σ → Prop
  | nothing {feed : Feed κ σ}
    (hnothing : feed = [] ∨ ∃ cause, (history.store.upload f codec feed).1 = .error cause) :
    UploadOf f codec history content feed history
  | segment {entries : List (Entry κ σ)} {bytes : Bytes} {folder : Folder} (hne : entries ≠ [])
    (hbytes : Segment.write codec (FileStore.arranged f entries) = .ok bytes)
    (hfolder : folder.HasFiles (Function.update content history.store.nextName.file (some bytes))) :
    UploadOf f codec history content (.ofEntries entries)
      (history.appended entries (history.store.advanced folder))

variable (f codec) in
theorem uploadOf (h : history.Sound) {content : String → Option Bytes} (hcontent : history.Holds content)
    (feed : Feed κ σ) : UploadOf f codec history content feed (history.upload f codec feed) := by
  have hupload := FileStore.upload_uploaded f codec hcontent.folder
    (h.temporary_absent hcontent) feed
  unfold FileHistory.upload
  dsimp only [FileStore.requests]
  generalize hanswer : history.store.upload f codec feed = outcome at hupload
  cases hupload with
  | aborted => exact .nothing (.inr ⟨_, by rw [hanswer]⟩)
  | empty => exact .nothing (.inl rfl)
  | unwritable => exact .nothing (.inr ⟨_, by rw [hanswer]⟩)
  | @written entries bytes folder hne hbytes hfolder =>
    dsimp only
    rw [Feed.delivered_ofEntries]
    cases entries with
    | nil => contradiction
    | cons first rest => exact .segment hne hbytes hfolder

theorem upload (h : history.Sound) (hfresh : history.store.nextName.file ∉ history.found) (feed : Feed κ σ) :
    (history.upload f codec feed).Sound := by
  obtain ⟨content, hcontent⟩ := h.folder
  have hupload := h.uploadOf f codec hcontent feed
  generalize history.upload f codec feed = after at hupload
  cases hupload with
  | nothing => exact h
  | @segment entries bytes folder hne hbytes hfolder =>
    have hwrote := h.wrote hfresh (List.Sublist.refl _) (entries.zipIdx history.uploaded.length) hfolder
      fun path => by
        rw [Function.update_apply]
        split
        next hnext => simp [hnext]
        next hother => rw [hcontent.files, or_iff_left hother, files]
    obtain ⟨after, hafter⟩ := hwrote.folder
    exact ⟨⟨after, hafter.folder, hafter.files⟩, hwrote.nodup, hwrote.named, hwrote.counted,
      fun take hmem => (hwrote.takes take hmem).advanced rfl rfl (Nat.le_refl _)⟩

inductive ConsolidateOf (f : MergeFunction σ) (codec : EntryCodec κ σ) (history : FileHistory κ σ)
    (content : String → Option Bytes) (names : List String) : FileHistory κ σ → Prop
  | nothing : ConsolidateOf f codec history content names history
  | merged {entries : List (Entry κ σ)} {bytes : Bytes} {folder : Folder}
    (hsome : history.store.unclaimed names ≠ [])
    (hread : history.store.readMerged f codec (history.store.unclaimed names) = .ok entries)
    (hbytes : Segment.write codec entries = .ok bytes)
    (hfolder : folder.HasFiles fun path => if path ∈ history.store.unclaimed names then none
      else Function.update content history.store.nextName.file (some bytes) path) :
    ConsolidateOf f codec history content names (history.replaced (history.store.advanced folder))

variable (f codec) in
theorem consolidateOf (h : history.Sound) {content : String → Option Bytes} (hcontent : history.Holds content)
    {names : List String} (hnames : history.store.segments = .ok names) :
    ConsolidateOf f codec history content names (history.consolidate f codec) := by
  have hconsolidate := FileStore.consolidate_consolidated f codec hcontent.folder
    (h.temporary_absent hcontent) hnames
  unfold FileHistory.consolidate
  generalize history.store.consolidate f codec = outcome at hconsolidate
  cases hconsolidate with
  | idle => exact .nothing
  | unreadable => exact .nothing
  | unwritable => exact .nothing
  | merged hcount hread hbytes hfolder =>
    refine .merged (fun hnone => ?_) hread hbytes hfolder
    rw [hnone] at hcount
    contradiction

theorem consolidate (h : history.Sound) (hfresh : history.store.nextName.file ∉ history.found) :
    (history.consolidate f codec).Sound := by
  obtain ⟨content, hcontent⟩ := h.folder
  obtain ⟨names, hnames, hperm⟩ := h.segments
  have hconsolidate := h.consolidateOf f codec hcontent hnames
  generalize history.consolidate f codec = after at hconsolidate
  cases hconsolidate with
  | nothing => exact h
  | merged _ hread hbytes hfolder =>
    refine h.wrote hfresh List.filter_sublist _ hfolder fun path => ?_
    have hkept : path ∈ (history.live.filter fun segment => !history.isFree segment).map LiveSegment.file ↔
        path ∈ history.files ∧ history.readers path ≠ 0 := by
      simp only [isFree]
      rw [files_filter history.live fun file => !(history.readers file == 0), List.mem_filter, ← files]
      simp
    rw [hkept]
    split
    next hfree =>
      obtain ⟨hmem, hnone⟩ := (h.mem_unclaimed hperm).mp hfree
      simp [hnone, (h.named path hmem).ne_next hfresh]
    next hclaimed =>
      rw [h.mem_unclaimed hperm, not_and] at hclaimed
      by_cases hnext : path = history.store.nextName.file
      · simp [hnext]
      · rw [Function.update_of_ne hnext, hcontent.files, or_iff_left hnext]
        exact (and_iff_left_of_imp hclaimed).symm

inductive TakeOf (f : MergeFunction σ) (codec : EntryCodec κ σ) (history : FileHistory κ σ)
    (names : List String) : FileHistory κ σ → Prop
  | unreadable {cause : StoreError} (hread : history.store.readMerged f codec names = .error cause) :
    TakeOf f codec history names history
  | opened {entries : List (Entry κ σ)} (hread : history.store.readMerged f codec names = .ok entries) :
    TakeOf f codec history names { history with
      store := { history.store with claims := names.foldl FileStore.claim history.store.claims }
      takes := history.takes ++ [⟨⟨history.store.opening, names⟩, history.files, []⟩] }

variable (f codec) in
theorem takeOf {names : List String} (hnames : history.store.segments = .ok names) :
    TakeOf f codec history names (history.take f codec) := by
  have htake := FileStore.take_taken f codec hnames
  unfold FileHistory.take
  dsimp only [FileStore.requests]
  generalize history.store.take f codec = outcome at htake
  cases htake with
  | unreadable hread => exact .unreadable hread
  | opened hread => exact .opened hread

theorem take (h : history.Sound) : (history.take f codec).Sound := by
  obtain ⟨content, hcontent⟩ := h.folder
  obtain ⟨names, hnames, hperm⟩ := h.segments
  have htake := takeOf f codec hnames
  generalize history.take f codec = after at htake
  cases htake with
  | unreadable => exact h
  | opened =>
    refine ⟨⟨content, hcontent.folder, hcontent.files⟩, h.nodup,
      fun file hmem => (h.named file hmem).advanced rfl (Nat.le_refl _), fun file => ?_, fun take hmem => ?_⟩
    · show (names.foldl FileStore.claim history.store.claims)[file]? = _
      have hcount : names.count file = if history.files.contains file then 1 else 0 := by
        rw [hperm.count_eq, h.nodup.count]
        simp
      rw [FileStore.counted_foldl_claim _ (h.counted file), hcount]
      rw [readers, readers, List.countP_append, List.countP_singleton]
    · rcases List.mem_append.mp hmem with hold | hnew
      · exact (h.takes take hold).advanced rfl rfl (Nat.le_refl _)
      · rw [List.mem_singleton.mp hnew]
        refine ⟨rfl, hperm, h.nodup, fun file hread => (h.named file hread).advanced rfl (Nat.le_refl _), ?_⟩
        simp

theorem commit (h : history.Sound) (position : Nat) (drained : Bool) :
    (history.commit f codec position drained).Sound := by
  unfold FileHistory.commit
  split
  next => exact h
  next take htake =>
    obtain ⟨content, hcontent⟩ := h.folder
    obtain ⟨folder, hcommit, hfolder⟩ := h.commit_eq hcontent htake
    dsimp only [FileStore.requests]
    rw [hcommit]
    have hkept : ((history.live.filter fun segment => !take.read.contains segment.file).map LiveSegment.file) =
        history.files.filter fun file => !take.read.contains file :=
      files_filter history.live fun file => !take.read.contains file
    have hsub := hkept ▸ List.filter_sublist
    refine ⟨⟨_, hfolder, fun path => ?_⟩, hsub.nodup h.nodup,
      fun file hfile => (h.named file (hsub.subset hfile)).advanced rfl (Nat.le_refl _),
      h.counted_release htake, fun other hother => ?_⟩
    · rw [files, hkept, List.mem_filter, ← hcontent.files]
      split
      next hgone => simp [hgone]
      next hstays => simp [hstays]
    · exact (h.takes other (List.mem_of_mem_eraseIdx hother)).advanced rfl rfl (Nat.le_refl _)

theorem drop (h : history.Sound) (position : Nat) : (history.drop f codec position).Sound := by
  unfold FileHistory.drop
  split
  next => exact h
  next take htake =>
    have hclaims := h.takes take (List.mem_of_getElem? htake)
    obtain ⟨content, hcontent⟩ := h.folder
    dsimp only [FileStore.requests]
    rw [FileStore.release, if_pos hclaims.opening]
    refine ⟨⟨content, hcontent.folder, hcontent.files⟩, h.nodup,
      fun file hmem => (h.named file hmem).advanced rfl (Nat.le_refl _), h.counted_release htake,
      fun other hother => ?_⟩
    exact (h.takes other (List.mem_of_mem_eraseIdx hother)).advanced rfl rfl (Nat.le_refl _)

end Sound

theorem Reached.sound (h : Reached f codec history) : history.Sound := by
  induction h with
  | start hempty hopen => exact .start hempty hopen
  | upload _ hfresh feed ih => exact ih.upload hfresh feed
  | consolidate _ hfresh ih => exact ih.consolidate hfresh
  | download _ horizon ih => exact ih
  | take _ ih => exact ih.take
  | commit _ position drained ih => exact ih.commit position drained
  | drop _ position ih => exact ih.drop position
  | reopen _ hclosed ih => exact ih.reopen hclosed
  | tick _ clock salt ih => exact ih.tick clock salt

theorem Reached.accounted (h : Reached f codec history) : history.Accounted := by
  induction h with
  | start => exact .start _
  | upload _ _ feed ih => exact ih.upload feed
  | consolidate _ _ ih => exact ih.consolidate
  | download => assumption
  | take _ ih => exact ih.take
  | commit _ position drained ih => exact ih.commit position drained
  | drop _ position ih => exact ih.drop position
  | reopen _ _ ih => exact ⟨ih.placed, ih.numbered⟩
  | tick _ _ _ ih => exact ⟨ih.placed, ih.numbered⟩

end FileHistory

end ReplicatedStore
