import ReplicatedStore.Proofs.Store.Contents
import ReplicatedStore.Proofs.Store.MapHistory
/-!
# The store in files does what the store in memory does

A store in files and a store in memory that are given the same uploads, takes and commits answer alike, if no
take is committed that has missed an upload: whatever was consolidated, and however often the folder was
opened again, both have the same entries in the same order.
-/

namespace ReplicatedStore

variable {κ σ : Type} [Ord κ]

/-- Histories of a store in files and of a store in memory under the same requests. Consolidations and
further openings are no concern of the store in memory. A take that is committed has not missed an upload. -/
inductive Paired (f : MergeFunction σ) (codec : EntryCodec κ σ) (P : Entry κ σ → Prop) :
    FileHistory κ σ → MapHistory κ σ → Prop
  | start {path : String} {opening clock : Nat} {salt : UInt32} {folder after : Folder} {store : FileStore}
    (hempty : folder = .absent ∨ folder = .items ∅)
    (hopen : FileStore.openFolder path opening clock salt folder = (.ok store, after)) :
    Paired f codec P (.start store) .start
  | upload {file : FileHistory κ σ} {map : MapHistory κ σ} (h : Paired f codec P file map)
    (hfresh : file.store.nextName.file ∉ file.found) {feed : Feed κ σ}
    (hfeed : ∀ entry ∈ feed.delivered, P entry) :
    Paired f codec P (file.upload f codec feed) (map.upload f feed)
  | consolidate {file : FileHistory κ σ} {map : MapHistory κ σ} (h : Paired f codec P file map)
    (hfresh : file.store.nextName.file ∉ file.found) : Paired f codec P (file.consolidate f codec) map
  | reopen {file : FileHistory κ σ} {map : MapHistory κ σ} (h : Paired f codec P file map)
    (hclosed : file.takes = []) : Paired f codec P file.reopen map
  | take {file : FileHistory κ σ} {map : MapHistory κ σ} (h : Paired f codec P file map) :
    Paired f codec P (file.take f codec) (map.take f)
  | drop {file : FileHistory κ σ} {map : MapHistory κ σ} (h : Paired f codec P file map) (position : Nat) :
    Paired f codec P (file.drop f codec position) (map.drop f position)
  | commit {file : FileHistory κ σ} {map : MapHistory κ σ} (h : Paired f codec P file map) {position : Nat}
    (hquiet : ∀ take, map.takes[position]? = some take → take.since = []) (drained : Bool) :
    Paired f codec P (file.commit f codec position drained) (map.commit f position drained)
  | tick {file : FileHistory κ σ} {map : MapHistory κ σ} (h : Paired f codec P file map) (clock : Nat)
    (salt : UInt32) : Paired f codec P (file.tick clock salt) map

/-- A take from the store in files, beside the one from the store in memory: if this one has missed no write,
the other has read all segments. -/
def ReadsAll (file : FileHistory κ σ) (fileTake : OpenFileTake) (mapTake : OpenTake κ σ) : Prop :=
  mapTake.since = [] → file.files ⊆ fileTake.read

/-- What holds of paired histories: the segments have what the store in memory was made of. -/
structure Matched (f : MergeFunction σ) (codec : EntryCodec κ σ) (P : Entry κ σ → Prop)
    (file : FileHistory κ σ) (map : MapHistory κ σ) : Prop where
  sound : file.Sound
  accounted : file.Accounted
  legible : file.Legible f codec
  uploaded : ∀ item ∈ file.uploaded, P item.1
  mapSound : map.Sound f
  live : ((file.live.flatMap LiveSegment.parts).map Prod.fst).Perm map.live
  takes : List.Forall₂ (ReadsAll file) file.takes map.takes

section Aligned

variable {α β : Type} {R : α → β → Prop} {first : List α} {second : List β}

private theorem aligned_getElem? (h : List.Forall₂ R first second) (position : Nat) :
    (first[position]? = none ∧ second[position]? = none) ∨
      ∃ a b, first[position]? = some a ∧ second[position]? = some b ∧ R a b := by
  induction h generalizing position with
  | nil => exact .inl ⟨rfl, rfl⟩
  | @cons a b _ _ hab _ ih =>
    cases position with
    | zero => exact .inr ⟨a, b, rfl, rfl, hab⟩
    | succ position => simpa using ih position

private theorem aligned_eraseIdx (h : List.Forall₂ R first second) (position : Nat) :
    List.Forall₂ R (first.eraseIdx position) (second.eraseIdx position) := by
  rw [List.eraseIdx_eq_take_drop_succ, List.eraseIdx_eq_take_drop_succ]
  exact List.rel_append (List.forall₂_take _ h) (List.forall₂_drop _ h)

end Aligned

namespace Matched

variable {f : MergeFunction σ} {codec : EntryCodec κ σ} {P : Entry κ σ → Prop} {file : FileHistory κ σ}
  {map : MapHistory κ σ}

theorem drop (h : Matched f codec P file map) (position : Nat) :
    Matched f codec P (file.drop f codec position) (map.drop f position) := by
  obtain ⟨hlive, htakes⟩ :
      (((file.drop f codec position).live.flatMap LiveSegment.parts).map Prod.fst).Perm
        (map.drop f position).live ∧
      List.Forall₂ (ReadsAll (file.drop f codec position)) (file.drop f codec position).takes
        (map.drop f position).takes := by
    unfold FileHistory.drop MapHistory.drop
    rcases aligned_getElem? h.takes position with ⟨hfile, hmap⟩ | ⟨fileTake, mapTake, hfile, hmap, -⟩
    · rw [hfile, hmap]
      exact ⟨h.live, h.takes⟩
    · rw [hfile, hmap]
      exact ⟨h.live, aligned_eraseIdx h.takes position⟩
  exact ⟨h.sound.drop position, h.accounted.drop position, h.legible.drop h.sound position,
    by simpa using h.uploaded, h.mapSound.drop position, hlive, htakes⟩

theorem reopen (h : Matched f codec P file map) (hclosed : file.takes = []) :
    Matched f codec P file.reopen map :=
  ⟨h.sound.reopen hclosed, ⟨h.accounted.placed, h.accounted.numbered⟩, h.legible.reopen h.sound, h.uploaded,
    h.mapSound, h.live, h.takes⟩

theorem tick (h : Matched f codec P file map) (clock : Nat) (salt : UInt32) :
    Matched f codec P (file.tick clock salt) map :=
  ⟨h.sound.tick clock salt, ⟨h.accounted.placed, h.accounted.numbered⟩, h.legible.tick clock salt, h.uploaded,
    h.mapSound, h.live, h.takes⟩

variable [Std.TransOrd κ]

theorem start {path : String} {opening clock : Nat} {salt : UInt32} {folder after : Folder} {store : FileStore}
    (hempty : folder = .absent ∨ folder = .items ∅)
    (hopen : FileStore.openFolder path opening clock salt folder = (.ok store, after)) :
    Matched f codec P (.start store) .start where
  sound := .start hempty hopen
  accounted := .start store
  legible := fun segment hmem => by contradiction
  uploaded := fun item hmem => by contradiction
  mapSound := .start
  live := List.Perm.refl _
  takes := .nil

variable [Std.LawfulEqOrd κ]

theorem upload (h : Matched f codec P file map) (hcodec : codec.Faithful f P)
    (hfresh : file.store.nextName.file ∉ file.found) {feed : Feed κ σ}
    (hfeed : ∀ entry ∈ feed.delivered, P entry) :
    Matched f codec P (file.upload f codec feed) (map.upload f feed) := by
  obtain ⟨content, hcontent⟩ := h.sound.folder
  have hupload := h.sound.uploadOf f codec hcontent feed
  obtain ⟨huploaded, hlive, htakes⟩ : (∀ item ∈ (file.upload f codec feed).uploaded, P item.1) ∧
      (((file.upload f codec feed).live.flatMap LiveSegment.parts).map Prod.fst).Perm (map.upload f feed).live ∧
      List.Forall₂ (ReadsAll (file.upload f codec feed)) (file.upload f codec feed).takes
        (map.upload f feed).takes := by
    generalize file.upload f codec feed = after at hupload
    cases hupload with
    | nothing hnothing =>
      have hsame : map.upload f feed = map := by
        rcases hnothing with rfl | ⟨cause, hcause⟩
        · exact MapHistory.upload_nil
        · have htemporary := h.sound.temporary_absent hcontent
          rw [FileStore.answer_upload hcodec hcontent.folder htemporary hfeed] at hcause
          cases hcollect : feed.collect with
          | error cause => exact MapHistory.upload_of_error hcollect
          | ok entries =>
            rw [hcollect] at hcause
            contradiction
      rw [hsame]
      exact ⟨h.uploaded, h.live, h.takes⟩
    | @segment entries bytes folder hne hbytes hfolder =>
      rw [Feed.delivered_ofEntries] at hfeed
      rw [MapHistory.upload_ofEntries]
      refine ⟨fun item hmem => ?_, ?_, ?_⟩
      · rcases List.mem_append.mp hmem with hold | hnew
        · exact h.uploaded item hold
        · refine hfeed item.1 ?_
          rw [← List.zipIdx_map_fst file.uploaded.length entries]
          exact List.mem_map_of_mem hnew
      · simp only [FileHistory.appended, FileHistory.wrote, List.flatMap_append, List.flatMap_singleton,
          List.map_append, List.zipIdx_map_fst]
        exact h.live.append_right entries
      · -- The open takes have missed this upload.
        simp only [FileHistory.appended, FileHistory.wrote, MapHistory.wrote]
        rw [List.forall₂_map_left_iff, List.forall₂_map_right_iff]
        exact h.takes.imp fun _ _ _ hquiet => absurd (List.append_eq_nil_iff.mp hquiet).2 hne
  exact ⟨h.sound.upload hfresh feed, h.accounted.upload feed,
    h.legible.upload h.sound hfresh hcodec feed huploaded, huploaded, h.mapSound.upload feed, hlive, htakes⟩

theorem consolidate (h : Matched f codec P file map) (hcodec : codec.Faithful f P)
    (hfresh : file.store.nextName.file ∉ file.found) : Matched f codec P (file.consolidate f codec) map := by
  obtain ⟨content, hcontent⟩ := h.sound.folder
  obtain ⟨names, hnames, hperm⟩ := h.sound.segments
  have hconsolidate := h.sound.consolidateOf f codec hcontent hnames
  obtain ⟨hlive, htakes⟩ :
      (((file.consolidate f codec).live.flatMap LiveSegment.parts).map Prod.fst).Perm map.live ∧
      List.Forall₂ (ReadsAll (file.consolidate f codec)) (file.consolidate f codec).takes map.takes := by
    generalize file.consolidate f codec = after at hconsolidate
    cases hconsolidate with
    | nothing => exact ⟨h.live, h.takes⟩
    | @merged entries bytes folder hsome =>
      refine ⟨((file.parts_replaced _).map Prod.fst).trans h.live, ?_⟩
      -- Some segment is not claimed, so every open take has missed an upload.
      obtain ⟨free, hfree⟩ := List.exists_mem_of_ne_nil _ hsome
      obtain ⟨hmem, hnone⟩ := (h.sound.mem_unclaimed hperm).mp hfree
      have hmissed : ∀ take ∈ file.takes, free ∉ take.read := by
        simpa [FileHistory.readers, List.countP_eq_zero] using hnone
      simp only [FileHistory.replaced, FileHistory.wrote]
      rw [List.forall₂_map_left_iff]
      refine ((List.forall₂_and_left _ _).mpr ⟨hmissed, h.takes⟩).imp fun _ _ hboth hquiet => ?_
      exact absurd (hboth.2 hquiet hmem) hboth.1
  exact ⟨h.sound.consolidate hfresh, h.accounted.consolidate,
    h.legible.consolidate h.sound h.accounted hfresh hcodec h.uploaded, by simpa using h.uploaded, h.mapSound,
    hlive, htakes⟩

theorem take (h : Matched f codec P file map) : Matched f codec P (file.take f codec) (map.take f) := by
  obtain ⟨names, hnames, hperm⟩ := h.sound.segments
  have htake := FileHistory.Sound.takeOf f codec hnames
  obtain ⟨hlive, htakes⟩ :
      (((file.take f codec).live.flatMap LiveSegment.parts).map Prod.fst).Perm map.live ∧
      List.Forall₂ (ReadsAll (file.take f codec)) (file.take f codec).takes (map.take f).takes := by
    generalize file.take f codec = after at htake
    cases htake with
    | unreadable hread =>
      obtain ⟨entries, hentries, -⟩ := LiveSegment.Legible.readMerged h.legible hperm
      rw [hread] at hentries
      contradiction
    | opened =>
      exact ⟨h.live, List.rel_append h.takes (.cons (fun _ => List.Subset.refl _) .nil)⟩
  exact ⟨h.sound.take, h.accounted.take, h.legible.take h.sound, by simpa using h.uploaded, h.mapSound.take,
    hlive, htakes⟩

theorem commit (h : Matched f codec P file map) {position : Nat}
    (hquiet : ∀ take, map.takes[position]? = some take → take.since = []) (drained : Bool) :
    Matched f codec P (file.commit f codec position drained) (map.commit f position drained) := by
  obtain ⟨hlive, htakes⟩ :
      (((file.commit f codec position drained).live.flatMap LiveSegment.parts).map Prod.fst).Perm
        (map.commit f position drained).live ∧
      List.Forall₂ (ReadsAll (file.commit f codec position drained))
        (file.commit f codec position drained).takes (map.commit f position drained).takes := by
    unfold FileHistory.commit MapHistory.commit
    rcases aligned_getElem? h.takes position with ⟨hfile, hmap⟩ | ⟨fileTake, mapTake, hfile, hmap, hreads⟩
    · rw [hfile, hmap]
      exact ⟨h.live, h.takes⟩
    · rw [hfile, hmap]
      have hmissed : mapTake.since = [] := hquiet mapTake hmap
      have hfileLive : (file.live.filter fun segment => !fileTake.read.contains segment.file) = [] := by
        refine List.filter_eq_nil_iff.mpr fun segment hmem => ?_
        have hread := hreads hmissed (List.mem_map_of_mem hmem)
        simpa using hread
      have hmapLive : (map.live.filter fun entry => !mapTake.covers entry.key) = [] := by
        refine List.filter_eq_nil_iff.mpr fun entry hmem => ?_
        rw [h.mapSound.covers_live (List.mem_of_getElem? hmap) hmissed hmem]
        decide
      dsimp only
      rw [hfileLive, hmapLive]
      refine ⟨List.Perm.refl _, (aligned_eraseIdx h.takes position).imp fun _ _ _ _ => ?_⟩
      simp [FileHistory.files]
  exact ⟨h.sound.commit position drained, h.accounted.commit position drained,
    h.legible.commit h.sound position drained, by simpa using h.uploaded, h.mapSound.commit position drained,
    hlive, htakes⟩

/-- What is read of all segments is what the store in memory has. -/
theorem contents_eq (h : Matched f codec P file map) (hf : f.Commutative) :
    file.store.contents f codec = .ok map.store.entries := by
  obtain ⟨entries, hentries, hgathers⟩ := h.legible.contents h.sound
  have hjoins : Entry.Joins f map.live entries := (hgathers.joins hf).perm hf h.live
  rw [hentries, hjoins.unique h.mapSound.joins]

end Matched

namespace Paired

variable {f : MergeFunction σ} {codec : EntryCodec κ σ} {P : Entry κ σ → Prop} {file : FileHistory κ σ}
  {map : MapHistory κ σ} [Std.TransOrd κ] [Std.LawfulEqOrd κ]

theorem matched (h : Paired f codec P file map) (hcodec : codec.Faithful f P) : Matched f codec P file map := by
  induction h with
  | start hempty hopen => exact .start hempty hopen
  | upload _ hfresh hfeed ih => exact ih.upload hcodec hfresh hfeed
  | consolidate _ hfresh ih => exact ih.consolidate hcodec hfresh
  | reopen _ hclosed ih => exact ih.reopen hclosed
  | take _ ih => exact ih.take
  | drop _ position ih => exact ih.drop position
  | commit _ hquiet drained ih => exact ih.commit hquiet drained
  | tick _ clock salt ih => exact ih.tick clock salt

/-- With a merge function that joins states in any order and a codec that restores what is uploaded, the
stores answer alike at each point: an upload is refused by both or by neither, and a refused one changes
nothing; downloads from any horizon and takes yield the same entries, in key order. -/
theorem same_answers (hf : f.Commutative) (hcodec : codec.Faithful f P) (h : Paired f codec P file map) :
    (∀ feed : Feed κ σ, (∀ entry ∈ feed.delivered, P entry) →
      let inFiles := (FileStore.requests f codec).upload feed file.store
      let inMemory := (MapStore.requests f).upload feed map.store
      inFiles.1 = inMemory.1 ∧
        ∀ cause, inFiles.1 = .error cause → inFiles.2 = file.store ∧ inMemory.2 = map.store) ∧
    (∀ horizon, ∃ entries, Entry.Ascending entries ∧
      ((FileStore.requests f codec).download horizon file.store).1 = .ok (.ofEntries entries) ∧
      ((MapStore.requests f).download horizon map.store).1 = .ok (.ofEntries entries)) ∧
    ∃ entries, Entry.Ascending entries ∧
      (∃ receipt, ((FileStore.requests f codec).take file.store).1 = .ok (.ofEntries entries, receipt)) ∧
      ∃ receipt, ((MapStore.requests f).take map.store).1 = .ok (.ofEntries entries, receipt) := by
  have hmatched := h.matched hcodec
  have hcontents := hmatched.contents_eq hf
  have hascending := hmatched.mapSound.joins.ascending
  refine ⟨fun feed hfeed => ?_, fun horizon => ?_, map.store.entries, hascending, ?_, ?_⟩
  · obtain ⟨content, hcontent⟩ := hmatched.sound.folder
    have hanswer := FileStore.answer_upload hcodec hcontent.folder
      (hmatched.sound.temporary_absent hcontent) hfeed
    simp only [FileStore.requests, MapStore.requests, MapStore.upload]
    rw [hanswer]
    cases hcollect : feed.collect with
    | ok entries => exact ⟨rfl, fun cause hcause => by contradiction⟩
    | error cause =>
      refine ⟨rfl, fun _ _ => ⟨?_, rfl⟩⟩
      rw [FileStore.upload, hcollect]
  · refine ⟨_, hascending.filterMap_extract f horizon, ?_, rfl⟩
    show (file.store.since f codec horizon).map _ = _
    rw [FileStore.since, hcontents]
    rfl
  · obtain ⟨claimed, htake⟩ := FileStore.take_of_contents hcontents
    refine ⟨claimed, ?_⟩
    show (file.store.take f codec).1.map _ = _
    rw [htake]
    rfl
  · exact ⟨_, rfl⟩

/-- Segments are consolidated, the folder is opened again, and another upload follows. -/
theorem same_answers_reopened :
    let f : MergeFunction UInt64 := .ignoringTime (· + ·)
    let codec := EntryCodec.archived UInt64 UInt64
    let first : Feed UInt64 UInt64 := .ofEntries [⟨1, 0, 5⟩]
    let second : Feed UInt64 UInt64 := .ofEntries [⟨1, 0, 3⟩]
    let third : Feed UInt64 UInt64 := .ofEntries [⟨2, 0, 1⟩]
    let opened : FileHistory UInt64 UInt64 := .start ⟨"store", .items ∅, 0, ∅, 0, 0, 0⟩
    let reopened := (((opened.upload f codec first).upload f codec second).consolidate f codec).reopen
    let file := reopened.upload f codec third
    let map := ((MapHistory.start.upload f first).upload f second).upload f third
    Paired f codec (fun _ => True) file map ∧
      ((FileStore.requests f codec).download 0 file.store).1 = .ok (.ofEntries [⟨1, 0, 8⟩, ⟨2, 0, 1⟩]) := by
  intro f codec first second third opened reopened file map
  have hpaired : Paired f codec (fun _ => True) file map := by
    have hall : ∀ feed : Feed UInt64 UInt64, ∀ entry ∈ feed.delivered, True := fun _ _ _ => trivial
    refine .upload (.reopen (.consolidate (.upload (.upload (.start (.inl rfl) rfl) ?_ (hall _)) ?_
      (hall _)) ?_) ?closed) ?fresh (hall _)
    case closed => decide +kernel
    case fresh => decide +kernel
    all_goals simp [FileHistory.start]
  have hcommutative : f.Commutative := ⟨UInt64.add_assoc, UInt64.add_comm⟩
  obtain ⟨-, hdownload, -⟩ := same_answers hcommutative (EntryCodec.archived_faithful f) hpaired
  obtain ⟨entries, -, hfile, hmap⟩ := hdownload 0
  have hentries : map.store.since f 0 = [⟨1, 0, 8⟩, ⟨2, 0, 1⟩] := by decide +kernel
  have hsame : map.store.since f 0 = entries := Feed.ofEntries_injective (Except.ok.inj hmap)
  refine ⟨hpaired, ?_⟩
  rw [hfile, ← hsame, hentries]

end Paired

end ReplicatedStore
