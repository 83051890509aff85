import Mathlib.Tactic.Choose
import ReplicatedStore.Codec.Archived
import ReplicatedStore.Proofs.Archive.RoundTrip
import ReplicatedStore.Proofs.Store.FileHistory
import ReplicatedStore.Proofs.Store.Runs
/-!
# What the segments hold

If the codec restores what is uploaded, then each segment holds what merging makes of the entries that went
into it, and so does what is read of all of them. With a merge function that joins states in any order, a
download therefore has for each key the join of the entries that no committed take has covered.
-/

namespace ReplicatedStore

variable {κ σ : Type}

/-- Entries with the property are restored from their encodings, and merging keeps the property. -/
structure EntryCodec.Faithful (codec : EntryCodec κ σ) (f : MergeFunction σ) (P : Entry κ σ → Prop) : Prop where
  restores : ∀ entry, P entry → codec.Restores entry
  merge : ∀ a b, P a → P b → P (a.merge f b)

namespace Archive

instance [Archive κ] [Archive σ] [Lawful κ] [Lawful σ] : Lawful (Entry κ σ) :=
  lawful_via (fun e : Entry κ σ => (e.key, e.timestamp, e.state))
    (fun (key, timestamp, state) => ⟨key, timestamp, state⟩) fun _ => rfl

end Archive

namespace EntryCodec

theorem archived_decode [Archive κ] [Archive σ] [Archive.Lawful κ] [Archive.Lawful σ] {entry : Entry κ σ}
    (h : (Archive.encode entry).length < 2147483648) : (archived κ σ).decode (Archive.encode entry) = .ok entry := by
  have hread : Archive.decode (Archive.encode entry) = some entry := Archive.decode_encode h
  simp only [archived, hread]

theorem length_encode_words (entry : Entry UInt64 UInt64) : (Archive.encode entry).length = 24 := by
  simp [Archive.encode, Archive.loose, Archive.fixed, Archive.size, Archive.align, Archive.secondField,
    Archive.pairSize, Archive.pairAlign, Archive.alignUp, Archive.zeros]

theorem archived_undoes : (archived UInt64 UInt64).Undoes := by
  intro entry bytes hencode
  obtain rfl : Archive.encode entry = bytes := Except.ok.inj hencode
  exact archived_decode (by rw [length_encode_words]; decide)

theorem archived_faithful (f : MergeFunction UInt64) :
    (archived UInt64 UInt64).Faithful f fun _ => True := by
  refine ⟨fun entry _ => ⟨_, rfl, archived_decode ?_, ?_⟩, fun _ _ _ _ => trivial⟩
  · rw [length_encode_words]
    decide
  · rw [length_encode_words]
    decide

end EntryCodec

variable [Ord κ]

/-- What merging makes of restorable parts is written to a segment and read back. -/
theorem EntryCodec.Faithful.exists_write {f : MergeFunction σ} {codec : EntryCodec κ σ} {P : Entry κ σ → Prop}
    (h : codec.Faithful f P) {parts entries : List (Entry κ σ)} (hgathers : Entry.Gathers f parts entries)
    (hparts : ∀ part ∈ parts, P part) :
    ∃ bytes, Segment.write codec entries = .ok bytes ∧ Segment.read codec bytes = .ok entries := by
  have hentries := hgathers.preserves h.merge hparts
  exact Segment.exists_write fun entry hmem => h.restores entry (hentries entry hmem)

/-- The segment can be read, and holds what merging makes of its parts. -/
def LiveSegment.Legible (f : MergeFunction σ) (codec : EntryCodec κ σ) (store : FileStore)
    (segment : LiveSegment κ σ) : Prop :=
  ∃ entries, store.readSegment codec segment.file = .ok entries ∧
    Entry.Gathers f (segment.parts.map Prod.fst) entries

namespace LiveSegment.Legible

variable {f : MergeFunction σ} {codec : EntryCodec κ σ} {P : Entry κ σ → Prop} {store after : FileStore}
  {segment : LiveSegment κ σ}

theorem congr (h : segment.Legible f codec store) (hpath : after.path = store.path)
    (hread : after.folder.read segment.file = store.folder.read segment.file) :
    segment.Legible f codec after := by
  obtain ⟨entries, hentries, hgathers⟩ := h
  refine ⟨entries, ?_, hgathers⟩
  rw [← hentries, FileStore.readSegment, FileStore.readSegment, hread, hpath]

theorem written (hcodec : codec.Faithful f P) {entries : List (Entry κ σ)}
    (hgathers : Entry.Gathers f (segment.parts.map Prod.fst) entries)
    (hparts : ∀ part ∈ segment.parts, P part.1) {bytes : Bytes}
    (hbytes : Segment.write codec entries = .ok bytes) (hread : store.folder.read segment.file = .ok bytes) :
    segment.Legible f codec store := by
  obtain ⟨content, hcontent, hrestored⟩ := hcodec.exists_write hgathers (List.forall_mem_map.mpr hparts)
  rw [hbytes, Except.ok.injEq] at hcontent
  exact ⟨entries, FileStore.readSegment_eq hread (hcontent ▸ hrestored), hgathers⟩

/-- Reading some segments yields what merging makes of all their parts. -/
theorem readMerged [Std.TransOrd κ] [Std.LawfulEqOrd κ] {segments : List (LiveSegment κ σ)}
    (h : ∀ segment ∈ segments, segment.Legible f codec store) {names : List String}
    (hnames : names.Perm (segments.map LiveSegment.file)) :
    ∃ entries, store.readMerged f codec names = .ok entries ∧
      Entry.Gathers f ((segments.flatMap LiveSegment.parts).map Prod.fst) entries := by
  obtain ⟨listed, rfl, hlisted⟩ :=
    (congrFun₂ (List.eq_map_comp_perm LiveSegment.file) names segments).mpr hnames
  choose! content hcontent hgathers using h
  have hread : store.readSegments codec (listed.map LiveSegment.file) = .ok (listed.map content) :=
    FileStore.readSegments_eq fun segment hmem => hcontent segment (hlisted.mem_iff.mp hmem)
  refine ⟨coalesce f (mergeRuns (listed.map content)), ?_, ?_⟩
  · rw [FileStore.readMerged, hread]
    rfl
  · rw [List.map_flatMap]
    have hmerged := gathers_merge fun segment hmem => hgathers segment (hlisted.mem_iff.mp hmem)
    exact hmerged.perm (hlisted.flatMap_right _)

end LiveSegment.Legible

theorem FileStore.answer_upload [Std.TransOrd κ] [Std.LawfulEqOrd κ] {f : MergeFunction σ}
    {codec : EntryCodec κ σ} {P : Entry κ σ → Prop} {store : FileStore} (hcodec : codec.Faithful f P)
    {content : String → Option Bytes} (h : store.folder.HasFiles content)
    (htemporary : content store.nextName.temporary = none) {feed : Feed κ σ}
    (hfeed : ∀ entry ∈ feed.delivered, P entry) :
    (store.upload f codec feed).1 = feed.collect.map fun _ => () := by
  have hupload := upload_uploaded f codec h htemporary feed
  generalize store.upload f codec feed = outcome at hupload
  cases hupload with
  | aborted hcollect =>
    rw [hcollect]
    rfl
  | empty => rfl
  | @unwritable entries cause hbytes =>
    rw [Feed.delivered_ofEntries] at hfeed
    obtain ⟨bytes, hwritten, -⟩ := hcodec.exists_write (gathers_arranged entries) hfeed
    rw [hbytes] at hwritten
    contradiction
  | written =>
    rw [Feed.collect_ofEntries]
    rfl

namespace FileHistory

def Legible (f : MergeFunction σ) (codec : EntryCodec κ σ) (history : FileHistory κ σ) : Prop :=
  ∀ segment ∈ history.live, segment.Legible f codec history.store

variable {f : MergeFunction σ} {codec : EntryCodec κ σ} {P : Entry κ σ → Prop} {history : FileHistory κ σ}

namespace Legible

theorem wrote (h : history.Legible f codec) {content : String → Option Bytes} (hcontent : history.Holds content)
    {kept : List (LiveSegment κ σ)} (hkept : kept ⊆ history.live) {parts : List (Entry κ σ × Nat)}
    {folder : Folder} {content' : String → Option Bytes} (hfolder : folder.HasFiles content')
    (hsame : ∀ segment ∈ kept, content' segment.file = content segment.file)
    (hnew : LiveSegment.Legible f codec (history.store.advanced folder) ⟨history.store.nextName.file, parts⟩) :
    (history.wrote kept parts (history.store.advanced folder)).Legible f codec := by
  intro segment hmem
  rcases List.mem_append.mp hmem with hold | hlast
  · refine (h segment (hkept hold)).congr rfl ?_
    show folder.read segment.file = history.store.folder.read segment.file
    rw [hfolder.read, hcontent.folder.read, hsame segment hold]
  · rw [List.mem_singleton.mp hlast]
    exact hnew

variable [Std.TransOrd κ] [Std.LawfulEqOrd κ]

theorem upload (h : history.Legible f codec) (hsound : history.Sound)
    (hfresh : history.store.nextName.file ∉ history.found) (hcodec : codec.Faithful f P) (feed : Feed κ σ)
    (hall : ∀ item ∈ (history.upload f codec feed).uploaded, P item.1) :
    (history.upload f codec feed).Legible f codec := by
  obtain ⟨content, hcontent⟩ := hsound.folder
  have hupload := hsound.uploadOf f codec hcontent feed
  generalize history.upload f codec feed = after at hupload hall
  cases hupload with
  | nothing => exact h
  | @segment entries bytes folder hne hbytes hfolder =>
    refine h.wrote hcontent (List.Subset.refl _) hfolder (fun segment hmem => ?_) ?_
    · refine Function.update_of_ne ?_ ..
      exact (hsound.named _ (List.mem_map_of_mem hmem)).ne_next hfresh
    · refine .written hcodec ?_ (fun part hmem => hall part (List.mem_append_right _ hmem)) hbytes ?_
      · rw [List.zipIdx_map_fst]
        exact gathers_arranged entries
      · show folder.read history.store.nextName.file = _
        rw [hfolder.read, Function.update_self]
        rfl

theorem consolidate (h : history.Legible f codec) (hsound : history.Sound) (haccounted : history.Accounted)
    (hfresh : history.store.nextName.file ∉ history.found) (hcodec : codec.Faithful f P)
    (hall : ∀ item ∈ history.uploaded, P item.1) : (history.consolidate f codec).Legible f codec := by
  obtain ⟨content, hcontent⟩ := hsound.folder
  obtain ⟨names, hnames, hperm⟩ := hsound.segments
  have hconsolidate := hsound.consolidateOf f codec hcontent hnames
  generalize history.consolidate f codec = after at hconsolidate
  cases hconsolidate with
  | nothing => exact h
  | @merged entries bytes folder _ hread hbytes hfolder =>
    have hnext : history.store.nextName.file ∉ history.store.unclaimed names := by
      intro hmem
      exact (hsound.named _ ((hsound.mem_unclaimed hperm).mp hmem).1).ne_next hfresh rfl
    refine h.wrote hcontent List.filter_sublist.subset hfolder (fun segment hmem => ?_) ?_
    · obtain ⟨hlive, hclaimed⟩ := List.mem_filter.mp hmem
      have hfile : segment.file ∈ history.files := List.mem_map_of_mem hlive
      rw [if_neg, Function.update_of_ne ((hsound.named _ hfile).ne_next hfresh)]
      rw [hsound.mem_unclaimed hperm]
      simpa [isFree] using fun _ => hclaimed
    · -- What was read of the free segments is what the new one has.
      have hfree := hsound.unclaimed_perm hperm
      obtain ⟨merged, hmerged, hgathers⟩ :=
        LiveSegment.Legible.readMerged (fun segment hmem => h segment (List.mem_filter.mp hmem).1) hfree
      rw [hread, Except.ok.injEq] at hmerged
      refine .written hcodec (hmerged ▸ hgathers) (fun part hmem => hall part ?_) hbytes ?_
      · refine haccounted.placed.mem_iff.mp (List.mem_append_left _ ?_)
        obtain ⟨segment, hsegment, hpart⟩ := List.mem_flatMap.mp hmem
        exact List.mem_flatMap.mpr ⟨segment, (List.mem_filter.mp hsegment).1, hpart⟩
      · show folder.read history.store.nextName.file = _
        rw [hfolder.read, if_neg hnext, Function.update_self]
        rfl

omit [Std.TransOrd κ] [Std.LawfulEqOrd κ]

theorem take (h : history.Legible f codec) (hsound : history.Sound) :
    (history.take f codec).Legible f codec := by
  obtain ⟨names, hnames, -⟩ := hsound.segments
  have htake := Sound.takeOf f codec hnames
  generalize history.take f codec = after at htake
  cases htake with
  | unreadable => exact h
  | opened => exact fun segment hmem => (h segment hmem).congr rfl rfl

theorem commit (h : history.Legible f codec) (hsound : history.Sound) (position : Nat) (drained : Bool) :
    (history.commit f codec position drained).Legible f codec := by
  unfold FileHistory.commit
  split
  next => exact h
  next take htake =>
    obtain ⟨content, hcontent⟩ := hsound.folder
    obtain ⟨folder, hcommit, hfolder⟩ := hsound.commit_eq hcontent htake
    dsimp only [FileStore.requests]
    rw [hcommit]
    intro segment hmem
    obtain ⟨hlive, hkept⟩ := List.mem_filter.mp hmem
    refine (h segment hlive).congr rfl ?_
    show folder.read segment.file = history.store.folder.read segment.file
    rw [hfolder.read, hcontent.folder.read, if_neg (by simpa using hkept)]

theorem drop (h : history.Legible f codec) (hsound : history.Sound) (position : Nat) :
    (history.drop f codec position).Legible f codec := by
  unfold FileHistory.drop
  split
  next => exact h
  next take htake =>
    dsimp only [FileStore.requests]
    rw [FileStore.release, if_pos (hsound.takes take (List.mem_of_getElem? htake)).opening]
    exact fun segment hmem => (h segment hmem).congr rfl rfl

theorem reopen (h : history.Legible f codec) (hsound : history.Sound) : history.reopen.Legible f codec := by
  rw [FileHistory.reopen, hsound.reopen_eq]
  exact fun segment hmem => (h segment hmem).congr rfl rfl

theorem tick (h : history.Legible f codec) (clock : Nat) (salt : UInt32) :
    (history.tick clock salt).Legible f codec :=
  fun segment hmem => (h segment hmem).congr rfl rfl

end Legible

section Frame

theorem uploaded_subset_upload (feed : Feed κ σ) :
    history.uploaded ⊆ (history.upload f codec feed).uploaded := by
  unfold upload
  split
  next =>
    split
    next => exact List.Subset.refl _
    next => exact List.subset_append_left ..
  next => exact List.Subset.refl _

@[simp] theorem uploaded_consolidate : (history.consolidate f codec).uploaded = history.uploaded := by
  unfold consolidate
  split <;> rfl

@[simp] theorem uploaded_take : (history.take f codec).uploaded = history.uploaded := by
  unfold take
  split <;> rfl

@[simp] theorem uploaded_commit (position : Nat) (drained : Bool) :
    (history.commit f codec position drained).uploaded = history.uploaded := by
  unfold commit
  split <;> rfl

@[simp] theorem uploaded_drop (position : Nat) :
    (history.drop f codec position).uploaded = history.uploaded := by
  unfold drop
  split <;> rfl

@[simp] theorem found_upload (feed : Feed κ σ) : (history.upload f codec feed).found = history.found := by
  unfold upload
  split
  next => split <;> rfl
  next => rfl

@[simp] theorem found_consolidate : (history.consolidate f codec).found = history.found := by
  unfold consolidate
  split <;> rfl

@[simp] theorem found_take : (history.take f codec).found = history.found := by
  unfold take
  split <;> rfl

end Frame

variable [Std.TransOrd κ] [Std.LawfulEqOrd κ]

theorem Reached.legible (h : Reached f codec history) (hcodec : codec.Faithful f P)
    (hall : ∀ item ∈ history.uploaded, P item.1) : history.Legible f codec := by
  induction h with
  | start => exact fun segment hmem => by contradiction
  | upload h hfresh feed ih =>
    have hbefore := ih fun item hmem => hall item (uploaded_subset_upload feed hmem)
    exact hbefore.upload h.sound hfresh hcodec feed hall
  | consolidate h hfresh ih =>
    rw [uploaded_consolidate] at hall
    exact (ih hall).consolidate h.sound h.accounted hfresh hcodec hall
  | download h horizon ih => exact ih hall
  | take h ih => exact (ih (by simpa using hall)).take h.sound
  | commit h position drained ih => exact (ih (by simpa using hall)).commit h.sound position drained
  | drop h position ih => exact (ih (by simpa using hall)).drop h.sound position
  | reopen h hclosed ih => exact (ih hall).reopen h.sound
  | tick h clock salt ih => exact (ih hall).tick clock salt

theorem Legible.contents (h : history.Legible f codec) (hsound : history.Sound) :
    ∃ entries, history.store.contents f codec = .ok entries ∧
      Entry.Gathers f ((history.live.flatMap LiveSegment.parts).map Prod.fst) entries := by
  obtain ⟨names, hnames, hperm⟩ := hsound.segments
  obtain ⟨entries, hread, hgathers⟩ := LiveSegment.Legible.readMerged h hperm
  refine ⟨entries, ?_, hgathers⟩
  rw [FileStore.contents, hnames]
  exact hread

end FileHistory

end ReplicatedStore
