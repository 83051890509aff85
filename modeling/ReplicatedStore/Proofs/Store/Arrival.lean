import ReplicatedStore.Proofs.Store.Contents
import ReplicatedStore.Proofs.Store.Map
import ReplicatedStore.Proofs.Store.Records
/-!
# Uploads in the order of arrival

A merge function may join states in a way that depends on their order. A store in files sorts what is uploaded
and joins neighbours, a store in memory puts one entry after the other into its slot; both join the entries of
a key from left to right as they arrived. So one segment holds exactly what a store in memory would.
-/

namespace ReplicatedStore.FileStore

variable {κ σ : Type}

section Writing

/-- Writes entries as they are into the next segment; without entries there is none. -/
def writeEntries (codec : EntryCodec κ σ) (entries : List (Entry κ σ)) (store : FileStore) :
    Except StoreError Unit × FileStore :=
  if entries.isEmpty then (.ok (), store)
  else
    match Segment.write codec entries with
    | .error cause => (.error (.codec cause), store)
    | .ok content => store.runWriting (writeSteps store.nextName content)

variable {codec : EntryCodec κ σ} {store : FileStore}

theorem exists_writeEntries {files : String → Option Bytes} (h : store.folder.HasFiles files)
    {entries : List (Entry κ σ)} (hne : entries ≠ []) (hrestores : ∀ entry ∈ entries, codec.Restores entry) :
    ∃ after, store.writeEntries codec entries = (.ok (), after) ∧
      after.readSegment codec store.nextName.file = .ok entries := by
  obtain ⟨content, hwrite, hread⟩ := Segment.exists_write hrestores
  obtain ⟨after, hrun⟩ := exists_runWriting h content
  refine ⟨after, ?_, readSegment_eq (read_of_runWriting hrun) hread⟩
  rw [writeEntries, if_neg (by simpa using hne), hwrite]
  exact hrun

end Writing

variable [Ord κ] [Std.TransOrd κ] [Std.LawfulEqOrd κ] (f : MergeFunction σ)

/-- Sorting and joining neighbours comes to the same as merging one entry after the other. -/
theorem arranged_eq_entries (arriving : List (Entry κ σ)) :
    arranged f arriving = (MapStore.putAll f .empty arriving).entries :=
  (joins_arranged f arriving).unique (MapStore.joins_putAll_empty f arriving)

theorem arranged_ne_nil {entries : List (Entry κ σ)} (hne : entries ≠ []) : arranged f entries ≠ [] := by
  intro hnil
  obtain ⟨entry, hmem⟩ := List.exists_mem_of_ne_nil _ hne
  have hkey := (joins_arranged f entries).mem_keys_iff.mpr (List.mem_map_of_mem hmem)
  rw [hnil] at hkey
  contradiction

theorem upload_ofEntries (codec : EntryCodec κ σ) (entries : List (Entry κ σ)) (store : FileStore) :
    store.upload f codec (.ofEntries entries) = store.writeEntries codec (arranged f entries) := by
  rw [upload, Feed.collect_ofEntries]
  cases entries with
  | nil => simp [writeEntries, arranged, sortByKey, coalesce]
  | cons first rest =>
    have hne := arranged_ne_nil f (List.cons_ne_nil first rest)
    rw [writeEntries]
    exact (if_neg (by simpa using hne)).symm

/-- Whatever the merge function, an upload to a store in files writes the entries that a fresh store in memory
holds after the same upload: in key order, with exactly the keys that arrived, and for each key its entries
joined from left to right in the order of their arrival. If the codec restores them, then a folder that has
nothing but files takes them, and they are read back. Of any sorted entries, joining neighbours leaves one for
each key, which is the run of that key joined from left to right. -/
theorem upload_in_order_of_arrival :
    (∀ entries : List (Entry κ σ),
      let written := ((MapStore.empty : MapStore κ σ).upload f (.ofEntries entries)).2.entries
      Entry.Ascending written ∧
      (∀ key, key ∈ written.map Entry.key ↔ key ∈ entries.map Entry.key) ∧
      (∀ key, Entry.lookup? key written = Entry.joined f (entries.filter (Entry.hasKey key))) ∧
      ∀ (codec : EntryCodec κ σ) (store : FileStore),
        store.upload f codec (.ofEntries entries) = store.writeEntries codec written ∧
        ∀ files, store.folder.HasFiles files → entries ≠ [] → (∀ entry ∈ written, codec.Restores entry) →
          ∃ after, store.upload f codec (.ofEntries entries) = (.ok (), after) ∧
            after.readSegment codec store.nextName.file = .ok written) ∧
    ∀ sorted : List (Entry κ σ), Entry.Sorted sorted →
      Entry.Ascending (coalesce f sorted) ∧
      (∀ key, key ∈ (coalesce f sorted).map Entry.key ↔ key ∈ sorted.map Entry.key) ∧
      ∀ key, sorted.filter (Entry.hasKey key) <:+: sorted ∧
        Entry.lookup? key (coalesce f sorted) = Entry.joined f (sorted.filter (Entry.hasKey key)) := by
  refine ⟨fun entries => ?_, fun sorted hsorted => ?_⟩
  · have hwritten : ((MapStore.empty : MapStore κ σ).upload f (.ofEntries entries)).2.entries =
        arranged f entries := by
      rw [MapStore.upload, Feed.collect_ofEntries, arranged_eq_entries]
    have hjoins := joins_arranged f entries
    dsimp only
    rw [hwritten]
    refine ⟨hjoins.ascending, fun key => hjoins.mem_keys_iff, hjoins.lookup, fun codec store => ?_⟩
    rw [upload_ofEntries]
    exact ⟨rfl, fun files hfiles hne => exists_writeEntries hfiles (arranged_ne_nil f hne)⟩
  · have hjoins := joins_coalesce f hsorted
    exact ⟨hjoins.ascending, fun key => hjoins.mem_keys_iff,
      fun key => ⟨hsorted.filter_isInfix key, hjoins.lookup key⟩⟩

/-- The states are written down one after the other as the digits of a number, so that it tells their order. -/
theorem upload_in_order_of_arrival_digits :
    let f : MergeFunction UInt64 := .ignoringTime fun held arriving => 10 * held + arriving
    let codec := EntryCodec.archived UInt64 UInt64
    let store : FileStore := ⟨"store", .items ∅, 0, ∅, 0, 0, 0⟩
    let arriving : List (Entry UInt64 UInt64) := [⟨2, 5, 3⟩, ⟨1, 4, 6⟩, ⟨2, 1, 1⟩, ⟨1, 9, 5⟩, ⟨2, 7, 2⟩]
    let sorted : List (Entry UInt64 UInt64) := [⟨1, 4, 6⟩, ⟨1, 9, 5⟩, ⟨2, 5, 3⟩, ⟨2, 1, 1⟩, ⟨2, 7, 2⟩]
    (∃ after, store.upload f codec (.ofEntries arriving) = (.ok (), after) ∧
      after.readSegment codec store.nextName.file = .ok [⟨1, 9, 65⟩, ⟨2, 7, 312⟩]) ∧
    Entry.Sorted sorted ∧ Entry.lookup? 2 (coalesce f sorted) = some ⟨2, 7, 312⟩ := by
  intro f codec store arriving sorted
  obtain ⟨hupload, hcoalesce⟩ := upload_in_order_of_arrival (κ := UInt64) f
  obtain ⟨-, -, -, hwrites⟩ := hupload arriving
  have hwritten : ((MapStore.empty : MapStore UInt64 UInt64).upload f (.ofEntries arriving)).2.entries =
      [⟨1, 9, 65⟩, ⟨2, 7, 312⟩] := by decide +kernel
  have hsorted : Entry.Sorted sorted := by decide
  obtain ⟨-, hback⟩ := hwrites codec store
  obtain ⟨-, -, hrun⟩ := hcoalesce sorted hsorted
  refine ⟨?_, hsorted, ?_⟩
  · rw [hwritten] at hback
    refine hback _ Folder.hasFiles_empty (List.cons_ne_nil _ _) fun entry _ => ?_
    exact (EntryCodec.archived_faithful f).restores entry trivial
  · rw [(hrun 2).2]
    rfl

end ReplicatedStore.FileStore
