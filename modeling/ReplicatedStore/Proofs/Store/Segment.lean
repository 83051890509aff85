import ReplicatedStore.Proofs.Text.Digits
import ReplicatedStore.Proofs.Text.Separators
import ReplicatedStore.Store.Folder
import ReplicatedStore.Store.Segment
/-!
# Segments and their names

What is written to a segment is read back from it, if the codec restores the entries. The name of a segment
tells its number among those written since the store was opened.
-/

namespace ReplicatedStore

variable {κ σ : Type}

/-- An entry is encoded, in a length that a record can tell, and restored from its encoding. -/
def EntryCodec.Restores (codec : EntryCodec κ σ) (entry : Entry κ σ) : Prop :=
  ∃ payload, codec.encode entry = .ok payload ∧ codec.decode payload = .ok entry ∧ payload.length < UInt32.size

/-- Whether decoding undoes every encoding that succeeds. -/
def EntryCodec.Undoes (codec : EntryCodec κ σ) : Prop :=
  ∀ entry bytes, codec.encode entry = .ok bytes → codec.decode bytes = .ok entry

/-- Every entry that has an encoding is restored from it. -/
def EntryCodec.RestoresEncoded (codec : EntryCodec κ σ) : Prop :=
  ∀ entry payload, codec.encode entry = .ok payload → codec.Restores entry

namespace Segment

variable {codec : EntryCodec κ σ}

theorem read_record {entry : Entry κ σ} {payload : Bytes} (hdecode : codec.decode payload = .ok entry)
    (hlength : payload.length < UInt32.size) (rest : Bytes) :
    read codec (record payload ++ rest) = (read codec rest).map (entry :: ·) := by
  have hbytes : record payload ++ rest =
      Bytes.ofNat 4 payload.length ++ (Bytes.ofNat 4 (Bytes.crc32 payload).toNat ++ (payload ++ rest)) := by
    simp only [record, Bytes.ofUInt32, List.append_assoc]
  have hread : Bytes.toNat (Bytes.ofNat 4 payload.length) = payload.length := Bytes.toNat_ofNat_of_lt hlength
  have hchecksum : Bytes.toNat (Bytes.ofNat 4 (Bytes.crc32 payload).toNat) = (Bytes.crc32 payload).toNat :=
    Bytes.toNat_ofNat_of_lt (Bytes.crc32 payload).toNat_lt
  rw [hbytes]
  simp only [Bytes.ofNat, List.cons_append, List.nil_append] at hread hchecksum ⊢
  rw [read]
  simp only [hread, hchecksum, List.take_left, List.drop_left, Nat.lt_irrefl, ne_eq, not_true, if_false,
    hdecode]

theorem exists_write {entries : List (Entry κ σ)} (h : ∀ entry ∈ entries, codec.Restores entry) :
    ∃ content, write codec entries = .ok content ∧ read codec content = .ok entries := by
  induction entries with
  | nil => exact ⟨[], rfl, by rw [read]⟩
  | cons entry rest ih =>
    obtain ⟨⟨payload, hencode, hdecode, hlength⟩, hrest⟩ := List.forall_mem_cons.mp h
    obtain ⟨content, hwrite, hread⟩ := ih hrest
    refine ⟨record payload ++ content, ?_, ?_⟩
    · rw [write, hencode, hwrite]
      rfl
    · rw [read_record hdecode hlength, hread]
      rfl

theorem exists_encode {entries : List (Entry κ σ)} {content : Bytes} (h : write codec entries = .ok content) :
    ∀ entry ∈ entries, ∃ payload, codec.encode entry = .ok payload := by
  induction entries generalizing content with
  | nil => simp
  | cons entry rest ih =>
    rw [write] at h
    cases hencode : codec.encode entry with
    | error cause =>
      rw [hencode] at h
      contradiction
    | ok payload =>
      cases hrest : write codec rest with
      | error cause =>
        rw [hencode, hrest] at h
        contradiction
      | ok bytes => exact List.forall_mem_cons.mpr ⟨⟨payload, hencode⟩, ih hrest⟩

theorem read_of_write (hcodec : codec.RestoresEncoded) {entries : List (Entry κ σ)} {content : Bytes}
    (h : write codec entries = .ok content) : read codec content = .ok entries := by
  have hrestores : ∀ entry ∈ entries, codec.Restores entry := by
    intro entry hmem
    obtain ⟨payload, hencode⟩ := exists_encode h entry hmem
    exact hcodec entry payload hencode
  obtain ⟨bytes, hwrite, hread⟩ := exists_write hrestores
  rw [h, Except.ok.injEq] at hwrite
  rw [hwrite, hread]

end Segment

namespace SegmentName

private theorem isAlphanum_of_mem_padded {base width n : Nat} {c : Char} (hbase : 1 < base)
    (hsmall : base ≤ 16) (h : c ∈ (padded base width n).toList) : c.isAlphanum = true := by
  rw [padded, String.toList_ofList, List.mem_append] at h
  rcases h with hzero | hdigit
  · rw [List.eq_of_mem_replicate hzero]
    rfl
  · exact Text.isAlphanum_of_mem_toDigits hbase hsmall hdigit

private theorem padded_injective {width m n : Nat}
    (h : (padded 10 width m).toList = (padded 10 width n).toList) : m = n := by
  have hvalue : ∀ n, Nat.ofDigitChars 10 (padded 10 width n).toList 0 = n := by
    intro n
    rw [padded, String.toList_ofList, Nat.ofDigitChars_append, Nat.ofDigitChars_replicate_zero]
    exact Nat.ofDigitChars_toDigits (by omega) (by omega)
  rw [← hvalue m, h, hvalue n]

private theorem toList_stem (name : SegmentName) :
    name.stem.toList = (padded 10 20 name.time).toList ++
      '-' :: ((padded 10 10 name.id).toList ++ '-' :: (padded 16 8 name.salt.toNat).toList) := by
  simp [stem, String.toList_append]

private theorem mark_not_mem_stem (name : SegmentName) {c : Char} (hmark : c.isAlphanum = false)
    (hdash : c ≠ '-') : c ∉ name.stem.toList := by
  have hpadded : ∀ base width n, 1 < base → base ≤ 16 → c ∉ (padded base width n).toList := by
    intro base width n hbase hsmall hmem
    rw [isAlphanum_of_mem_padded hbase hsmall hmem] at hmark
    contradiction
  rw [toList_stem]
  simp [hpadded, hdash]

/-- The names of segments with different numbers differ. -/
theorem id_of_file {first second : SegmentName} (h : first.file = second.file) : first.id = second.id := by
  have hdash : ∀ width n, '-' ∉ (padded 10 width n).toList := by
    intro width n hmem
    have halphanum := isAlphanum_of_mem_padded (by omega) (by omega) hmem
    exact absurd halphanum (by decide)
  have htext : first.stem.toList = second.stem.toList := by
    have := congrArg String.toList h
    simpa [file, String.toList_append] using this
  rw [toList_stem, toList_stem] at htext
  have hcut := congrArg (Text.splitFirst? '-') htext
  rw [Text.splitFirst?_append (hdash _ _), Text.splitFirst?_append (hdash _ _), Option.some.injEq,
    Prod.mk.injEq] at hcut
  have hcut' := congrArg (Text.splitFirst? '-') hcut.2
  rw [Text.splitFirst?_append (hdash _ _), Text.splitFirst?_append (hdash _ _), Option.some.injEq,
    Prod.mk.injEq] at hcut'
  exact padded_injective hcut'.1

private theorem extension?_stem (name : SegmentName) {extension : String} (h : '.' ∉ extension.toList) :
    Folder.extension? (name.stem ++ "." ++ extension) = some extension := by
  have htext : (name.stem ++ "." ++ extension).toList = name.stem.toList ++ '.' :: extension.toList := by
    simp [String.toList_append]
  have hne : name.stem.toList.isEmpty = false := by
    rw [toList_stem]
    simp
  rw [Folder.extension?, htext, Text.splitLast?_append _ h]
  dsimp only
  rw [hne, String.ofList_toList]
  rfl

@[simp] theorem extension?_file (name : SegmentName) : Folder.extension? name.file = some "seg" := by
  have hfile : name.file = name.stem ++ "." ++ "seg" := by rw [file, String.append_assoc]; rfl
  rw [hfile, extension?_stem name (by decide)]

theorem extension?_temporary (name : SegmentName) : Folder.extension? name.temporary = some "tmp" := by
  have htemporary : name.temporary = name.stem ++ "." ++ "tmp" := by rw [temporary, String.append_assoc]; rfl
  rw [htemporary, extension?_stem name (by decide)]

theorem temporary_ne_file (name other : SegmentName) : name.temporary ≠ other.file := by
  intro h
  have hextension := extension?_temporary name
  rw [h, extension?_file] at hextension
  exact absurd hextension (by decide)

private theorem slash_not_mem (name : SegmentName) (extension : String) (h : '/' ∉ extension.toList) :
    '/' ∉ (name.stem ++ extension).toList := by
  have hstem : '/' ∉ name.stem.toList := mark_not_mem_stem name rfl (by decide)
  rw [String.toList_append, List.mem_append, not_or]
  exact ⟨hstem, h⟩

@[simp] theorem isName_file (name : SegmentName) : Folder.isName name.file = true := by
  have hslash := slash_not_mem name ".seg" (by decide)
  rw [Folder.isName, Bool.not_eq_true', ← Bool.not_eq_true, List.contains_iff_mem]
  exact hslash

private theorem beginnings_eq_nil {cs : List Char} (h : '/' ∉ cs) : Folder.beginnings cs = [] := by
  induction cs with
  | nil => rfl
  | cons c cs ih =>
    rw [List.mem_cons, not_or] at h
    obtain ⟨hne, hcs⟩ := h
    rw [Folder.beginnings, ih hcs, if_neg (Ne.symm hne)]
    rfl

private theorem leading_eq_nil (name : SegmentName) {extension : String} (h : '/' ∉ extension.toList) :
    Folder.leading (name.stem ++ extension) = [] := by
  have hnone : Folder.beginnings (name.stem ++ extension).toList = [] :=
    beginnings_eq_nil (slash_not_mem name extension h)
  rw [Folder.leading, hnone, List.map_nil]

theorem leading_temporary (name : SegmentName) : Folder.leading name.temporary = [] :=
  leading_eq_nil name (by decide)

end SegmentName

end ReplicatedStore
