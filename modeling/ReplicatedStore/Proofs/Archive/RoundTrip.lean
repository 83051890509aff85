import Mathlib.Data.List.Basic
import ReplicatedStore.Archive.Number
import ReplicatedStore.Archive.Record
import ReplicatedStore.Archive.Sequence
import ReplicatedStore.Archive.Text
/-!
# Archives are read back

What is written of a value is read back from every archive in which it stands: its loose part within the
range that may be claimed, its fixed part after that. `Lawful` states this for a type; numbers, pairs, lists
and texts keep it. So an archive of less than 2 GiB, which is what a signed offset reaches, is decoded to the
value it was made of.
-/

namespace ReplicatedStore

namespace Archive

variable {α β : Type}

theorem le_alignUp (align position : Nat) : position ≤ alignUp align position := Nat.le_add_right ..

theorem alignUp_mod {align : Nat} (h : 0 < align) (position : Nat) : alignUp align position % align = 0 := by
  have hlt := Nat.mod_lt position h
  have hsplit := Nat.div_add_mod position align
  unfold alignUp
  by_cases hzero : position % align = 0
  · rw [hzero, Nat.sub_zero, Nat.mod_self, Nat.add_zero, hzero]
  · have hnext : position + (align - position % align) = align * (position / align + 1) := by
      rw [Nat.mul_add, Nat.mul_one]
      omega
    rw [Nat.mod_eq_of_lt (by omega : align - position % align < align), hnext, Nat.mul_mod_right]

theorem alignUp_eq_self {align position : Nat} (h : position % align = 0) : alignUp align position = position := by
  rw [alignUp, h, Nat.sub_zero, Nat.mod_self, Nat.add_zero]

theorem alignUp_lt {align : Nat} (h : 0 < align) (position : Nat) : alignUp align position < position + align :=
  Nat.add_lt_add_left (Nat.mod_lt _ h) position

@[simp] theorem length_zeros (count : Nat) : (zeros count).length = count := List.length_replicate

@[simp] theorem length_offsetBytes (offset : Int) : (offsetBytes offset).length = 4 := Bytes.length_ofNat ..

theorem offsetOfBytes_offsetBytes {offset : Int} (hlower : -2147483648 ≤ offset)
    (hupper : offset < 2147483648) : offsetOfBytes (offsetBytes offset) = offset := by
  have hfits : (offset % 4294967296).toNat < Bytes.capacity 4 := by
    simp only [Bytes.capacity]
    omega
  have hread := Bytes.toNat_ofNat_of_lt hfits
  unfold offsetOfBytes offsetBytes
  simp only [hread]
  rw [Int.bmod_def]
  omega

/-! ### Parts of an archive -/

def At (archive : Bytes) (position : Nat) (part : Bytes) : Prop := part <+: archive.drop position

section At

variable {archive part first second : Bytes} {position : Nat}

theorem at_append :
    At archive position (first ++ second) ↔
      At archive position first ∧ At archive (position + first.length) second := by
  unfold At
  constructor
  · rintro ⟨rest, hrest⟩
    refine ⟨⟨second ++ rest, by rw [← List.append_assoc, hrest]⟩, rest, ?_⟩
    rw [← List.drop_drop, ← hrest, List.append_assoc, List.drop_left]
  · rintro ⟨⟨rest, hrest⟩, tail, htail⟩
    rw [← List.drop_drop, ← hrest, List.drop_left] at htail
    exact ⟨tail, by rw [List.append_assoc, htail, hrest]⟩

theorem At.slice_eq {length : Nat} (h : At archive position part) (hlength : part.length = length) :
    Bytes.slice archive position length = part := by
  rw [← hlength]
  exact (List.prefix_iff_eq_take.mp h).symm

theorem At.le_length (h : At archive position part) (hpos : 0 < part.length) :
    position + part.length ≤ archive.length := by
  have hle := h.length_le
  rw [List.length_drop] at hle
  omega

end At

theorem Bounds.claim_eq {bounds : Bounds} {total target size align : Nat} (hlower : bounds.lower ≤ target)
    (hupper : target + size ≤ bounds.upper) (htotal : bounds.upper ≤ total) (halign : target % align = 0) :
    bounds.claim total target size align = some target := by
  unfold Bounds.claim
  rw [Int.toNat_natCast]
  refine if_pos ⟨Int.natCast_nonneg _, hlower, ?_, by omega, halign⟩
  split <;> omega

variable [Archive α] [Archive β]

/-- A value stands in an archive: its loose part at `start` and within the bounds, and after it, its fixed
part at `own`. -/
structure Placed (archive : Bytes) (start own : Nat) (bounds : Bounds) (value : α) : Prop where
  small : archive.length < 2147483648
  loose : At archive start (loose start value)
  fixed : At archive own (fixed start own value)
  lower : bounds.lower ≤ start
  upper : start + (Archive.loose start value).length ≤ bounds.upper
  before : start + (Archive.loose start value).length ≤ own
  total : bounds.upper ≤ archive.length

/-- What is written of a type is read back, and what follows its loose part can still be claimed. -/
class Lawful (α : Type) [Archive α] : Prop where
  align_pos : 0 < align α
  length_fixed (start own : Nat) (value : α) : (fixed start own value).length = size α
  read_placed {archive : Bytes} {start own : Nat} {bounds : Bounds} {value : α}
    (h : Placed archive start own bounds value) :
    ∃ lower ≤ start + (loose start value).length,
      read archive own bounds = some (value, ⟨lower, bounds.upper⟩)

/-- The archive of a value is decoded to the value. -/
theorem decode_encode [Lawful α] {value : α} (h : (encode value).length < 2147483648) :
    decode (encode value) = some value := by
  let own := alignUp (align α) (loose 0 value).length
  have hown : (loose 0 value).length ≤ own := le_alignUp ..
  have hlength : (encode value).length = own + size α := by
    simp only [encode, List.length_append, length_zeros, Lawful.length_fixed]
    omega
  have hall : At (encode value) 0 (loose 0 value ++ zeros (own - (loose 0 value).length) ++ fixed 0 own value) :=
    List.prefix_rfl
  obtain ⟨hfront, hfixed⟩ := at_append.mp hall
  obtain ⟨hloose, -⟩ := at_append.mp hfront
  rw [List.length_append, length_zeros, Nat.zero_add, Nat.add_sub_cancel' hown] at hfixed
  have hplaced : Placed (encode value) 0 own ⟨0, own⟩ value :=
    ⟨h, hloose, hfixed, Nat.le_refl _, by simpa using hown, by simpa using hown, by simp only [hlength]; omega⟩
  obtain ⟨lower, -, hread⟩ := Lawful.read_placed hplaced
  have hroot : ((encode value).length : Int) - size α = (own : Nat) := by omega
  have hclaim : Bounds.claim ⟨0, (encode value).length⟩ (encode value).length (own : Nat) (size α) (align α) =
      some own :=
    Bounds.claim_eq (Nat.zero_le _) (Nat.le_of_eq hlength.symm) (Nat.le_refl _)
      (alignUp_mod Lawful.align_pos _)
  simp only [decode, hroot, hclaim, Option.bind_eq_bind, Option.bind_some, Bounds.before, hread, Option.pure_def]

/-! ### Numbers -/

omit [Archive α] in
theorem lawful_number {width : Nat} {toNat : α → Nat} {ofNat : Nat → α} (hwidth : 0 < width)
    (hfits : ∀ value, toNat value < Bytes.capacity width) (hrestored : ∀ value, ofNat (toNat value) = value) :
    @Lawful α (number width toNat ofNat) := by
  let : Archive α := number width toNat ofNat
  refine ⟨hwidth, fun _ _ value => Bytes.length_ofNat width (toNat value), fun {archive _ own bounds value} h => ?_⟩
  have hfixed : At archive own (Bytes.ofNat width (toNat value)) := h.fixed
  refine ⟨bounds.lower, Nat.le_trans h.lower (Nat.le_add_right ..), ?_⟩
  show some (ofNat (Bytes.toNat (Bytes.slice archive own width)), bounds) = _
  rw [hfixed.slice_eq (Bytes.length_ofNat ..), Bytes.toNat_ofNat_of_lt (hfits value), hrestored]

instance : Lawful UInt8 := lawful_number (by decide) UInt8.toNat_lt fun _ => UInt8.ofNat_toNat

instance : Lawful UInt64 := lawful_number (by decide) UInt64.toNat_lt fun _ => UInt64.ofNat_toNat

/-! ### Records -/

omit [Archive β] in
theorem lawful_via [Lawful α] (layout : β → α) (restore : α → β)
    (h : ∀ value, restore (layout value) = value) :
    @Lawful β (via layout restore) := by
  let : Archive β := via layout restore
  refine ⟨Lawful.align_pos (α := α), fun start own value => Lawful.length_fixed start own (layout value),
    fun {archive start own bounds value} h' => ?_⟩
  have hplaced : Placed archive start own bounds (layout value) :=
    ⟨h'.small, h'.loose, h'.fixed, h'.lower, h'.upper, h'.before, h'.total⟩
  obtain ⟨lower, hlower, hread⟩ := Lawful.read_placed hplaced
  refine ⟨lower, hlower, ?_⟩
  show (read archive own bounds).map _ = _
  rw [hread, Option.map_some]
  simp only [h]

instance [Lawful α] [Lawful β] : Lawful (α × β) where
  align_pos := Nat.lt_of_lt_of_le Lawful.align_pos (Nat.le_max_left (align α) (align β))
  length_fixed start own pair := by
    have hfirst : size α ≤ secondField α β := le_alignUp ..
    have hpair : secondField α β + size β ≤ pairSize α β := le_alignUp ..
    show (fixed start own pair.1 ++ zeros (secondField α β - size α) ++
      fixed (start + (loose start pair.1).length) (own + secondField α β) pair.2 ++
      zeros (pairSize α β - (secondField α β + size β))).length = pairSize α β
    simp only [List.length_append, Lawful.length_fixed, length_zeros]
    omega
  read_placed {archive start own bounds pair} h := by
    obtain ⟨first, second⟩ := pair
    let next := start + (loose start first).length
    have hloose : At archive start (loose start first ++ loose next second) := h.loose
    have hfixed : At archive own (fixed start own first ++ zeros (secondField α β - size α) ++
        fixed next (own + secondField α β) second ++ zeros (pairSize α β - (secondField α β + size β))) :=
      h.fixed
    have hlength : start + (loose start (first, second)).length = next + (loose next second).length := by
      show start + (loose start first ++ loose next second).length = _
      rw [List.length_append, Nat.add_assoc]
    have hnext : next = start + (loose start first).length := rfl
    clear_value next
    have hupper := h.upper
    have hbefore := h.before
    rw [hlength] at hupper hbefore ⊢
    -- the loose parts follow one another; the fixed parts do up to the padding between the fields
    obtain ⟨hlooseFirst, hlooseSecond⟩ := at_append.mp hloose
    rw [← hnext] at hlooseSecond
    obtain ⟨hfields, -⟩ := at_append.mp hfixed
    obtain ⟨hpadded, hfixedSecond⟩ := at_append.mp hfields
    obtain ⟨hfixedFirst, -⟩ := at_append.mp hpadded
    have hfirst : size α ≤ secondField α β := le_alignUp ..
    rw [List.length_append, Lawful.length_fixed, length_zeros, Nat.add_sub_cancel' hfirst] at hfixedSecond
    have hplacedFirst : Placed archive start own bounds first :=
      ⟨h.small, hlooseFirst, hfixedFirst, h.lower, by omega, by omega, h.total⟩
    obtain ⟨lower, hlower, hreadFirst⟩ := Lawful.read_placed hplacedFirst
    rw [← hnext] at hlower
    have hplacedSecond : Placed archive next (own + secondField α β) ⟨lower, bounds.upper⟩ second :=
      ⟨h.small, hlooseSecond, hfixedSecond, hlower, hupper, by omega, h.total⟩
    obtain ⟨lower', hlower', hreadSecond⟩ := Lawful.read_placed hplacedSecond
    refine ⟨lower', hlower', ?_⟩
    show readPair archive own bounds = _
    simp only [readPair, hreadFirst, hreadSecond, Option.bind_eq_bind, Option.bind_some, Option.pure_def]

/-! ### Lists -/

theorem length_fixedItems [Lawful α] (start own : Nat) (items : List α) :
    (fixedItems start own items).length = items.length * size α := by
  induction items generalizing start own with
  | nil => simp [fixedItems]
  | cons item items ih =>
    rw [fixedItems, List.length_append, Lawful.length_fixed, ih, List.length_cons, Nat.succ_mul, Nat.add_comm]

theorem readItems_placed [Lawful α] {archive : Bytes} {start own : Nat} (bounds : Bounds) {items : List α}
    (hsmall : archive.length < 2147483648) (hloose : At archive start (looseItems start items))
    (hfixed : At archive own (fixedItems start own items)) (hlower : bounds.lower ≤ start)
    (hupper : start + (looseItems start items).length ≤ bounds.upper)
    (hbefore : start + (looseItems start items).length ≤ own) (htotal : bounds.upper ≤ archive.length) :
    ∃ rest, readItems archive own bounds items.length = some (items, rest) := by
  induction items generalizing start own bounds with
  | nil => exact ⟨bounds, rfl⟩
  | cons item items ih =>
    rw [looseItems] at hloose
    rw [looseItems, List.length_append, ← Nat.add_assoc] at hupper hbefore
    obtain ⟨hlooseItem, hlooseRest⟩ := at_append.mp hloose
    obtain ⟨hfixedItem, hfixedRest⟩ := at_append.mp hfixed
    rw [Lawful.length_fixed] at hfixedRest
    have hplaced : Placed archive start own bounds item :=
      ⟨hsmall, hlooseItem, hfixedItem, hlower, by omega, by omega, htotal⟩
    obtain ⟨lower, hnext, hread⟩ := Lawful.read_placed hplaced
    obtain ⟨rest, hrest⟩ := ih ⟨lower, bounds.upper⟩ hlooseRest hfixedRest hnext hupper (by omega) htotal
    refine ⟨rest, ?_⟩
    simp only [List.length_cons, readItems, hread, hrest, Option.bind_eq_bind, Option.bind_some, Option.pure_def]

theorem lawful_list [Lawful α] (hsize : 0 < size α) : Lawful (List α) where
  align_pos := Nat.succ_pos 3
  length_fixed start own items := by
    show (offsetBytes ((firstItem start items : Int) - own) ++ Bytes.ofNat 4 items.length).length = 8
    rw [List.length_append, length_offsetBytes, Bytes.length_ofNat]
  read_placed {archive start own bounds items} h := by
    let first := firstItem start items
    have hle : start + (looseItems start items).length ≤ first := le_alignUp ..
    have hpadding : start + ((looseItems start items).length +
        (first - (start + (looseItems start items).length))) = first := by
      omega
    let gap := zeros (first - (start + (looseItems start items).length))
    have hlength : start + (loose start items).length = first + items.length * size α := by
      show start + (looseItems start items ++ gap ++ fixedItems start first items).length = _
      rw [List.length_append, List.length_append, length_zeros, length_fixedItems, ← Nat.add_assoc, hpadding]
    have hupper := h.upper
    have hbefore := h.before
    have htotal := h.total
    have hsmall := h.small
    have hcount : items.length ≤ items.length * size α := Nat.le_mul_of_pos_right _ hsize
    rw [hlength] at hupper hbefore ⊢
    have hloose : At archive start (looseItems start items ++ gap ++ fixedItems start first items) := h.loose
    have hfixed : At archive own (offsetBytes ((first : Int) - own) ++ Bytes.ofNat 4 items.length) := h.fixed
    obtain ⟨hpadded, hitems⟩ := at_append.mp hloose
    obtain ⟨hbodiesAt, -⟩ := at_append.mp hpadded
    rw [List.length_append, length_zeros, hpadding] at hitems
    obtain ⟨hoffset, hcountAt⟩ := at_append.mp hfixed
    rw [length_offsetBytes] at hcountAt
    have haligned : first % align α = 0 := alignUp_mod Lawful.align_pos _
    clear_value first
    have hown : own + 4 ≤ archive.length := hoffset.le_length (by rw [length_offsetBytes]; exact Nat.succ_pos 3)
    have hcountRead : Bytes.toNat (Bytes.slice archive (own + 4) 4) = items.length := by
      rw [hcountAt.slice_eq (Bytes.length_ofNat ..)]
      refine Bytes.toNat_ofNat_of_lt ?_
      simp only [Bytes.capacity]
      omega
    have htarget : (own : Int) + offsetOfBytes (Bytes.slice archive own 4) = (first : Nat) := by
      rw [hoffset.slice_eq (length_offsetBytes _), offsetOfBytes_offsetBytes (by omega) (by omega)]
      omega
    have hclaim : bounds.claim archive.length (first : Nat) (items.length * size α) (align α) = some first :=
      Bounds.claim_eq (Nat.le_trans h.lower (Nat.le_trans (Nat.le_add_right ..) hle)) hupper htotal haligned
    obtain ⟨rest, hread⟩ := readItems_placed (bounds.before first) hsmall hbodiesAt hitems h.lower
      hle hle (Nat.le_trans (Nat.le_add_right ..) (Nat.le_trans hupper htotal))
    refine ⟨first + items.length * size α, Nat.le_refl _, ?_⟩
    show readList archive own bounds = _
    simp only [readList, hcountRead, htarget, hclaim, hread, Option.bind_eq_bind, Option.bind_some,
      Option.pure_def, Bounds.after]

instance : Lawful Bytes := lawful_list (by decide)

instance : Lawful (List Bytes) := lawful_list (by decide)

theorem length_loose_bytes (start : Nat) (bytes : Bytes) : (loose start bytes).length = bytes.length := by
  have hnone : ∀ (start : Nat) (bytes : Bytes), looseItems start bytes = [] := by
    intro start bytes
    induction bytes generalizing start with
    | nil => rfl
    | cons byte bytes ih => exact ih start
  have hfirst : firstItem start bytes = start := by
    rw [firstItem, hnone, List.length_nil, Nat.add_zero]
    exact Nat.add_eq_left.mpr (Nat.mod_one _)
  have hloose : loose start bytes = looseItems start bytes ++
      zeros (firstItem start bytes - (start + (looseItems start bytes).length)) ++
        fixedItems start (firstItem start bytes) bytes := rfl
  have hsize : size UInt8 = 1 := rfl
  rw [hloose, hnone, hfirst, List.length_append, List.length_append, length_fixedItems, hsize, List.length_nil,
    Nat.add_zero, Nat.sub_self, length_zeros, Nat.zero_add, Nat.mul_one]

/-- A list of byte strings takes eight bytes for each of them beside their own, which are padded, and eight more. -/
theorem length_encode_byteStrings (items : List Bytes) :
    (encode items).length = alignUp 4 items.flatten.length + 8 * items.length + 8 := by
  have hitems : ∀ start, (looseItems start items).length = items.flatten.length := by
    induction items with
    | nil => exact fun _ => rfl
    | cons bytes items ih =>
      intro start
      rw [looseItems, List.length_append, ih, length_loose_bytes, List.flatten_cons, List.length_append]
  have hfixed := length_fixedItems 0 (firstItem 0 items) items
  have hsize : size Bytes = 8 := rfl
  have hpadded := le_alignUp 4 items.flatten.length
  have hfirst : firstItem 0 items = alignUp 4 items.flatten.length := by
    rw [← hitems 0, ← Nat.zero_add (looseItems 0 items).length]
    rfl
  have hloose : (loose 0 items).length = alignUp 4 items.flatten.length + 8 * items.length := by
    show (looseItems 0 items ++ zeros (firstItem 0 items - (0 + (looseItems 0 items).length)) ++
      fixedItems 0 (firstItem 0 items) items).length = _
    rw [List.length_append, List.length_append, length_zeros, hfixed, hsize, hitems, hfirst]
    omega
  have hown : alignUp 4 (loose 0 items).length = (loose 0 items).length := by
    have hmultiple : alignUp 4 items.flatten.length % 4 = 0 := alignUp_mod (by decide) _
    rw [hloose]
    apply alignUp_eq_self
    omega
  show (loose 0 items ++ zeros (alignUp 4 (loose 0 items).length - (loose 0 items).length) ++
    fixed 0 _ items).length = _
  rw [hown, List.length_append, List.length_append, length_zeros, Lawful.length_fixed, hloose, Nat.sub_self,
    Nat.add_zero]
  rfl

theorem length_encode_byteStrings_le {items : List Bytes} {count bound : Nat} (hcount : items.length ≤ count)
    (hbound : ∀ bytes ∈ items, bytes.length ≤ bound) : (encode items).length ≤ count * (bound + 8) + 11 := by
  have hsum : items.flatten.length ≤ items.length * bound := by
    clear hcount
    induction items with
    | nil => simp
    | cons bytes items ih =>
      obtain ⟨hfirst, hrest⟩ := List.forall_mem_cons.mp hbound
      have hlater := ih hrest
      rw [List.flatten_cons, List.length_append, List.length_cons, Nat.succ_mul]
      omega
  have hpadded : alignUp 4 items.flatten.length < items.flatten.length + 4 := alignUp_lt (by decide) _
  have hmore := Nat.mul_le_mul_right (bound + 8) hcount
  rw [Nat.mul_add] at hmore
  rw [length_encode_byteStrings]
  omega

/-! ### Texts -/

private theorem top_offsetBytes {offset : Int} (hlower : -2147483648 ≤ offset) (hupper : offset < 0) :
    ∃ top : UInt8, (offsetBytes offset)[3]? = some top ∧ 128 ≤ top.toNat := by
  refine ⟨UInt8.ofNat ((offset % 4294967296).toNat / 256 / 256 / 256), rfl, ?_⟩
  rw [UInt8.toNat_ofNat']
  omega

section Text

variable {text : String} (start own : Nat)

private theorem short_parts (h : (Bytes.ofString text).length ≤ shortText) :
    loose start text = [] ∧ fixed start own text =
      Bytes.ofString text ++ zeros (shortText - (Bytes.ofString text).length) ++
        [UInt8.ofNat (Bytes.ofString text).length] :=
  ⟨if_pos h, if_pos h⟩

private theorem long_parts (h : ¬ (Bytes.ofString text).length ≤ shortText) :
    loose start text = Bytes.ofString text ∧ fixed start own text =
      Bytes.ofNat 4 (Bytes.ofString text).length ++ offsetBytes ((start : Int) - own) :=
  ⟨if_neg h, if_neg h⟩

end Text

private theorem readText_short {archive : Bytes} {start own : Nat} {bounds : Bounds} {text : String}
    (h : Placed archive start own bounds text) (hshort : (Bytes.ofString text).length ≤ shortText) :
    readText archive own bounds = some (text, bounds) := by
  obtain ⟨-, hparts⟩ := short_parts start own hshort
  have hfixed := h.fixed
  rw [hparts] at hfixed
  have hpad : (Bytes.ofString text ++ zeros (shortText - (Bytes.ofString text).length)).length = 7 := by
    rw [List.length_append, length_zeros, Nat.add_sub_cancel' hshort]
    rfl
  have hslice := hfixed.slice_eq (show _ = 8 by rw [List.length_append, hpad]; rfl)
  have htag : (UInt8.ofNat (Bytes.ofString text).length).toNat = (Bytes.ofString text).length := by
    rw [UInt8.toNat_ofNat']
    unfold shortText at hshort
    omega
  have hsmall : (Bytes.ofString text).length < 128 := by
    unfold shortText at hshort
    omega
  have hbyte : (Bytes.slice archive own 8)[7]? = some (UInt8.ofNat (Bytes.ofString text).length) := by
    rw [hslice, List.getElem?_append_right (Nat.le_of_eq hpad), hpad]
    rfl
  have htext : Bytes.toString? ((Bytes.slice archive own 8).take (Bytes.ofString text).length) = some text := by
    rw [hslice, List.append_assoc, List.take_left, Bytes.toString?_ofString]
  have hguard : (guard ((Bytes.ofString text).length ≤ shortText) : Option Unit) = some () := if_pos hshort
  rw [readText]
  dsimp only
  rw [hbyte, Option.bind_eq_bind, Option.bind_some, htag, if_pos hsmall, hguard, Option.bind_eq_bind, Option.bind_some,
    htext]
  rfl

private theorem readText_long {archive : Bytes} {start own : Nat} {bounds : Bounds} {text : String}
    (h : Placed archive start own bounds text) (hlong : ¬ (Bytes.ofString text).length ≤ shortText) :
    readText archive own bounds = some (text, ⟨start + (loose start text).length, bounds.upper⟩) := by
  obtain ⟨hlooseParts, hfixedParts⟩ := long_parts start own hlong
  have hloose := h.loose
  have hfixed := h.fixed
  have hupper := h.upper
  have hbefore := h.before
  have htotal := h.total
  have hsmall := h.small
  rw [hlooseParts] at hloose hupper hbefore ⊢
  rw [hfixedParts] at hfixed
  have hlength : (Bytes.ofNat 4 (Bytes.ofString text).length ++ offsetBytes ((start : Int) - own)).length = 8 := by
    rw [List.length_append, Bytes.length_ofNat, length_offsetBytes]
  have hown : own + 8 ≤ archive.length := by
    have hle := hfixed.le_length (by omega)
    omega
  have hcount : Bytes.toNat (Bytes.ofNat 4 (Bytes.ofString text).length) = (Bytes.ofString text).length := by
    refine Bytes.toNat_ofNat_of_lt ?_
    simp only [Bytes.capacity]
    omega
  have hpos : 0 < (Bytes.ofString text).length := Nat.lt_of_le_of_lt (Nat.zero_le _) (Nat.lt_of_not_le hlong)
  obtain ⟨top, htop, htag⟩ := top_offsetBytes (by omega : -2147483648 ≤ (start : Int) - own) (by omega)
  have hread : offsetOfBytes (offsetBytes ((start : Int) - own)) = start - own :=
    offsetOfBytes_offsetBytes (by omega) (by omega)
  have htarget : (own : Int) + ((start : Int) - own) = (start : Nat) := by omega
  have hclaim : bounds.claim archive.length (start : Nat) (Bytes.ofString text).length 1 = some start :=
    Bounds.claim_eq h.lower hupper htotal (Nat.mod_one _)
  have hhead : (Bytes.ofNat 4 (Bytes.ofString text).length).length = 4 := Bytes.length_ofNat ..
  rw [readText]
  dsimp only
  rw [hfixed.slice_eq hlength, List.getElem?_append_right (by omega), hhead, htop, Option.bind_eq_bind,
    Option.bind_some, if_neg (Nat.not_lt.mpr htag), List.take_left' hhead, List.drop_left' hhead, hread, htarget,
    hcount, hclaim]
  simp only [Option.bind_eq_bind, Option.bind_some, hloose.slice_eq rfl, Bytes.toString?_ofString, Option.pure_def,
    Bounds.after]

instance : Lawful String where
  align_pos := Nat.succ_pos 3
  length_fixed start own text := by
    by_cases hshort : (Bytes.ofString text).length ≤ shortText
    · rw [(short_parts start own hshort).2]
      unfold shortText at *
      simp only [List.length_append, length_zeros, List.length_singleton]
      show _ = 8
      omega
    · rw [(long_parts start own hshort).2, List.length_append, Bytes.length_ofNat, length_offsetBytes]
      rfl
  read_placed {archive start own bounds text} h := by
    by_cases hshort : (Bytes.ofString text).length ≤ shortText
    · exact ⟨bounds.lower, Nat.le_trans h.lower (Nat.le_add_right ..), readText_short h hshort⟩
    · exact ⟨_, Nat.le_refl _, readText_long h hshort⟩

end Archive

end ReplicatedStore
