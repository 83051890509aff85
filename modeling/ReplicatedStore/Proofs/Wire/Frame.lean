import Mathlib.Data.List.Basic
import ReplicatedStore.Proofs.Archive.RoundTrip
import ReplicatedStore.Wire.Frame
/-!
# Reading frames

`Frame.Reads` is the grammar of a byte string that arrives on a connection: frame by frame, until nothing is
left or until what is left is no frame. A receiver reads exactly what the grammar says, however the bytes
were cut into chunks, and it reads back the frames that were sent.
-/

namespace ReplicatedStore

namespace Archive

instance : Lawful StatusCode where
  align_pos := Nat.zero_lt_one
  length_fixed _ _ _ := rfl
  read_placed {archive start own bounds code} h := by
    have hfixed : At archive own [UInt8.ofNat code.number] := h.fixed
    obtain ⟨rest, hrest⟩ := hfixed
    have hbyte : archive[own]? = some (UInt8.ofNat code.number) := by
      rw [← Nat.add_zero own, ← List.getElem?_drop, ← hrest]
      rfl
    refine ⟨bounds.lower, Nat.le_trans h.lower (Nat.le_add_right ..), ?_⟩
    show (do let byte ← archive[own]?; let code ← StatusCode.ofNumber? byte.toNat; return (code, bounds)) = _
    rw [hbyte]
    cases code <;> rfl

instance : Lawful Status :=
  lawful_via (fun s : Status => (s.code, s.message)) (fun (code, message) => ⟨code, message⟩) fun _ => rfl

end Archive

namespace Frame

/-- The frames of a byte string, and how a connection ends that is closed after it. -/
inductive Reads : Bytes → List Frame → Ending → Prop
  | closed : Reads [] [] .closed
  | frame {type : UInt8} {kind : UInt16} {payload rest : Bytes} {frames : List Frame} {ending : Ending}
    (htype : type ≤ 1) (hlength : payload.length ≤ maxPayload) (hrest : Reads rest frames ending) :
    Reads (header type kind payload.length ++ (payload ++ rest)) (ofParts type kind payload :: frames) ending
  | invalid {nine rest : Bytes} (hnine : nine.length = 9)
    (h : ∀ type kind length, type ≤ 1 → length < Bytes.capacity 4 → nine ≠ header type kind length) :
    Reads (nine ++ rest) [] (.failed (.invalidData "Received an invalid frame header"))
  | oversized {type : UInt8} {kind : UInt16} {length : Nat} {rest : Bytes} (htype : type ≤ 1)
    (hfits : length < Bytes.capacity 4) (h : maxPayload < length) :
    Reads (header type kind length ++ rest) []
      (.failed (.invalidData s!"Frame of {length} bytes exceeds the limit of {maxPayload} bytes"))
  | shortHeader {bytes : Bytes} (hne : bytes ≠ []) (h : bytes.length < 9) :
    Reads bytes [] (.failed .unexpectedEnd)
  | shortPayload {type : UInt8} {kind : UInt16} {length : Nat} {rest : Bytes} (htype : type ≤ 1)
    (hlength : length ≤ maxPayload) (h : rest.length < length) :
    Reads (header type kind length ++ rest) [] (.failed .unexpectedEnd)

theorem length_header (type : UInt8) (kind : UInt16) (length : Nat) :
    (header type kind length).length = 9 := by
  simp [header, Bytes.ofUInt16]

theorem maxPayload_lt_capacity : maxPayload < Bytes.capacity 4 := by
  simp [maxPayload, Bytes.capacity]

/-! ### The first frame of a buffer -/

inductive Head : Bytes → Prop
  | short {buffer : Bytes} (h : buffer.length < 9) : Head buffer
  | invalid {nine rest : Bytes} (hnine : nine.length = 9)
    (h : ∀ type kind length, type ≤ 1 → length < Bytes.capacity 4 → nine ≠ header type kind length) :
    Head (nine ++ rest)
  | declared {type : UInt8} {kind : UInt16} {length : Nat} {rest : Bytes} (htype : type ≤ 1)
    (hfits : length < Bytes.capacity 4) : Head (header type kind length ++ rest)

theorem head_cases (buffer : Bytes) : Head buffer := by
  by_cases hshort : buffer.length < 9
  · exact .short hshort
  · rw [← List.take_append_drop 9 buffer]
    by_cases hheader : ∃ type kind length, type ≤ 1 ∧ length < Bytes.capacity 4 ∧
        buffer.take 9 = header type kind length
    · obtain ⟨type, kind, length, htype, hfits, heq⟩ := hheader
      rw [heq]
      exact .declared htype hfits
    · refine .invalid (by rw [List.length_take]; omega) fun type kind length htype hfits heq => ?_
      exact hheader ⟨type, kind, length, htype, hfits, heq⟩

theorem next?_short {buffer : Bytes} (h : buffer.length < 9) : next? buffer = .ok none := by
  unfold next?
  split
  next =>
    simp only [List.length_cons] at h
    omega
  next => rfl

theorem next?_declared {type : UInt8} {length : Nat} (kind : UInt16) (rest : Bytes) (htype : type ≤ 1)
    (hfits : length < Bytes.capacity 4) :
    next? (header type kind length ++ rest) =
      if maxPayload < length then
        .error (.invalidData s!"Frame of {length} bytes exceeds the limit of {maxPayload} bytes")
      else if rest.length < length then .ok none
      else .ok (some (ofParts type kind (rest.take length), rest.drop length)) := by
  have hread := Bytes.toNat_ofNat_of_lt hfits
  have hkind : Bytes.toNat (Bytes.ofNat 2 kind.toNat) = kind.toNat := Bytes.toNat_ofNat_of_lt kind.toNat_lt
  have hknown : ¬ 1 < type := UInt8.not_lt.mpr htype
  have hshort : (rest.take length).length < length ↔ rest.length < length := by
    rw [List.length_take]
    omega
  simp only [header, Bytes.ofUInt16, Bytes.ofNat, List.cons_append, List.nil_append] at hread hkind ⊢
  simp only [next?, hread, hkind, hknown, ne_eq, not_true, or_self, if_false, hshort, UInt16.ofNat_toNat]

theorem next?_invalid {nine : Bytes} (rest : Bytes) (hnine : nine.length = 9)
    (h : ∀ type kind length, type ≤ 1 → length < Bytes.capacity 4 → nine ≠ header type kind length) :
    next? (nine ++ rest) = .error (.invalidData "Received an invalid frame header") := by
  match nine, hnine with
  | [type, k₀, k₁, l₀, l₁, l₂, l₃, cr, lf], _ =>
    simp only [List.cons_append, List.nil_append, next?]
    refine if_pos ?_
    by_contra hvalid
    simp only [not_or, not_not, UInt8.not_lt] at hvalid
    obtain ⟨rfl, rfl, htype⟩ := hvalid
    have hkind : Bytes.ofUInt16 (UInt16.ofNat (Bytes.toNat [k₀, k₁])) = [k₀, k₁] := by
      have hfits : Bytes.toNat [k₀, k₁] < 2 ^ 16 := Bytes.toNat_lt [k₀, k₁]
      rw [Bytes.ofUInt16, UInt16.toNat_ofNat', Nat.mod_eq_of_lt hfits]
      exact Bytes.ofNat_toNat [k₀, k₁]
    have hlength : Bytes.ofNat 4 (Bytes.toNat [l₀, l₁, l₂, l₃]) = [l₀, l₁, l₂, l₃] :=
      Bytes.ofNat_toNat [l₀, l₁, l₂, l₃]
    have hcapacity : Bytes.toNat [l₀, l₁, l₂, l₃] < Bytes.capacity 4 := Bytes.toNat_lt [l₀, l₁, l₂, l₃]
    refine h type (.ofNat (Bytes.toNat [k₀, k₁])) (Bytes.toNat [l₀, l₁, l₂, l₃]) htype hcapacity ?_
    rw [header, hkind, hlength]
    rfl

/-- A verdict on the first frame does not depend on what follows in the buffer. -/
theorem next?_append {buffer : Bytes} (more : Bytes) :
    (∀ cause, next? buffer = .error cause → next? (buffer ++ more) = .error cause) ∧
      ∀ frame rest, next? buffer = .ok (some (frame, rest)) →
        next? (buffer ++ more) = .ok (some (frame, rest ++ more)) := by
  cases head_cases buffer with
  | short h =>
    rw [next?_short h]
    exact ⟨nofun, nofun⟩
  | invalid hnine h =>
    rw [List.append_assoc, next?_invalid _ hnine h, next?_invalid _ hnine h]
    exact ⟨fun _ heq => heq, nofun⟩
  | @declared type kind length rest htype hfits =>
    rw [List.append_assoc, next?_declared _ _ htype hfits, next?_declared _ _ htype hfits]
    by_cases hover : maxPayload < length
    · rw [if_pos hover, if_pos hover]
      exact ⟨fun _ heq => heq, nofun⟩
    · rw [if_neg hover, if_neg hover]
      by_cases hshort : rest.length < length
      · rw [if_pos hshort]
        exact ⟨nofun, nofun⟩
      · have hlong : ¬ (rest ++ more).length < length := by
          rw [List.length_append]
          omega
        have hle : length ≤ rest.length := Nat.le_of_not_lt hshort
        rw [if_neg hshort, if_neg hlong, List.take_append_of_le_length hle, List.drop_append_of_le_length hle]
        refine ⟨nofun, fun frame tail heq => ?_⟩
        cases heq
        rfl

/-! ### All frames of a byte string -/

theorem parse_of_error {buffer : Bytes} {cause : ConnectionError} (h : next? buffer = .error cause) :
    parse buffer = ([], .failed cause) := by
  rw [parse]
  split <;> simp_all

theorem parse_of_none {buffer : Bytes} (h : next? buffer = .ok none) :
    parse buffer = ([], endingOf buffer) := by
  rw [parse]
  split <;> simp_all

theorem parse_of_some {buffer rest : Bytes} {frame : Frame} (h : next? buffer = .ok (some (frame, rest))) :
    parse buffer = (frame :: (parse rest).1, (parse rest).2) := by
  rw [parse]
  split <;> simp_all

theorem next?_frame {type : UInt8} (kind : UInt16) {payload : Bytes} (rest : Bytes) (htype : type ≤ 1)
    (hlength : payload.length ≤ maxPayload) :
    next? (header type kind payload.length ++ (payload ++ rest)) = .ok (some (ofParts type kind payload, rest)) := by
  have hshort : ¬ (payload ++ rest).length < payload.length := by
    rw [List.length_append]
    omega
  rw [next?_declared _ _ htype (Nat.lt_of_le_of_lt hlength maxPayload_lt_capacity),
    if_neg (Nat.not_lt.mpr hlength), if_neg hshort, List.take_left, List.drop_left]

theorem parse_frame {type : UInt8} (kind : UInt16) {payload : Bytes} (rest : Bytes) (htype : type ≤ 1)
    (hlength : payload.length ≤ maxPayload) :
    parse (header type kind payload.length ++ (payload ++ rest)) =
      (ofParts type kind payload :: (parse rest).1, (parse rest).2) :=
  parse_of_some (next?_frame kind rest htype hlength)

theorem Reads.parse_eq {bytes : Bytes} {frames : List Frame} {ending : Ending}
    (h : Reads bytes frames ending) : parse bytes = (frames, ending) := by
  induction h with
  | closed => exact parse_of_none rfl
  | frame htype hlength _ ih => rw [parse_frame _ _ htype hlength, ih]
  | invalid hnine h => exact parse_of_error (next?_invalid _ hnine h)
  | oversized htype hfits h =>
    refine parse_of_error ?_
    rw [next?_declared _ _ htype hfits, if_pos h]
  | @shortHeader bytes hne h =>
    rw [parse_of_none (next?_short h), endingOf, if_neg (by simpa using hne)]
  | @shortPayload type kind length rest htype hlength h =>
    have hnone : next? (header type kind length ++ rest) = .ok none := by
      rw [next?_declared _ _ htype (Nat.lt_of_le_of_lt hlength maxPayload_lt_capacity),
        if_neg (Nat.not_lt.mpr hlength), if_pos h]
    rw [parse_of_none hnone, endingOf, if_neg (by simp [header])]

theorem exists_reads (bytes : Bytes) : ∃ frames ending, Reads bytes frames ending := by
  induction hcount : bytes.length using Nat.strongRecOn generalizing bytes with
  | ind count ih =>
    cases head_cases bytes with
    | short h =>
      by_cases hempty : bytes = []
      · subst hempty
        exact ⟨[], .closed, .closed⟩
      · exact ⟨[], _, .shortHeader hempty h⟩
    | invalid hnine h => exact ⟨[], _, .invalid hnine h⟩
    | @declared type kind length rest htype hfits =>
      by_cases hover : maxPayload < length
      · exact ⟨[], _, .oversized htype hfits hover⟩
      · by_cases hshort : rest.length < length
        · exact ⟨[], _, .shortPayload htype (Nat.le_of_not_lt hover) hshort⟩
        · have htake : (rest.take length).length = length := List.length_take_of_le (Nat.le_of_not_lt hshort)
          have hfewer : (rest.drop length).length < count := by
            rw [List.length_append, length_header] at hcount
            rw [List.length_drop]
            omega
          obtain ⟨frames, ending, hreads⟩ := ih _ hfewer (rest.drop length) rfl
          have hframe : Reads (header type kind (rest.take length).length ++ (rest.take length ++ rest.drop length))
              (ofParts type kind (rest.take length) :: frames) ending :=
            .frame htype (by rw [htake]; omega) hreads
          rw [htake, List.take_append_drop] at hframe
          exact ⟨_, ending, hframe⟩

theorem reads_iff {bytes : Bytes} {frames : List Frame} {ending : Ending} :
    Reads bytes frames ending ↔ parse bytes = (frames, ending) := by
  refine ⟨Reads.parse_eq, fun h => ?_⟩
  obtain ⟨frames', ending', hreads⟩ := exists_reads bytes
  rw [hreads.parse_eq] at h
  cases h
  exact hreads

/-! ### Frames that are sent -/

def Fits : Frame → Prop
  | message _ payload => payload.length ≤ maxPayload
  | error status => (Archive.encode status).length ≤ maxPayload

instance : DecidablePred Fits
  | message _ payload => inferInstanceAs (Decidable (payload.length ≤ maxPayload))
  | error status => inferInstanceAs (Decidable ((Archive.encode status).length ≤ maxPayload))

theorem next?_bytes_append {frame : Frame} (h : frame.Fits) (rest : Bytes) :
    next? (frame.bytes ++ rest) = .ok (some (frame, rest)) := by
  cases frame with
  | message kind payload =>
    rw [bytes, List.append_assoc, next?_frame kind rest (by decide) h]
    rfl
  | error status =>
    have hread : Archive.decode (Archive.encode status) = some status :=
      Archive.decode_encode (Nat.lt_of_le_of_lt h (by simp [maxPayload]))
    simp only [bytes]
    rw [List.append_assoc, next?_frame 0 rest (by decide) h, ofParts, if_neg (by decide), hread]
    rfl

theorem parse_bytes_append {frame : Frame} (h : frame.Fits) (rest : Bytes) :
    parse (frame.bytes ++ rest) = (frame :: (parse rest).1, (parse rest).2) :=
  parse_of_some (next?_bytes_append h rest)

theorem parse_flatMap_append {frames : List Frame} (h : ∀ frame ∈ frames, frame.Fits) (rest : Bytes) :
    parse (frames.flatMap bytes ++ rest) = (frames ++ (parse rest).1, (parse rest).2) := by
  induction frames with
  | nil => rfl
  | cons frame frames ih =>
    obtain ⟨hfirst, hrest⟩ := List.forall_mem_cons.mp h
    rw [List.flatMap_cons, List.append_assoc, parse_bytes_append hfirst, ih hrest, List.cons_append]

theorem parse_flatMap_bytes {frames : List Frame} (h : ∀ frame ∈ frames, frame.Fits) :
    parse (frames.flatMap bytes) = (frames, .closed) := by
  have hclosed : parse [] = ([], .closed) := Reads.closed.parse_eq
  rw [← List.append_nil (frames.flatMap bytes), parse_flatMap_append h, hclosed, List.append_nil]

/-- Whether the header of a frame has room for the length of its payload. -/
def Declares : Frame → Prop
  | message _ payload => payload.length < Bytes.capacity 4
  | error status => (Archive.encode status).length < Bytes.capacity 4

instance : DecidablePred Declares
  | message _ payload => inferInstanceAs (Decidable (payload.length < Bytes.capacity 4))
  | error status => inferInstanceAs (Decidable ((Archive.encode status).length < Bytes.capacity 4))

theorem next?_message_over {kind : UInt16} {payload : Bytes} (hdeclared : payload.length < Bytes.capacity 4)
    (hover : maxPayload < payload.length) (rest : Bytes) :
    next? ((message kind payload).bytes ++ rest) =
      .error (.invalidData s!"Frame of {payload.length} bytes exceeds the limit of {maxPayload} bytes") := by
  rw [bytes, List.append_assoc, next?_declared kind _ (by decide) hdeclared, if_pos hover]

theorem next?_bytes_of_not_fits {frame : Frame} (h : frame.Declares) (hover : ¬ frame.Fits) (rest : Bytes) :
    ∃ cause, next? (frame.bytes ++ rest) = .error cause := by
  cases frame with
  | message kind payload => exact ⟨_, next?_message_over h (Nat.lt_of_not_le hover) rest⟩
  | error status =>
    refine ⟨.invalidData s!"Frame of {(Archive.encode status).length} bytes exceeds the limit of {maxPayload} bytes",
      ?_⟩
    simp only [bytes]
    rw [List.append_assoc, next?_declared 0 _ (by decide) h, if_pos (Nat.lt_of_not_le hover)]

theorem next?_of_incomplete {frame : Frame} (h : frame.Declares) {bytes missing : Bytes}
    (hbytes : frame.bytes = bytes ++ missing) (hmissing : missing ≠ []) (read : Frame) (rest : Bytes) :
    next? bytes ≠ .ok (some (read, rest)) := by
  intro hread
  have hlonger := (next?_append missing).2 read rest hread
  rw [← hbytes, ← List.append_nil frame.bytes] at hlonger
  by_cases hfits : frame.Fits
  · rw [next?_bytes_append hfits] at hlonger
    simp only [Except.ok.injEq, Option.some.injEq, Prod.mk.injEq] at hlonger
    exact hmissing (List.append_eq_nil_iff.mp hlonger.2.symm).2
  · obtain ⟨cause, herror⟩ := next?_bytes_of_not_fits h hfits []
    cases herror.symm.trans hlonger

/-- What is read of frames whose connection breaks at some byte is a beginning of these frames. -/
theorem parse_begins {frames : List Frame} (h : ∀ frame ∈ frames, frame.Declares) {bytes : Bytes}
    (hbytes : bytes <+: frames.flatMap Frame.bytes) : (parse bytes).1 <+: frames := by
  induction frames generalizing bytes with
  | nil =>
    rw [List.prefix_nil.mp hbytes]
    exact List.prefix_nil.mpr (congrArg Prod.fst Reads.closed.parse_eq)
  | cons frame frames ih =>
    obtain ⟨hfirst, hrest⟩ := List.forall_mem_cons.mp h
    rw [List.flatMap_cons] at hbytes
    by_cases hwhole : frame.bytes.length ≤ bytes.length
    · obtain ⟨more, rfl⟩ := List.prefix_of_prefix_length_le (List.prefix_append _ _) hbytes hwhole
      by_cases hfits : frame.Fits
      · rw [parse_bytes_append hfits]
        exact (List.prefix_cons_inj frame).mpr (ih hrest ((List.prefix_append_right_inj _).mp hbytes))
      · obtain ⟨cause, herror⟩ := next?_bytes_of_not_fits hfirst hfits more
        rw [parse_of_error herror]
        exact List.nil_prefix
    · have hpart : bytes <+: frame.bytes :=
        List.prefix_of_prefix_length_le hbytes (List.prefix_append _ _) (Nat.le_of_not_le hwhole)
      obtain ⟨missing, hmissing⟩ := hpart
      have hne : missing ≠ [] := by
        rintro rfl
        rw [List.append_nil] at hmissing
        exact hwhole (Nat.le_of_eq (congrArg List.length hmissing.symm))
      have hnone : (parse bytes).1 = [] := by
        rcases hnext : next? bytes with cause | _ | ⟨read, rest⟩
        · rw [parse_of_error hnext]
        · rw [parse_of_none hnext]
        · exact absurd hnext (next?_of_incomplete hfirst hmissing.symm hne read rest)
      rw [hnone]
      exact List.nil_prefix

theorem parse_declared_error {length : Nat} (hfits : length < Bytes.capacity 4) (rest : Bytes) :
    (parse (header 1 0 length ++ rest)).1 = [] ∨
      ∃ status more, (parse (header 1 0 length ++ rest)).1 = error status :: more := by
  have hknown : (1 : UInt8) ≤ 1 := by decide
  have hnext := next?_declared 0 rest hknown hfits
  by_cases hover : maxPayload < length
  · rw [if_pos hover] at hnext
    exact .inl (congrArg Prod.fst (parse_of_error hnext))
  · rw [if_neg hover] at hnext
    by_cases hshort : rest.length < length
    · rw [if_pos hshort] at hnext
      exact .inl (congrArg Prod.fst (parse_of_none hnext))
    · rw [if_neg hshort] at hnext
      exact .inr ⟨_, _, congrArg Prod.fst (parse_of_some hnext)⟩

/-- Whatever its length, an error that is sent is read as an error, or as a failure of the connection. -/
theorem parse_error_append (status : Status) (rest : Bytes) :
    (parse ((error status).bytes ++ rest)).1 = [] ∨
      ∃ read more, (parse ((error status).bytes ++ rest)).1 = error read :: more := by
  -- the header of a status too long for it declares what is left of the length
  have hheader (length : Nat) : header 1 0 length = header 1 0 (length % Bytes.capacity 4) := by
    have hlength := Bytes.ofNat_toNat (Bytes.ofNat 4 length)
    rw [Bytes.length_ofNat, Bytes.toNat_ofNat] at hlength
    rw [header, header, hlength]
  simp only [bytes]
  rw [List.append_assoc, hheader]
  exact parse_declared_error (Nat.mod_lt _ (Nat.zero_lt_of_lt maxPayload_lt_capacity)) _

end Frame

namespace Receiver

def unread (receiver : Receiver) : Bytes := receiver.buffer ++ receiver.incoming.flatten

/-- What a receiver yields next is the first frame of all its bytes, or their ending. -/
theorem parse_unread (receiver : Receiver) :
    (∀ frame after, receiver.next = (.ok frame, after) →
      Frame.parse receiver.unread = (frame :: (Frame.parse after.unread).1, (Frame.parse after.unread).2)) ∧
    ∀ ending after, receiver.next = (.error ending, after) → Frame.parse receiver.unread = ([], ending) := by
  obtain ⟨buffer, chunks⟩ := receiver
  unfold next
  -- a buffer without a verdict takes in one chunk more, so the induction is on the chunks that are left
  induction chunks generalizing buffer with
  | nil =>
    rw [unread, List.flatten_nil, List.append_nil]
    rcases hnext : Frame.next? buffer with cause | _ | ⟨first, rest⟩
    · simp only [await, hnext]
      refine ⟨fun _ _ h => (by cases h), fun ending after h => ?_⟩
      cases h
      exact Frame.parse_of_error hnext
    · simp only [await, hnext]
      refine ⟨fun _ _ h => (by cases h), fun ending after h => ?_⟩
      cases h
      exact Frame.parse_of_none hnext
    · simp only [await, hnext]
      refine ⟨fun frame after h => ?_, fun _ _ h => (by cases h)⟩
      cases h
      simpa [unread] using Frame.parse_of_some hnext
  | cons chunk chunks ih =>
    rcases hnext : Frame.next? buffer with cause | _ | ⟨first, rest⟩
    · simp only [await, hnext]
      refine ⟨fun _ _ h => (by cases h), fun ending after h => ?_⟩
      cases h
      exact Frame.parse_of_error ((Frame.next?_append _).1 cause hnext)
    · have hjoined : (Receiver.mk buffer (chunk :: chunks)).unread =
          (Receiver.mk (buffer ++ chunk) chunks).unread := by
        simp [unread]
      simp only [await, hnext, hjoined]
      exact ih (buffer ++ chunk)
    · simp only [await, hnext]
      refine ⟨fun frame after h => ?_, fun _ _ h => (by cases h)⟩
      cases h
      exact Frame.parse_of_some ((Frame.next?_append _).2 _ _ hnext)

theorem drain_eq_parse (receiver : Receiver) : receiver.drain = Frame.parse receiver.unread := by
  fun_induction drain receiver with
  | case1 receiver ending after hnext => rw [(parse_unread receiver).2 ending after hnext]
  | case2 receiver frame after hnext frames ending hrest ih =>
    rw [(parse_unread receiver).1 frame after hnext, ← ih, hrest]

/-- A buffer that cannot begin with a frame fails at once, without another chunk. -/
theorem next_invalid {buffer : Bytes} {cause : ConnectionError} (h : Frame.next? buffer = .error cause)
    (chunks : List Bytes) : (Receiver.mk buffer chunks).next = (.error (.failed cause), ⟨buffer, chunks⟩) := by
  unfold next
  cases chunks <;> simp only [await, h]

/-- However bytes are cut into chunks, a receiver reads the frames and the ending that the grammar says. A header
that is invalid or declares too much is refused before another chunk arrives, and frames that fit are read back
as they were sent. -/
theorem drain_iff_reads (chunks : List Bytes) :
    (∀ frames ending, (Receiver.mk [] chunks).drain = (frames, ending) ↔
      Frame.Reads chunks.flatten frames ending) ∧
    (∀ buffer reason, Frame.Reads buffer [] (.failed (.invalidData reason)) →
      (Receiver.mk buffer chunks).next = (.error (.failed (.invalidData reason)), ⟨buffer, chunks⟩)) ∧
    ∀ frames : List Frame, (∀ frame ∈ frames, frame.Fits) → chunks.flatten = frames.flatMap Frame.bytes →
      (Receiver.mk [] chunks).drain = (frames, .closed) := by
  have hdrain : (Receiver.mk [] chunks).drain = Frame.parse chunks.flatten := drain_eq_parse _
  refine ⟨fun frames ending => ?_, fun buffer reason hreads => ?_, fun frames hfits hchunks => ?_⟩
  · rw [hdrain, Frame.reads_iff]
  · refine next_invalid ?_ chunks
    cases hreads with
    | invalid hnine h => exact Frame.next?_invalid _ hnine h
    | oversized htype hfits h => rw [Frame.next?_declared _ _ htype hfits, if_pos h]
  · rw [hdrain, hchunks, Frame.parse_flatMap_bytes hfits]

/-- Two frames arrive in chunks that end within a header and within a payload. -/
theorem drain_iff_reads_cut :
    let frames := [Frame.message 3 [97, 98, 99], .error .timedOut]
    let chunks := [[0, 3, 0, 3], [0, 0, 0, 13, 10, 97, 98], (frames.flatMap Frame.bytes).drop 11]
    let oversized := Frame.header 0 1 4294967295
    (∀ frame ∈ frames, frame.Fits) ∧ chunks.flatten = frames.flatMap Frame.bytes ∧
      (Receiver.mk [] chunks).drain = (frames, .closed) ∧
      Frame.Reads oversized []
        (.failed (.invalidData "Frame of 4294967295 bytes exceeds the limit of 67108864 bytes")) ∧
      (Receiver.mk oversized chunks).next =
        (.error (.failed (.invalidData "Frame of 4294967295 bytes exceeds the limit of 67108864 bytes")),
          ⟨oversized, chunks⟩) := by
  intro frames chunks oversized
  have hfits : ∀ frame ∈ frames, frame.Fits := by decide +kernel
  have hchunks : chunks.flatten = frames.flatMap Frame.bytes := by decide +kernel
  have hreads : Frame.Reads oversized []
      (.failed (.invalidData "Frame of 4294967295 bytes exceeds the limit of 67108864 bytes")) :=
    @Frame.Reads.oversized 0 1 4294967295 [] (by decide) (by decide) (by decide)
  obtain ⟨-, hprompt, hsent⟩ := drain_iff_reads chunks
  exact ⟨hfits, hchunks, hsent frames hfits hchunks, hreads, hprompt oversized _ hreads⟩

end Receiver

end ReplicatedStore
