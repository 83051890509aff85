import ReplicatedStore.Proofs.Store.Contents
/-!
# The records of a segment

`Segment.Records` is the grammar of segments, and `Segment.Breaks` lists the ways in which the record that comes
next may break it. Reading a segment decides the grammar: it finds the entries of the records, or how the first
offending record offends. Read by positions, no byte is asked for that the buffer does not have.
-/

namespace ReplicatedStore

variable {κ σ : Type}

namespace Bytes

def remaining? (buffer : Bytes) (position : Nat) : Option Nat :=
  if position ≤ buffer.length then some (buffer.length - position) else none

def slice? (buffer : Bytes) (start length : Nat) : Option Bytes :=
  if start + length ≤ buffer.length then some (buffer.slice start length) else none

theorem remaining?_append (front rest : Bytes) :
    remaining? (front ++ rest) front.length = some rest.length := by
  have hlength : (front ++ rest).length = front.length + rest.length := List.length_append
  rw [remaining?, if_pos (by omega), Option.some.injEq]
  omega

theorem slice?_append (front part rest : Bytes) :
    slice? (front ++ (part ++ rest)) front.length part.length = some part := by
  have hlength : (front ++ (part ++ rest)).length = front.length + (part.length + rest.length) := by
    rw [List.length_append, List.length_append]
  rw [slice?, if_pos (by omega), slice, List.drop_left, List.take_left]

end Bytes

/-- How a store reports that the segment at a path cannot be read. -/
def SegmentError.report (path : String) : SegmentError → StoreError
  | .damaged fault => .corrupted (path ++ ": " ++ fault.message)
  | .undecodable cause => .codec cause

namespace Segment

/-- What precedes the payload of a record. -/
def header (length : Nat) (checksum : UInt32) : Bytes := Bytes.ofNat 4 length ++ Bytes.ofUInt32 checksum

/-- The bytes are a sequence of records, and the payloads decode to the entries. -/
inductive Records (codec : EntryCodec κ σ) : Bytes → List (Entry κ σ) → Prop
  | nil : Records codec [] []
  | cons {payload rest : Bytes} {entry : Entry κ σ} {entries : List (Entry κ σ)}
    (hfits : payload.length < UInt32.size) (hdecode : codec.decode payload = .ok entry)
    (hrest : Records codec rest entries) : Records codec (record payload ++ rest) (entry :: entries)

/-- What comes next in a segment is no record, or none that decodes. -/
inductive Breaks (codec : EntryCodec κ σ) : Bytes → SegmentError → Prop
  | shortHeader {bytes : Bytes} (hne : bytes ≠ []) (hshort : bytes.length < 8) :
    Breaks codec bytes (.damaged .shortHeader)
  | shortPayload {length : Nat} {checksum : UInt32} {body : Bytes} (hfits : length < UInt32.size)
    (hshort : body.length < length) : Breaks codec (header length checksum ++ body) (.damaged .shortPayload)
  | wrongChecksum {payload rest : Bytes} {checksum : UInt32} (hfits : payload.length < UInt32.size)
    (hwrong : Bytes.crc32 payload ≠ checksum) :
    Breaks codec (header payload.length checksum ++ (payload ++ rest)) (.damaged .wrongChecksum)
  | undecodable {payload rest : Bytes} {cause : CodecError} (hfits : payload.length < UInt32.size)
    (hdecode : codec.decode payload = .error cause) :
    Breaks codec (record payload ++ rest) (.undecodable cause)

/-- Reads the records from a position of the buffer on, and finds nothing once a position or a slice is not
inside the buffer. -/
def scan (codec : EntryCodec κ σ) (buffer : Bytes) (cursor : Nat) :
    Option (Except SegmentError (List (Entry κ σ))) :=
  if _hend : buffer.length ≤ cursor then some (.ok [])
  else
    (buffer.remaining? cursor).bind fun remaining =>
    if remaining < 8 then some (.error (.damaged .shortHeader))
    else
      (buffer.slice? cursor 4).bind fun length =>
      (buffer.slice? (cursor + 4) 4).bind fun checksum =>
      (buffer.remaining? (cursor + 8)).bind fun remaining =>
      if remaining < Bytes.toNat length then some (.error (.damaged .shortPayload))
      else
        (buffer.slice? (cursor + 8) (Bytes.toNat length)).bind fun payload =>
        if (Bytes.crc32 payload).toNat ≠ Bytes.toNat checksum then some (.error (.damaged .wrongChecksum))
        else
          match codec.decode payload with
          | .error cause => some (.error (.undecodable cause))
          | .ok entry => (scan codec buffer (cursor + 8 + Bytes.toNat length)).map fun rest => rest.map (entry :: ·)
termination_by buffer.length - cursor
decreasing_by omega

variable {codec : EntryCodec κ σ} {bytes : Bytes} {entries : List (Entry κ σ)} {error : SegmentError}

/-! ### The record that comes next -/

theorem length_header (length : Nat) (checksum : UInt32) : (header length checksum).length = 8 := by
  simp [header, Bytes.ofUInt32]

theorem record_eq (payload rest : Bytes) :
    record payload ++ rest = header payload.length (Bytes.crc32 payload) ++ (payload ++ rest) :=
  List.append_assoc ..

inductive Head : Bytes → Prop
  | short {bytes : Bytes} (hshort : bytes.length < 8) : Head bytes
  | headed {length : Nat} {checksum : UInt32} {body : Bytes} (hfits : length < UInt32.size) :
    Head (header length checksum ++ body)

theorem head_cases (bytes : Bytes) : Head bytes := by
  by_cases hshort : bytes.length < 8
  · exact .short hshort
  · obtain ⟨length, checksum, body, hlength, hchecksum, rfl⟩ : ∃ length checksum body : Bytes,
        length.length = 4 ∧ checksum.length = 4 ∧ bytes = length ++ (checksum ++ body) := by
      refine ⟨bytes.take 4, (bytes.drop 4).take 4, (bytes.drop 4).drop 4, ?_, ?_, ?_⟩
      · rw [List.length_take]
        omega
      · rw [List.length_take, List.length_drop]
        omega
      · rw [List.take_append_drop, List.take_append_drop]
    have hfits : Bytes.toNat length < UInt32.size := by
      have hlt := Bytes.toNat_lt length
      rwa [hlength] at hlt
    have hfits' : Bytes.toNat checksum < 2 ^ 32 := by
      have hlt := Bytes.toNat_lt checksum
      rwa [hchecksum] at hlt
    have hheader : header (Bytes.toNat length) (.ofNat (Bytes.toNat checksum)) = length ++ checksum := by
      have hfront := Bytes.ofNat_toNat length
      have hback := Bytes.ofNat_toNat checksum
      rw [hlength] at hfront
      rw [hchecksum] at hback
      rw [header, Bytes.ofUInt32, UInt32.toNat_ofNat', Nat.mod_eq_of_lt hfits', hfront, hback]
    rw [← List.append_assoc, ← hheader]
    exact .headed hfits

theorem read_short (hne : bytes ≠ []) (hshort : bytes.length < 8) :
    read codec bytes = .error (.damaged .shortHeader) := by
  unfold read
  split
  next => contradiction
  next =>
    simp only [List.length_cons] at hshort
    omega
  next => rfl

theorem read_header {length : Nat} (hfits : length < UInt32.size) (checksum : UInt32) (body : Bytes) :
    read codec (header length checksum ++ body) =
      if body.length < length then .error (.damaged .shortPayload)
      else if Bytes.crc32 (body.take length) ≠ checksum then .error (.damaged .wrongChecksum)
      else ((codec.decode (body.take length)).mapError .undecodable).bind fun entry =>
        (read codec (body.drop length)).map (entry :: ·) := by
  have hlength : Bytes.toNat (Bytes.ofNat 4 length) = length := Bytes.toNat_ofNat_of_lt hfits
  have hchecksum : Bytes.toNat (Bytes.ofNat 4 checksum.toNat) = checksum.toNat :=
    Bytes.toNat_ofNat_of_lt checksum.toNat_lt
  have hshort : (body.take length).length < length ↔ body.length < length := by
    rw [List.length_take]
    omega
  simp only [header, Bytes.ofUInt32, Bytes.ofNat, List.cons_append, List.nil_append] at hlength hchecksum ⊢
  rw [read]
  simp only [hlength, hchecksum, hshort, ne_eq, UInt32.toNat_inj]
  cases codec.decode (body.take length) <;> rfl

theorem Breaks.read_eq (h : Breaks codec bytes error) : read codec bytes = .error error := by
  cases h with
  | shortHeader hne hshort => exact read_short hne hshort
  | shortPayload hfits hshort => rw [read_header hfits, if_pos hshort]
  | @wrongChecksum payload rest _ hfits hwrong =>
    have hlong : ¬ (payload ++ rest).length < payload.length := by
      rw [List.length_append]
      omega
    rw [read_header hfits, if_neg hlong, List.take_left, if_pos hwrong]
  | @undecodable payload rest _ hfits hdecode =>
    have hlong : ¬ (payload ++ rest).length < payload.length := by
      rw [List.length_append]
      omega
    rw [record_eq, read_header hfits, if_neg hlong, List.take_left, if_neg (not_not.mpr rfl), hdecode]
    rfl

inductive Start (codec : EntryCodec κ σ) : Bytes → Prop
  | done : Start codec []
  | record {payload rest : Bytes} {entry : Entry κ σ} (hfits : payload.length < UInt32.size)
    (hdecode : codec.decode payload = .ok entry) : Start codec (record payload ++ rest)
  | broken {bytes : Bytes} {error : SegmentError} (h : Breaks codec bytes error) : Start codec bytes

theorem start_cases (codec : EntryCodec κ σ) (bytes : Bytes) : Start codec bytes := by
  cases head_cases bytes with
  | short hshort =>
    by_cases hne : bytes = []
    · rw [hne]
      exact .done
    · exact .broken (.shortHeader hne hshort)
  | @headed length checksum body hfits =>
    by_cases hshort : body.length < length
    · exact .broken (.shortPayload hfits hshort)
    · have hpayload : (body.take length).length = length := by
        rw [List.length_take]
        omega
      generalize hcut : body.take length = payload at hpayload
      have hbody : payload ++ body.drop length = body := by rw [← hcut, List.take_append_drop]
      rw [← hbody, ← hpayload]
      by_cases hchecksum : Bytes.crc32 payload = checksum
      · rw [← hchecksum, ← record_eq]
        cases hdecode : codec.decode payload with
        | ok entry => exact .record (hpayload ▸ hfits) hdecode
        | error cause => exact .broken (.undecodable (hpayload ▸ hfits) hdecode)
      · exact .broken (.wrongChecksum (hpayload ▸ hfits) hchecksum)

/-! ### The whole segment -/

theorem Records.read_append (h : Records codec bytes entries) (rest : Bytes) :
    read codec (bytes ++ rest) = (read codec rest).map (entries ++ ·) := by
  induction h with
  | nil =>
    rw [List.nil_append]
    cases read codec rest <;> rfl
  | cons hfits hdecode _ ih =>
    rw [List.append_assoc, read_record hdecode hfits, ih]
    cases read codec rest <;> rfl

theorem Records.read_eq (h : Records codec bytes entries) : read codec bytes = .ok entries := by
  have hread := h.read_append []
  rw [List.append_nil, read] at hread
  rw [hread]
  exact congrArg Except.ok (List.append_nil entries)

/-- A byte string is a sequence of records up to its end, or up to one that offends. -/
theorem records_or_breaks (codec : EntryCodec κ σ) (bytes : Bytes) :
    (∃ entries, Records codec bytes entries) ∨
      ∃ front entries rest error, bytes = front ++ rest ∧ Records codec front entries ∧ Breaks codec rest error := by
  induction hlength : bytes.length using Nat.strongRecOn generalizing bytes with
  | ind length ih =>
    cases start_cases codec bytes with
    | done => exact .inl ⟨[], .nil⟩
    | broken h => exact .inr ⟨[], [], _, _, rfl, .nil, h⟩
    | @record payload rest entry hfits hdecode =>
      have hless : rest.length < length := by
        rw [record_eq, List.length_append, length_header, List.length_append] at hlength
        omega
      rcases ih rest.length hless rest rfl with ⟨entries, hrest⟩ | ⟨front, entries, tail, error, rfl, hfront, htail⟩
      · exact .inl ⟨_, .cons hfits hdecode hrest⟩
      · exact .inr ⟨_, _, tail, error, (List.append_assoc ..).symm, .cons hfits hdecode hfront, htail⟩

theorem read_eq_ok_iff : read codec bytes = .ok entries ↔ Records codec bytes entries := by
  refine ⟨fun hread => ?_, Records.read_eq⟩
  rcases records_or_breaks codec bytes with ⟨found, hrecords⟩ | ⟨front, found, rest, error, rfl, hfront, hrest⟩
  · rw [hrecords.read_eq, Except.ok.injEq] at hread
    rwa [← hread]
  · rw [hfront.read_append, hrest.read_eq] at hread
    contradiction

/-- The first record that offends decides the error. -/
theorem read_eq_error_iff : read codec bytes = .error error ↔
    ∃ front entries rest, bytes = front ++ rest ∧ Records codec front entries ∧ Breaks codec rest error := by
  constructor
  · intro hread
    rcases records_or_breaks codec bytes with ⟨found, hrecords⟩ | ⟨front, found, rest, fault, rfl, hfront, hrest⟩
    · rw [hrecords.read_eq] at hread
      contradiction
    · rw [hfront.read_append, hrest.read_eq] at hread
      cases hread
      exact ⟨front, found, rest, rfl, hfront, hrest⟩
  · rintro ⟨front, entries, rest, rfl, hfront, hrest⟩
    rw [hfront.read_append, hrest.read_eq]
    rfl

/-! ### Reading by positions -/

theorem scan_short (front : Bytes) (hne : bytes ≠ []) (hshort : bytes.length < 8) :
    scan codec (front ++ bytes) front.length = some (.error (.damaged .shortHeader)) := by
  have hpos := List.length_pos_iff.mpr hne
  have hmore : ¬ (front ++ bytes).length ≤ front.length := by
    rw [List.length_append]
    omega
  rw [scan, dif_neg hmore, Bytes.remaining?_append, Option.bind_some, if_pos hshort]

theorem scan_header (front : Bytes) {length : Nat} (hfits : length < UInt32.size) (checksum : UInt32)
    (body : Bytes) (hrest : length ≤ body.length →
      scan codec (front ++ (header length checksum ++ body)) (front.length + 8 + length) =
        some (read codec (body.drop length))) :
    scan codec (front ++ (header length checksum ++ body)) front.length =
      some (read codec (header length checksum ++ body)) := by
  generalize hbuffer : front ++ (header length checksum ++ body) = buffer at hrest ⊢
  have htotal : buffer.length = front.length + (8 + body.length) := by
    rw [← hbuffer, List.length_append, List.length_append, length_header]
  have hremaining : buffer.remaining? front.length = some (8 + body.length) := by
    rw [← hbuffer, Bytes.remaining?_append, List.length_append, length_header]
  have hlength : buffer.slice? front.length 4 = some (Bytes.ofNat 4 length) := by
    rw [← hbuffer, header, List.append_assoc]
    exact Bytes.slice?_append front (Bytes.ofNat 4 length) _
  have hchecksum : buffer.slice? (front.length + 4) 4 = some (Bytes.ofUInt32 checksum) := by
    have hslice := Bytes.slice?_append (front ++ Bytes.ofNat 4 length) (Bytes.ofUInt32 checksum) body
    rw [List.length_append, Bytes.length_ofNat] at hslice
    rw [← hbuffer, header, ← hslice, List.append_assoc, List.append_assoc]
    rfl
  have hbehind : front ++ (header length checksum ++ body) = front ++ header length checksum ++ body :=
    (List.append_assoc ..).symm
  have hstart : (front ++ header length checksum).length = front.length + 8 := by
    rw [List.length_append, length_header]
  have hbody : buffer.remaining? (front.length + 8) = some body.length := by
    rw [← hbuffer, hbehind, ← hstart, Bytes.remaining?_append]
  have hfits' : Bytes.toNat (Bytes.ofNat 4 length) = length := Bytes.toNat_ofNat_of_lt hfits
  have hsum : Bytes.toNat (Bytes.ofUInt32 checksum) = checksum.toNat :=
    Bytes.toNat_ofNat_of_lt checksum.toNat_lt
  rw [scan, dif_neg (by omega), hremaining, Option.bind_some, if_neg (by omega), hlength, Option.bind_some,
    hchecksum, Option.bind_some, hbody, Option.bind_some, hfits', hsum, read_header hfits]
  by_cases hshort : body.length < length
  · rw [if_pos hshort, if_pos hshort]
  · have hpayload : buffer.slice? (front.length + 8) length = some (body.take length) := by
      have hslice := Bytes.slice?_append (front ++ header length checksum) (body.take length) (body.drop length)
      have hcut : (body.take length).length = length := by
        rw [List.length_take]
        omega
      rwa [hcut, hstart, List.take_append_drop, ← hbehind, hbuffer] at hslice
    rw [if_neg hshort, if_neg hshort, hpayload, Option.bind_some]
    simp only [ne_eq, UInt32.toNat_inj]
    split
    next => rfl
    next =>
      rw [hrest (Nat.le_of_not_lt hshort)]
      cases codec.decode (body.take length) <;> rfl

/-- Reading by positions never leaves the buffer, and finds what is read from front to back. -/
theorem scan_eq (codec : EntryCodec κ σ) (front bytes : Bytes) :
    scan codec (front ++ bytes) front.length = some (read codec bytes) := by
  induction hsize : bytes.length using Nat.strongRecOn generalizing front bytes with
  | ind size ih =>
    cases head_cases bytes with
    | short hshort =>
      by_cases hne : bytes = []
      · subst hne
        rw [scan, dif_pos (by rw [List.append_nil]), read]
      · rw [scan_short front hne hshort, read_short hne hshort]
    | @headed length checksum body hfits =>
      refine scan_header front hfits checksum body fun hle => ?_
      have hless : (body.drop length).length < size := by
        rw [← hsize, List.length_append, length_header, List.length_drop]
        omega
      have hcut : (body.take length).length = length := by
        rw [List.length_take]
        omega
      have hnext := ih _ hless (front ++ (header length checksum ++ body.take length)) (body.drop length) rfl
      rwa [List.length_append, List.length_append, length_header, hcut, ← Nat.add_assoc, List.append_assoc,
        List.append_assoc, List.take_append_drop] at hnext

end Segment

namespace FileStore

variable {codec : EntryCodec κ σ} {store after : FileStore} {name : String} {bytes : Bytes}

theorem readSegment_eq_report (hfile : store.folder.read name = .ok bytes) :
    store.readSegment codec name =
      (Segment.read codec bytes).mapError (SegmentError.report (store.path ++ "/" ++ name)) := by
  rw [readSegment, hfile]
  dsimp only
  cases Segment.read codec bytes with
  | ok entries => rfl
  | error fault => cases fault <;> rfl

theorem readSegment_eq_ok_iff (hfile : store.folder.read name = .ok bytes) {entries : List (Entry κ σ)} :
    store.readSegment codec name = .ok entries ↔ Segment.Records codec bytes entries := by
  rw [readSegment_eq_report hfile, ← Segment.read_eq_ok_iff]
  cases Segment.read codec bytes with
  | ok found => rw [Except.mapError, Except.ok.injEq, Except.ok.injEq]
  | error fault => exact ⟨nofun, nofun⟩

theorem readSegment_eq_error_iff (hfile : store.folder.read name = .ok bytes) {error : StoreError} :
    store.readSegment codec name = .error error ↔
      ∃ fault, Segment.read codec bytes = .error fault ∧ error = fault.report (store.path ++ "/" ++ name) := by
  rw [readSegment_eq_report hfile]
  cases Segment.read codec bytes with
  | ok found =>
    constructor
    · intro h
      cases h
    · rintro ⟨fault, h, -⟩
      cases h
  | error fault =>
    constructor
    · intro h
      cases h
      exact ⟨fault, rfl, rfl⟩
    · rintro ⟨fault, h, rfl⟩
      cases h
      rfl

theorem read_of_runWriting (h : store.runWriting (writeSteps store.nextName bytes) = (.ok (), after)) :
    after.folder.read store.nextName.file = .ok bytes := by
  rw [runWriting, writeSteps, Folder.run] at h
  cases hwrite : store.folder.apply (.write store.nextName.temporary bytes) with
  | error cause =>
    rw [hwrite] at h
    cases h
  | ok between =>
    simp only [hwrite, Folder.run] at h
    cases hrename : between.apply (.rename store.nextName.temporary store.nextName.file) with
    | error cause =>
      rw [hrename] at h
      cases h
    | ok folder =>
      rw [hrename] at h
      cases h
      exact Folder.read_of_rename (Folder.read_of_write hwrite) hrename

theorem exists_runWriting {files : String → Option Bytes} (h : store.folder.HasFiles files) (bytes : Bytes) :
    ∃ after, store.runWriting (writeSteps store.nextName bytes) = (.ok (), after) := by
  obtain ⟨folder, hrun, -⟩ := run_replacing h store.nextName bytes []
  rw [List.map_nil, List.append_nil] at hrun
  refine ⟨store.advanced folder, ?_⟩
  rw [runWriting, hrun]
  rfl

/-- Segments are read by their grammar. No byte is asked for that the buffer does not have. The entries found
are those of a sequence of records, and where the content of a file is no such sequence, the first record that
offends decides the error. Entries whose encodings fit in records are written, to any folder that has nothing
but files, and what was written is read back. -/
theorem readSegment_by_grammar (codec : EntryCodec κ σ) :
    (∀ buffer, Segment.scan codec buffer 0 = some (Segment.read codec buffer)) ∧
    (∀ (store : FileStore) name bytes, store.folder.read name = .ok bytes →
      (∀ entries, store.readSegment codec name = .ok entries ↔ Segment.Records codec bytes entries) ∧
      ∀ error, store.readSegment codec name = .error error ↔
        ∃ front entries rest fault, bytes = front ++ rest ∧ Segment.Records codec front entries ∧
          Segment.Breaks codec rest fault ∧ error = fault.report (store.path ++ "/" ++ name)) ∧
    (codec.Undoes → ∀ entries,
      (∀ entry ∈ entries, ∃ payload, codec.encode entry = .ok payload ∧ payload.length < UInt32.size) →
      ∃ content, Segment.write codec entries = .ok content ∧
        (∀ (store : FileStore) files, store.folder.HasFiles files →
          ∃ after, store.runWriting (writeSteps store.nextName content) = (.ok (), after)) ∧
        ∀ store after : FileStore, store.runWriting (writeSteps store.nextName content) = (.ok (), after) →
          after.readSegment codec store.nextName.file = .ok entries) := by
  refine ⟨Segment.scan_eq codec [], fun store name bytes hfile => ⟨fun entries => readSegment_eq_ok_iff hfile, ?_⟩,
    fun hcodec entries hfits => ?_⟩
  · intro error
    rw [readSegment_eq_error_iff hfile]
    constructor
    · rintro ⟨fault, hread, rfl⟩
      obtain ⟨front, entries, rest, hbytes, hfront, hrest⟩ := Segment.read_eq_error_iff.mp hread
      exact ⟨front, entries, rest, fault, hbytes, hfront, hrest, rfl⟩
    · rintro ⟨front, entries, rest, fault, hbytes, hfront, hrest, rfl⟩
      exact ⟨fault, Segment.read_eq_error_iff.mpr ⟨front, entries, rest, hbytes, hfront, hrest⟩, rfl⟩
  · have hrestores : ∀ entry ∈ entries, codec.Restores entry := by
      intro entry hmem
      obtain ⟨payload, hencode, hlength⟩ := hfits entry hmem
      exact ⟨payload, hencode, hcodec entry payload hencode, hlength⟩
    obtain ⟨content, hwrite, hread⟩ := Segment.exists_write hrestores
    refine ⟨content, hwrite, fun store files hfiles => exists_runWriting hfiles content, fun store after hrun => ?_⟩
    exact readSegment_eq (read_of_runWriting hrun) hread

/-- A record, and then the first three bytes of another. -/
theorem readSegment_by_grammar_of_cut :
    let codec := EntryCodec.archived UInt64 UInt64
    let entry : Entry UInt64 UInt64 := ⟨1, 4, 7⟩
    let content := Segment.record (Archive.encode entry) ++ [24, 0, 0]
    let store : FileStore := ⟨"/data", .items ((∅ : Std.TreeMap String FolderItem).insert "a.seg" (.file content)),
      0, ∅, 0, 0, 0⟩
    store.readSegment codec "a.seg" = .error (.corrupted "/data/a.seg: truncated record header") ∧
      ∃ after : FileStore, after.readSegment codec store.nextName.file = .ok [entry] := by
  intro codec entry content store
  have hfile : store.folder.read "a.seg" = .ok content :=
    Folder.read_eq_ok_iff.mpr ⟨_, rfl, Std.TreeMap.getElem?_insert_self⟩
  have hfits : (Archive.encode entry).length < UInt32.size := by
    rw [EntryCodec.length_encode_words]
    decide
  have hfiles : store.folder.HasFiles (Function.update (fun _ => none) "a.seg" (some content)) :=
    ⟨_, rfl, Folder.Lists.insert (fun path => by simp) "a.seg" content⟩
  obtain ⟨-, hread, hwritten⟩ := readSegment_by_grammar codec
  obtain ⟨-, herror⟩ := hread store "a.seg" content hfile
  refine ⟨(herror _).mpr ?_, ?_⟩
  · exact ⟨Segment.record (Archive.encode entry), [entry], [24, 0, 0], .damaged .shortHeader, rfl,
      List.append_nil (Segment.record _) ▸ .cons hfits (EntryCodec.archived_undoes entry _ rfl) .nil,
      .shortHeader (List.cons_ne_nil _ _) (by decide), rfl⟩
  · obtain ⟨bytes, -, hrun, hback⟩ := hwritten EntryCodec.archived_undoes [entry]
      (List.forall_mem_singleton.mpr ⟨_, rfl, hfits⟩)
    obtain ⟨after, hafter⟩ := hrun store _ hfiles
    exact ⟨after, hback store after hafter⟩

end FileStore

end ReplicatedStore
