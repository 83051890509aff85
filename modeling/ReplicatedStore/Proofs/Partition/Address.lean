import Mathlib.Data.List.TakeWhile
import ReplicatedStore.Partition.Address
import ReplicatedStore.Proofs.Text.Digits
/-!
# Reading addresses back

An address is read back from its printed text, in either version. A reader takes what was printed and
leaves what follows, if that does not go on with a letter or a digit.
-/

namespace ReplicatedStore.SocketAddress

variable {rest cs : List Char}

/-! ### Numbers and separators -/

/-- A text that does not go on with a letter or a digit. -/
def Stops (rest : List Char) : Prop := ∀ c, rest.head? = some c → c.isAlphanum = false

theorem stops_nil : Stops [] := by simp [Stops]

theorem stops_cons {c : Char} (h : c.isAlphanum = false) (rest : List Char) : Stops (c :: rest) := by
  simpa [Stops] using h

@[simp] theorem readChar_cons (c : Char) (rest : List Char) : readChar c (c :: rest) = some rest := by
  rw [readChar, if_pos rfl]

theorem readChar_eq_some {c : Char} (h : readChar c cs = some rest) : cs = c :: rest := by
  cases cs with
  | nil => contradiction
  | cons d cs =>
    rw [readChar, Option.ite_none_right_eq_some, Option.some.injEq] at h
    rw [h.1, h.2]

private theorem takeWhile_digits {base : Nat} {digits : List Char}
    (hdigits : ∀ c ∈ digits, (Text.digit? base c).isSome = true) (hrest : Stops rest) :
    (digits ++ rest).takeWhile (fun c => (Text.digit? base c).isSome) = digits := by
  rw [List.takeWhile_append_of_pos hdigits]
  cases rest with
  | nil => simp
  | cons c rest => simp [Text.digit?_eq_none (hrest c rfl)]

private theorem digits_of_readNumber {base bound maxDigits : Nat} {leadingZeros : Bool} {read : Nat × List Char}
    (h : readNumber base bound maxDigits leadingZeros cs = some read) :
    ∃ n, Text.ofDigits? base (cs.takeWhile fun c => (Text.digit? base c).isSome) = some n ∧ read.2 <:+ cs := by
  obtain ⟨_, _, h⟩ := Option.bind_eq_some_iff.mp h
  obtain ⟨_, _, h⟩ := Option.bind_eq_some_iff.mp h
  obtain ⟨n, hn, h⟩ := Option.bind_eq_some_iff.mp h
  obtain ⟨_, _, h⟩ := Option.bind_eq_some_iff.mp h
  refine ⟨n, hn, ?_⟩
  rw [← Option.some.inj h]
  exact List.drop_suffix _ cs

theorem readNumber_eq_none {base bound maxDigits : Nat} {leadingZeros : Bool}
    (h : ∀ c, cs.head? = some c → Text.digit? base c = none) :
    readNumber base bound maxDigits leadingZeros cs = none := by
  have hdigits : cs.takeWhile (fun c => (Text.digit? base c).isSome) = [] := by
    cases cs with
    | nil => rfl
    | cons c cs => simp [h c rfl]
  apply Option.eq_none_iff_forall_ne_some.mpr
  intro read hread
  obtain ⟨n, hn, -⟩ := digits_of_readNumber hread
  rw [hdigits] at hn
  contradiction

theorem readNumber_of_stops {base bound maxDigits : Nat} {leadingZeros : Bool} (h : Stops rest) :
    readNumber base bound maxDigits leadingZeros rest = none :=
  readNumber_eq_none fun c hc => Text.digit?_eq_none (h c hc)

private theorem guard_of {p : Prop} [Decidable p] (h : p) : (guard p : Option Unit) = some () := if_pos h

theorem readNumber_toDigits {base bound maxDigits n : Nat} (leadingZeros : Bool) (hbase : 1 < base)
    (hsmall : base ≤ 16) (hn : n < bound) (hlength : (Nat.toDigits base n).length ≤ maxDigits)
    (hrest : Stops rest) :
    readNumber base bound maxDigits leadingZeros (Nat.toDigits base n ++ rest) = some (n, rest) := by
  have hdigits := takeWhile_digits (fun c => Text.isSome_digit?_of_mem (n := n) hbase hsmall) hrest
  have hzero : (leadingZeros || decide ((Nat.toDigits base n).length ≤ 1) ||
      (Nat.toDigits base n).head? != some '0') = true := by
    by_cases hpositive : 0 < n
    · simp [Text.head?_toDigits_ne hbase hpositive]
    · simp [Nat.eq_zero_of_not_pos hpositive]
  rw [readNumber, hdigits, guard_of hlength, guard_of hzero, Text.ofDigits?_toDigits hbase hsmall n]
  change (guard (n < bound) : Option Unit).bind (fun _ =>
    some (n, (Nat.toDigits base n ++ rest).drop (Nat.toDigits base n).length)) = some (n, rest)
  rw [guard_of hn, List.drop_left]
  rfl

theorem readLongNumber_toDigits {bound n : Nat} (hn : n < bound) (hrest : Stops rest) :
    readLongNumber bound (Nat.toDigits 10 n ++ rest) = some (n, rest) :=
  readNumber_toDigits true (by omega) (by omega) hn (by simp) hrest

/-! ### Version 4 -/

private def octet (ip shift : UInt32) : Nat := ((ip >>> shift) &&& 0xFF).toNat

private theorem toList_printV4 (ip : UInt32) : (printV4 ip).toList =
    Nat.toDigits 10 (octet ip 24) ++ '.' :: (Nat.toDigits 10 (octet ip 16) ++ '.' ::
      (Nat.toDigits 10 (octet ip 8) ++ '.' :: Nat.toDigits 10 (octet ip 0))) := by
  simp [printV4, octet]

private theorem octet_eq (ip shift : UInt32) : octet ip shift = ip.toNat >>> (shift.toNat % 32) % 256 := by
  have hmask : (0xFF : UInt32).toNat = 2 ^ 8 - 1 := rfl
  rw [octet, UInt32.toNat_and, UInt32.toNat_shiftRight, hmask, Nat.and_two_pow_sub_one_eq_mod]

private theorem octet_lt (ip shift : UInt32) : octet ip shift < 256 := by
  rw [octet_eq]
  omega

private theorem ofNat_octets (ip : UInt32) :
    UInt32.ofNat (((octet ip 24 * 256 + octet ip 16) * 256 + octet ip 8) * 256 + octet ip 0) = ip := by
  have hlt := ip.toNat_lt
  have hvalue : ((octet ip 24 * 256 + octet ip 16) * 256 + octet ip 8) * 256 + octet ip 0 = ip.toNat := by
    simp only [octet_eq, Nat.shiftRight_eq_div_pow, UInt32.reduceToNat, Nat.reduceMod, Nat.reducePow]
    omega
  rw [hvalue, UInt32.ofNat_toNat]

private theorem readOctet {n : Nat} (hn : n < 256) (h : Stops rest) :
    readNumber 10 256 3 false (Nat.toDigits 10 n ++ rest) = some (n, rest) := by
  have hlength : (Nat.toDigits 10 n).length ≤ 3 :=
    (Nat.length_toDigits_le_iff (by omega) (by omega)).mpr (by omega)
  exact readNumber_toDigits false (by omega) (by omega) hn hlength h

theorem readV4_printV4 (ip : UInt32) (h : Stops rest) :
    readV4 ((printV4 ip).toList ++ rest) = some (ip, rest) := by
  have hdot : ∀ rest, Stops ('.' :: rest) := stops_cons rfl
  simp only [toList_printV4, List.append_assoc, List.cons_append, readV4, readOctet (octet_lt ip _), hdot, h,
    readChar_cons, Option.bind_eq_bind, Option.bind_some, ofNat_octets, Option.pure_def]

theorem readV4_of_stops (h : Stops rest) : readV4 rest = none := by
  rw [readV4, readNumber_of_stops h]
  rfl

theorem readV4_eq_none (h : '.' ∉ cs) : readV4 cs = none := by
  by_contra hread
  obtain ⟨⟨ip, rest⟩, hread⟩ := Option.ne_none_iff_exists'.mp hread
  simp only [readV4, Option.bind_eq_bind, Option.bind_eq_some_iff] at hread
  obtain ⟨⟨a, after⟩, hfirst, others, hdot, -⟩ := hread
  have hafter : after = '.' :: others := readChar_eq_some hdot
  have hmem : '.' ∈ after := by simp [hafter]
  obtain ⟨-, -, hsuffix⟩ := digits_of_readNumber hfirst
  exact h (hsuffix.mem hmem)

/-! ### Groups -/

private def continued (groups : List UInt16) : List Char :=
  groups.flatMap fun group => ':' :: Nat.toDigits 16 group.toNat

private theorem toList_printGroups (group : UInt16) (groups : List UInt16) :
    (printGroups (group :: groups)).toList = Nat.toDigits 16 group.toNat ++ continued groups := by
  induction groups generalizing group with
  | nil => simp [printGroups, continued]
  | cons next groups ih =>
    have hrest := ih next
    simp only [printGroups, List.map_cons, String.intercalate_cons_cons, String.toList_append] at hrest ⊢
    simp [hrest, continued]

/-- A text with which no further group starts, be it the first one or not. -/
structure EndsGroups (rest : List Char) : Prop where
  stops : Stops rest
  colon : ∀ cs, rest = ':' :: cs → Stops cs

private theorem readSeparated_append {α : Type} (first : Bool) (read : List Char → Option (α × List Char))
    (cs : List Char) : readSeparated first read ((if first then [] else [':']) ++ cs) = read cs := by
  cases first <;> simp [readSeparated]

theorem readGroups_of_ends (first : Bool) (limit : Nat) (h : EndsGroups rest) :
    readGroups first limit rest = ([], false, rest) := by
  have hnone : ∀ {α : Type} (read : List Char → Option (α × List Char)),
      (∀ cs, Stops cs → read cs = none) → readSeparated first read rest = none := by
    intro α read hread
    cases first with
    | true => exact hread rest h.stops
    | false =>
      cases hcolon : readChar ':' rest with
      | none => simp [readSeparated, hcolon]
      | some cs => simpa [readSeparated, hcolon] using hread cs (h.colon cs (readChar_eq_some hcolon))
  cases limit with
  | zero => rw [readGroups]
  | succ limit =>
    rw [readGroups, hnone readV4 fun cs => readV4_of_stops, hnone _ fun cs => readNumber_of_stops, ite_self]

theorem readGroups_group (first : Bool) (limit : Nat) {group : UInt16}
    (hv4 : readV4 (Nat.toDigits 16 group.toNat ++ rest) = none) (hrest : Stops rest) :
    readGroups first (limit + 1) ((if first then [] else [':']) ++ (Nat.toDigits 16 group.toNat ++ rest)) =
      (group :: (readGroups false limit rest).1, (readGroups false limit rest).2) := by
  have hlength : (Nat.toDigits 16 group.toNat).length ≤ 4 :=
    (Nat.length_toDigits_le_iff (by omega) (by omega)).mpr group.toNat_lt
  have hgroup := readNumber_toDigits true (by omega) (by omega) group.toNat_lt hlength hrest
  rw [readGroups, readSeparated_append, readSeparated_append, hv4, hgroup, ite_self]
  simp

private theorem dot_not_mem_toDigits (n : Nat) : '.' ∉ Nat.toDigits 16 n :=
  Text.not_mem_toDigits (by omega) (by omega) rfl n

private theorem dot_not_mem_continued (groups : List UInt16) : '.' ∉ continued groups := by
  simp [continued, dot_not_mem_toDigits]

private theorem dot_not_mem_printGroups (groups : List UInt16) : '.' ∉ (printGroups groups).toList := by
  cases groups with
  | nil => simp [printGroups]
  | cons group groups => simp [toList_printGroups, dot_not_mem_toDigits, dot_not_mem_continued]

private theorem stops_continued (groups : List UInt16) (h : Stops rest) : Stops (continued groups ++ rest) := by
  cases groups with
  | nil => exact h
  | cons group groups => exact stops_cons rfl _

private theorem readGroups_group_continued (first : Bool) (limit : Nat) (group : UInt16) (groups : List UInt16)
    (h : Stops rest) (hdot : '.' ∉ rest) :
    readGroups first (limit + 1)
        ((if first then [] else [':']) ++ (Nat.toDigits 16 group.toNat ++ (continued groups ++ rest))) =
      (group :: (readGroups false limit (continued groups ++ rest)).1,
        (readGroups false limit (continued groups ++ rest)).2) := by
  apply readGroups_group first limit _ (stops_continued groups h)
  apply readV4_eq_none
  simp [dot_not_mem_toDigits, dot_not_mem_continued, hdot]

private theorem readGroups_continued {limit : Nat} {groups : List UInt16} (hlimit : groups.length ≤ limit)
    (h : EndsGroups rest) (hdot : '.' ∉ rest) :
    readGroups false limit (continued groups ++ rest) = (groups, false, rest) := by
  induction groups generalizing limit with
  | nil => exact readGroups_of_ends false limit h
  | cons group groups ih =>
    cases limit with
    | zero => simp at hlimit
    | succ limit =>
      have hstep := readGroups_group_continued false limit group groups h.stops hdot
      rw [ih (by simpa using hlimit)] at hstep
      simpa [continued] using hstep

/-- Groups are read back, up to what starts no further group. -/
theorem readGroups_printGroups {limit : Nat} (groups : List UInt16) (hlimit : groups.length ≤ limit)
    (h : EndsGroups rest) (hdot : '.' ∉ rest) :
    readGroups true limit ((printGroups groups).toList ++ rest) = (groups, false, rest) := by
  cases groups with
  | nil => simpa [printGroups] using readGroups_of_ends true limit h
  | cons group groups =>
    cases limit with
    | zero => simp at hlimit
    | succ limit =>
      have hstep := readGroups_group_continued true limit group groups h.stops hdot
      rw [readGroups_continued (by simpa using hlimit) h hdot] at hstep
      simpa [toList_printGroups] using hstep

/-! ### Version 6 -/

private theorem length_groups {front back : List UInt16} {groups : Vector UInt16 8} {zeros : Nat}
    (h : groups.toList = front ++ List.replicate zeros 0 ++ back) : front.length + zeros + back.length = 8 := by
  have hlength := congrArg List.length h
  simpa [Nat.add_assoc] using hlength.symm

theorem fillGroups_zeros {front back : List UInt16} {groups : Vector UInt16 8} (zeros : Nat)
    (h : groups.toList = front ++ List.replicate zeros 0 ++ back) : fillGroups front back = some groups := by
  have hzeros : 8 - front.length - back.length = zeros := by
    have hlength := length_groups h
    omega
  have hall : (front ++ List.replicate (8 - front.length - back.length) 0 ++ back).toArray.size = 8 := by
    rw [hzeros, ← h]
    simp
  rw [fillGroups, dif_pos hall, Option.some.injEq]
  apply Vector.toList_inj.mp
  simp [h, hzeros]

/-- The longest run of zeros lies within the list and consists of zeros. -/
theorem zeroRun_of_longest (position : Nat) (groups : List UInt16) :
    position ≤ (longestZeroRun position groups).1 ∧
      zeroRun (groups.drop ((longestZeroRun position groups).1 - position)) =
        (longestZeroRun position groups).2 := by
  induction groups generalizing position with
  | nil => simp [longestZeroRun, zeroRun]
  | cons group groups ih =>
    obtain ⟨hstart, hrun⟩ := ih (position + 1)
    simp only [longestZeroRun]
    split
    next => simp
    next =>
      have hdrop : (longestZeroRun (position + 1) groups).1 - position =
          (longestZeroRun (position + 1) groups).1 - (position + 1) + 1 := by omega
      refine ⟨by omega, ?_⟩
      rw [hdrop, List.drop_succ_cons, hrun]

theorem eq_zeros_append (groups : List UInt16) :
    groups = List.replicate (zeroRun groups) 0 ++ groups.drop (zeroRun groups) := by
  induction groups with
  | nil => rfl
  | cons group groups ih =>
    by_cases hzero : group = 0
    · have hrun : zeroRun (group :: groups) = zeroRun groups + 1 := by simp [zeroRun, hzero]
      rw [hrun, List.replicate_succ, List.cons_append, List.drop_succ_cons, ← ih, hzero]
    · have hrun : zeroRun (group :: groups) = 0 := by simp [zeroRun, hzero]
      simp [hrun]

/-- The groups that are printed, with the run of zeros that is left out between them. -/
theorem eq_take_zeros_drop {groups : List UInt16} {start length : Nat}
    (h : longestZeroRun 0 groups = (start, length)) :
    groups = groups.take start ++ List.replicate length 0 ++ groups.drop (start + length) := by
  obtain ⟨-, hrun⟩ := zeroRun_of_longest 0 groups
  rw [h, Nat.sub_zero] at hrun
  have hzeros := eq_zeros_append (groups.drop start)
  rw [hrun, List.drop_drop] at hzeros
  rw [List.append_assoc, ← hzeros, List.take_append_drop]

private theorem readV6_colons {front back : List UInt16} {groups : Vector UInt16 8} {zeros : Nat} {embedded : Bool}
    {tail : List Char} (hfront : readGroups true 8 cs = (front, false, ':' :: ':' :: tail))
    (hback : readGroups true (7 - front.length) tail = (back, embedded, rest))
    (hgroups : groups.toList = front ++ List.replicate zeros 0 ++ back) (hzeros : 0 < zeros) :
    readV6 cs = some (groups, rest) := by
  have hlength := length_groups hgroups
  have hne : front.length ≠ 8 := by omega
  simp [readV6, hfront, hback, hne, fillGroups_zeros zeros hgroups]

structure Closes (rest : List Char) : Prop where
  stops : Stops rest
  colon : rest.head? ≠ some ':'
  dot : '.' ∉ rest

theorem Closes.endsGroups (h : Closes rest) : EndsGroups rest where
  stops := h.stops
  colon cs hrest := absurd (by rw [hrest]; rfl) h.colon

private theorem endsGroups_colons (cs : List Char) : EndsGroups (':' :: ':' :: cs) where
  stops := stops_cons rfl _
  colon rest hrest := by
    rw [List.cons.injEq] at hrest
    rw [← hrest.2]
    exact stops_cons rfl _

private theorem readV6_compressed {front back : List UInt16} {groups : Vector UInt16 8} {zeros : Nat}
    (hgroups : groups.toList = front ++ List.replicate zeros 0 ++ back) (hzeros : 1 < zeros) (h : Closes rest) :
    readV6 ((printGroups front).toList ++ ':' :: ':' :: ((printGroups back).toList ++ rest)) =
      some (groups, rest) := by
  have hlength := length_groups hgroups
  have hdot : '.' ∉ ':' :: ':' :: ((printGroups back).toList ++ rest) := by
    simp [dot_not_mem_printGroups, h.dot]
  have hfrontLimit : front.length ≤ 8 := by omega
  have hbackLimit : back.length ≤ 7 - front.length := by omega
  have hfront := readGroups_printGroups front hfrontLimit (endsGroups_colons _) hdot
  have hback := readGroups_printGroups back hbackLimit h.endsGroups h.dot
  exact readV6_colons hfront hback hgroups (by omega)

private theorem readV6_full (groups : Vector UInt16 8) (h : Closes rest) :
    readV6 ((printGroups groups.toList).toList ++ rest) = some (groups, rest) := by
  have hlimit : groups.toList.length ≤ 8 := by simp
  have hread := readGroups_printGroups groups.toList hlimit h.endsGroups h.dot
  have hfill : fillGroups groups.toList [] = some groups := fillGroups_zeros 0 (by simp)
  simp [readV6, hread, hfill]

private def mappedGroups (ip : UInt32) : List UInt16 := [0xFFFF, (ip >>> 16).toUInt16, ip.toUInt16]

private theorem readV6_mapped {groups : Vector UInt16 8} {ip : UInt32} (h : Stops rest)
    (hgroups : groups.toList = [] ++ List.replicate 5 0 ++ mappedGroups ip) :
    readV6 ("::ffff:".toList ++ ((printV4 ip).toList ++ rest)) = some (groups, rest) := by
  have hbeginning : "::ffff:".toList = ':' :: ':' :: (Nat.toDigits 16 (0xFFFF : UInt16).toNat ++ [':']) := by
    decide
  -- The mask starts with a letter, so it is not taken for the first byte of an address.
  have hv4 :
      readV4 (Nat.toDigits 16 (0xFFFF : UInt16).toNat ++ ':' :: ((printV4 ip).toList ++ rest)) = none := by
    have hmask : Nat.toDigits 16 (0xFFFF : UInt16).toNat = ['f', 'f', 'f', 'f'] := by decide
    have hletter : Text.digit? 10 'f' = none := by decide +kernel
    rw [hmask, List.cons_append, readV4, readNumber_eq_none (by simpa using hletter)]
    rfl
  have hlast : readGroups false 6 (':' :: ((printV4 ip).toList ++ rest)) =
      ([(ip >>> 16).toUInt16, ip.toUInt16], true, rest) := by
    rw [readGroups]
    simp [readSeparated, readV4_printV4 ip h]
  have hback := readGroups_group true 6 hv4 (stops_cons rfl _)
  rw [hlast] at hback
  rw [hbeginning, List.cons_append, List.cons_append, List.append_assoc, List.singleton_append]
  exact readV6_colons (readGroups_of_ends true 8 (endsGroups_colons _)) hback hgroups (by omega)

private theorem halves_of_mapped (high low : UInt16) :
    ((high.toUInt32 <<< 16 ||| low.toUInt32) >>> 16).toUInt16 = high ∧
      (high.toUInt32 <<< 16 ||| low.toUInt32).toUInt16 = low := by
  have hhigh := high.toNat_lt
  have hlow := low.toNat_lt
  have hshift : (high.toUInt32 <<< 16).toNat = high.toNat <<< 16 := by
    have hlt : high.toNat <<< 16 < 2 ^ 32 := by rw [Nat.shiftLeft_eq]; omega
    simpa using Nat.mod_eq_of_lt hlt
  have hvalue : (high.toUInt32 <<< 16 ||| low.toUInt32).toNat = high.toNat * 65536 + low.toNat := by
    rw [UInt32.toNat_or, hshift, UInt16.toNat_toUInt32, ← Nat.shiftLeft_add_eq_or_of_lt low.toNat_lt,
      Nat.shiftLeft_eq]
  constructor
  · apply UInt16.toNat_inj.mp
    rw [UInt32.toNat_toUInt16, UInt32.toNat_shiftRight, hvalue, Nat.shiftRight_eq_div_pow]
    simp only [UInt32.reduceToNat, Nat.reduceMod, Nat.reducePow]
    omega
  · apply UInt16.toNat_inj.mp
    rw [UInt32.toNat_toUInt16, hvalue]
    omega

theorem readV6_printV6 (groups : Vector UInt16 8) (h : Closes rest) :
    readV6 ((printV6 groups.toList).toList ++ rest) = some (groups, rest) := by
  rw [printV6.eq_def]
  split
  next high low hgroups =>
    obtain ⟨hhigh, hlow⟩ := halves_of_mapped high low
    rw [String.toList_append, List.append_assoc]
    apply readV6_mapped h.stops
    rw [hgroups, mappedGroups, hhigh, hlow]
    rfl
  next =>
    cases hrun : longestZeroRun 0 groups.toList with
    | mk start length =>
      dsimp only
      split
      next hlong =>
        have hsplit := readV6_compressed (eq_take_zeros_drop hrun) hlong h
        simpa [String.toList_append] using hsplit
      next => exact readV6_full groups h

/-! ### Scopes, ports and whole addresses -/

theorem readPort_toDigits (port : UInt16) : readPort (':' :: Nat.toDigits 10 port.toNat) = some port := by
  have hread := readLongNumber_toDigits port.toNat_lt stops_nil
  rw [List.append_nil] at hread
  rw [readPort, readChar_cons]
  change (readLongNumber 65536 (Nat.toDigits 10 port.toNat)).bind _ = _
  rw [hread]
  exact congrArg some UInt16.ofNat_toNat

theorem readScope_toDigits (scope : UInt32) (h : Stops rest) :
    readScope ('%' :: (Nat.toDigits 10 scope.toNat ++ rest)) = some (scope.toNat, rest) := by
  have hread := readLongNumber_toDigits scope.toNat_lt h
  simp [readScope, hread]

private theorem closes_port {digits : List Char} (h : '.' ∉ digits) : Closes (']' :: ':' :: digits) where
  stops := stops_cons rfl _
  colon := by simp
  dot := by simp [h]

private theorem closes_scope {digits : List Char} (hdigits : '.' ∉ digits) (h : Closes rest) :
    Closes ('%' :: (digits ++ rest)) where
  stops := stops_cons rfl _
  colon := by simp
  dot := by simp [hdigits, h.dot]

theorem readStrict_print (address : SocketAddress) : readStrict address.print.toList = some address := by
  cases address with
  | v4 ip port =>
    have hcolon : Stops (':' :: Nat.toDigits 10 port.toNat) := stops_cons rfl _
    have hv4 := readV4_printV4 ip hcolon
    have hread : readSocketV4 (v4 ip port).print.toList = some (v4 ip port) := by
      simp [print, readSocketV4, hv4, readPort_toDigits]
    rw [readStrict, hread, Option.some_or]
  | v6 groups scope port =>
    have hdot : ∀ n, '.' ∉ Nat.toDigits 10 n := Text.not_mem_toDigits (by omega) (by omega) rfl
    have hport := closes_port (hdot port.toNat)
    have hread : readSocketV6 (v6 groups scope port).print.toList = some (v6 groups scope port) := by
      by_cases hzero : scope = 0
      · have hgroups := readV6_printV6 groups hport
        simp [print, readSocketV6, hzero, hgroups, readScope, readChar, readPort_toDigits]
      · have hgroups := readV6_printV6 groups (closes_scope (hdot scope.toNat) hport)
        have hbracket : Stops (']' :: ':' :: Nat.toDigits 10 port.toNat) := stops_cons rfl _
        have hzone := readScope_toDigits scope hbracket
        simp [print, readSocketV6, hzero, hgroups, hzone, readPort_toDigits]
    have hnone : readSocketV4 (v6 groups scope port).print.toList = none := by
      have hbracket : ∀ rest, readV4 ('[' :: rest) = none := fun rest => readV4_of_stops (stops_cons rfl rest)
      simp [print, readSocketV4, hbracket]
    rw [readStrict, hnone, hread, Option.none_or]

theorem read_print (resolver : Resolver) (address : SocketAddress) :
    read resolver address.print.toList = .ok address := by
  rw [read, readStrict_print]

/-! ### Hosts -/

/-- A host is reached at the first of its addresses of version 4, or at its first address if it has none. -/
theorem HostAddress.preferred?_eq_some_iff {addresses : List HostAddress} {found : HostAddress} :
    preferred? addresses = some found ↔
      ∃ before after, addresses = before ++ found :: after ∧
        (found.isV4 = true ∧ (∀ other ∈ before, other.isV4 = false) ∨
          before = [] ∧ ∀ other ∈ found :: after, other.isV4 = false) := by
  rw [preferred?, Option.or_eq_some_iff, List.find?_eq_some_iff_append, List.find?_eq_none,
    List.head?_eq_some_iff]
  constructor
  · rintro (⟨hv4, before, after, rfl, hbefore⟩ | ⟨hnone, after, rfl⟩)
    · exact ⟨before, after, rfl, .inl ⟨hv4, by simpa using hbefore⟩⟩
    · exact ⟨[], after, rfl, .inr ⟨rfl, by simpa using hnone⟩⟩
  · rintro ⟨before, after, rfl, ⟨hv4, hbefore⟩ | ⟨rfl, hall⟩⟩
    · exact .inl ⟨hv4, before, after, rfl, by simpa using hbefore⟩
    · exact .inr ⟨by simpa using hall, after, rfl⟩

/-! ### The characters of an address -/

def marks : List Char := ['.', ':', '[', ']', '%']

def Plain (cs : List Char) : Prop := ∀ c ∈ cs, c.isAlphanum = true ∨ c ∈ marks

@[simp] theorem plain_nil : Plain [] := by simp [Plain]

@[simp] theorem plain_cons {c : Char} : Plain (c :: cs) ↔ (c.isAlphanum = true ∨ c ∈ marks) ∧ Plain cs :=
  List.forall_mem_cons

@[simp] theorem plain_append {before after : List Char} :
    Plain (before ++ after) ↔ Plain before ∧ Plain after :=
  List.forall_mem_append

theorem plain_toDigits {base : Nat} (hbase : 1 < base) (hsmall : base ≤ 16) (n : Nat) :
    Plain (Nat.toDigits base n) :=
  fun _ hc => .inl (Text.isAlphanum_of_mem_toDigits hbase hsmall hc)

@[simp] private theorem plain_decimal (n : Nat) : Plain (Nat.toDigits 10 n) :=
  plain_toDigits (by omega) (by omega) n

private theorem plain_printV4 (ip : UInt32) : Plain (printV4 ip).toList := by
  simp [toList_printV4, marks]

private theorem plain_continued (groups : List UInt16) : Plain (continued groups) := by
  induction groups with
  | nil => simp [continued]
  | cons group groups ih =>
    have hdigits : Plain (Nat.toDigits 16 group.toNat) := plain_toDigits (by omega) (by omega) _
    simp only [continued, List.flatMap_cons] at ih ⊢
    simp [marks, hdigits, ih]

private theorem plain_printGroups (groups : List UInt16) : Plain (printGroups groups).toList := by
  cases groups with
  | nil => simp [printGroups]
  | cons group groups =>
    rw [toList_printGroups, plain_append]
    exact ⟨plain_toDigits (by omega) (by omega) _, plain_continued groups⟩

private theorem plain_printV6 (groups : List UInt16) : Plain (printV6 groups).toList := by
  rw [printV6.eq_def]
  split
  next => simp [plain_printV4, marks]
  next =>
    dsimp only
    split
    next => simp [plain_printGroups, marks]
    next => exact plain_printGroups groups

theorem plain_print (address : SocketAddress) : Plain address.print.toList := by
  cases address with
  | v4 ip port => simp [print, plain_printV4, marks]
  | v6 groups scope port =>
    by_cases hzero : scope = 0
    · simp [print, hzero, plain_printV6, marks]
    · simp [print, hzero, plain_printV6, marks]

theorem not_mem_print (address : SocketAddress) {c : Char} (h : c.isAlphanum = false) (hmark : c ∉ marks) :
    c ∉ address.print.toList := by
  intro hmem
  have hplain := plain_print address c hmem
  simp [h, hmark] at hplain

theorem isBlank_of_mem_print {address : SocketAddress} {c : Char} (h : c ∈ address.print.toList) :
    Text.isBlank c = false := by
  rcases plain_print address c h with halphanum | hmark
  · exact Text.isBlank_of_isAlphanum halphanum
  · have hmarks : marks.all (fun c => !Text.isBlank c) = true := rfl
    simpa using List.all_eq_true.mp hmarks c hmark

theorem print_ne_nil (address : SocketAddress) : address.print.toList ≠ [] := by
  cases address with
  | v4 ip port => simp [print]
  | v6 groups scope port => simp [print]

end ReplicatedStore.SocketAddress
