import Mathlib.Data.Nat.Basic
import ReplicatedStore.Text.Blank
import ReplicatedStore.Text.Number
/-!
# Digits

A number is read back from its digits in a base up to sixteen. The digits are those that count in the
base, and only the digits of zero start with a zero.
-/

namespace ReplicatedStore.Text

variable {base n : Nat} {c : Char}

/-! ### Letters and digits -/

theorem isAlphanum_iff : c.isAlphanum = true ↔
    (65 ≤ c.toNat ∧ c.toNat ≤ 90) ∨ (97 ≤ c.toNat ∧ c.toNat ≤ 122) ∨ (48 ≤ c.toNat ∧ c.toNat ≤ 57) := by
  have hranges : c.isAlphanum = ((decide (65 ≤ c.toNat ∧ c.toNat ≤ 90) || (97 ≤ c.toNat && c.toNat ≤ 122)) ||
      (48 ≤ c.toNat && c.toNat ≤ 57)) := rfl
  simp [hranges, or_assoc]

theorem isBlank_of_isAlphanum (h : c.isAlphanum = true) : isBlank c = false := by
  rw [isAlphanum_iff] at h
  simp only [isBlank, Bool.or_eq_false_iff, Bool.and_eq_false_iff, decide_eq_false_iff_not]
  omega

/-! ### The digits of a number -/

/-- Numbers of one digit, and those with one digit more. -/
theorem digit_induction {motive : Nat → Prop} (hbase : 1 < base) (one : ∀ d < base, motive d)
    (more : ∀ n d, 0 < n → d < base → motive n → motive (base * n + d)) (n : Nat) : motive n := by
  induction n using Nat.strongRecOn with
  | ind n ih =>
    by_cases hlt : n < base
    · exact one n hlt
    · have hfront := ih (n / base) (Nat.div_lt_self (by omega) hbase)
      have hpositive : 0 < n / base := Nat.div_pos (by omega) (by omega)
      have hn := more (n / base) (n % base) hpositive (Nat.mod_lt n (by omega)) hfront
      rwa [Nat.div_add_mod] at hn

theorem toDigits_more (hbase : 1 < base) {d : Nat} (hn : 0 < n) (hd : d < base) :
    Nat.toDigits base (base * n + d) = Nat.toDigits base n ++ [d.digitChar] := by
  rw [← Nat.toDigits_append_toDigits hbase hn hd, Nat.toDigits_of_lt_base hd]

theorem exists_of_mem_toDigits (hbase : 1 < base) (h : c ∈ Nat.toDigits base n) :
    ∃ d < base, c = d.digitChar := by
  induction n using digit_induction hbase with
  | one d hd =>
    rw [Nat.toDigits_of_lt_base hd, List.mem_singleton] at h
    exact ⟨d, hd, h⟩
  | more n d hn hd ih =>
    rw [toDigits_more hbase hn hd, List.mem_append, List.mem_singleton] at h
    rcases h with h | h
    · exact ih h
    · exact ⟨d, hd, h⟩

theorem isAlphanum_of_mem_toDigits (hbase : 1 < base) (hsmall : base ≤ 16) (h : c ∈ Nat.toDigits base n) :
    c.isAlphanum = true := by
  have hdigit : ∀ d : Fin 16, (Nat.digitChar d).isAlphanum = true := by decide
  obtain ⟨d, hd, rfl⟩ := exists_of_mem_toDigits hbase h
  exact hdigit ⟨d, by omega⟩

theorem not_mem_toDigits (hbase : 1 < base) (hsmall : base ≤ 16) (h : c.isAlphanum = false) (n : Nat) :
    c ∉ Nat.toDigits base n := by
  intro hmem
  rw [isAlphanum_of_mem_toDigits hbase hsmall hmem] at h
  contradiction

theorem head?_toDigits_ne (hbase : 1 < base) (hn : 0 < n) : (Nat.toDigits base n).head? ≠ some '0' := by
  induction n using digit_induction hbase with
  | one d hd =>
    rw [Nat.toDigits_of_lt_base hd]
    simpa [Nat.digitChar_eq_zero] using Nat.ne_of_gt hn
  | more n d hfront hd ih =>
    rw [toDigits_more hbase hfront hd, List.head?_append, Option.or_of_isSome (by simp [Nat.toDigits_ne_nil])]
    exact ih hfront

/-! ### Reading digits -/

theorem digit?_eq_none (h : c.isAlphanum = false) : digit? base c = none := by
  rw [← Bool.not_eq_true, isAlphanum_iff] at h
  have hle : ∀ a b : Char, a ≤ b ↔ a.toNat ≤ b.toNat := fun _ _ => Iff.rfl
  have hdecimal : ¬('0' ≤ c ∧ c ≤ '9') := by simp only [hle]; simp; omega
  have hlower : ¬('a' ≤ c ∧ c ≤ 'z') := by simp only [hle]; simp; omega
  have hupper : ¬('A' ≤ c ∧ c ≤ 'Z') := by simp only [hle]; simp; omega
  rw [digit?, if_neg hdecimal, if_neg hlower, if_neg hupper]
  rfl

theorem digit?_digitChar (hsmall : base ≤ 16) {d : Nat} (hd : d < base) : digit? base d.digitChar = some d := by
  have hvalue : ∀ d : Fin 16, digit? 16 (Nat.digitChar d) = some d.val := by decide
  have h16 := hvalue ⟨d, by omega⟩
  rw [digit?, Option.filter_eq_some_iff] at h16
  rw [digit?, h16.1, Option.filter_some_pos (by simpa using hd)]

theorem isSome_digit?_of_mem (hbase : 1 < base) (hsmall : base ≤ 16) (h : c ∈ Nat.toDigits base n) :
    (digit? base c).isSome = true := by
  obtain ⟨d, hd, rfl⟩ := exists_of_mem_toDigits hbase h
  rw [digit?_digitChar hsmall hd]
  rfl

theorem ofDigits?_eq_foldlM {cs : List Char} (h : cs ≠ []) :
    ofDigits? base cs = cs.foldlM (fun n c => (digit? base c).map (n * base + ·)) 0 := by
  cases cs with
  | nil => contradiction
  | cons c cs => rfl

theorem ofDigits?_toDigits (hbase : 1 < base) (hsmall : base ≤ 16) (n : Nat) :
    ofDigits? base (Nat.toDigits base n) = some n := by
  induction n using digit_induction hbase with
  | one d hd =>
    rw [Nat.toDigits_of_lt_base hd, ofDigits?_eq_foldlM (by simp)]
    simp [digit?_digitChar hsmall hd]
  | more n d hn hd ih =>
    rw [ofDigits?_eq_foldlM Nat.toDigits_ne_nil] at ih
    rw [toDigits_more hbase hn hd, ofDigits?_eq_foldlM (by simp), List.foldlM_append, ih]
    simp [digit?_digitChar hsmall hd, Nat.mul_comm]

theorem unsigned?_toDigits {bound : Nat} (h : n < bound) : unsigned? bound (Nat.toDigits 10 n) = some n := by
  have hread : ofDigits? 10 (Nat.toDigits 10 n) = some n := ofDigits?_toDigits (by omega) (by omega) n
  rw [unsigned?, hread, Option.filter_some_pos (by simpa using h)]
  intro rest hplus
  have hmem : '+' ∈ Nat.toDigits 10 n := by simp [hplus]
  exact not_mem_toDigits (by omega) (by omega) rfl n hmem

end ReplicatedStore.Text
