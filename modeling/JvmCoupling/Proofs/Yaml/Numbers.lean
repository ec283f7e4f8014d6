import JvmCoupling.Proofs.Text.ReadBack
import JvmCoupling.Yaml.Scalar
import Mathlib

/-! # Numbers as plain scalars

A decimal number stands for itself: it is neither one of the words with a meaning nor a date, and it does not announce
another base.

* `Number.parseAnyInt_decimalInt` — a number of 64 bits is read in base ten;
* `Yaml.resolve_decimalInt` — it is what its plain scalar stands for.
-/

namespace JvmCoupling

namespace Number

theorem digitValue?_digit {d : Nat} (small : d < 10) : digitValue? (0x30 + d.toUInt8) = some d := by
  interval_cases d <;> rfl

/-- One more digit. -/
theorem readDigits_digit {n d : Nat} (small : d < 10) (fits : n * 10 + d < 2 ^ 64) (rest : Bytes) :
    readDigits 10 n ((0x30 + d.toUInt8) :: rest) = readDigits 10 (n * 10 + d) rest := by
  have bound : ¬1 <<< 64 ≤ n * 10 + d := by rw [Nat.one_shiftLeft]; omega
  rw [readDigits, digitValue?_digit small]
  simp only [Nat.not_le.2 small, bound, if_false]

theorem readDigits_decimal {n : Nat} (fits : n < 2 ^ 64) (rest : Bytes) :
    readDigits 10 0 (Text.decimal n ++ rest) = readDigits 10 n rest := by
  fun_induction Text.decimal n generalizing rest with
  | case1 n small => simpa using readDigits_digit (n := 0) small (by omega) rest
  | case2 n large ih =>
    have last : n % 10 < 10 := Nat.mod_lt n (by decide)
    have whole : n / 10 * 10 + n % 10 = n := by omega
    rw [List.append_assoc, ih (by omega), List.singleton_append, readDigits_digit last (by omega), whole]

theorem underscoresFit_of_notMem {digits : Bytes} (absent : Bytes.underscore ∉ digits) (afterDigit : Bool) :
    underscoresFit afterDigit digits = true := by
  fun_induction underscoresFit afterDigit digits with
  | case1 => rfl
  | case2 _ b => exact decide_eq_true fun same => absent (by rw [same]; exact List.mem_cons_self)
  | case3 => simp at absent
  | case4 afterDigit b rest _ _ ih => exact ih fun member => absent (List.mem_cons_of_mem b member)

theorem splitBase_of_head? {text : Bytes} (first : text.head? ≠ some 0x30) : splitBase text = (10, text) := by
  unfold splitBase
  split
  · exact absurd rfl first
  · exact absurd rfl first
  · rfl

theorem splitSign_of_head? {text : Bytes} (first : ∀ b ∈ text.head?, Bytes.isDigit b = true) :
    splitSign text = (false, text) := by
  unfold splitSign
  split
  · cases first _ rfl
  · cases first _ rfl
  · rfl

theorem isDigit_of_mem_head?_decimal {n : Nat} : ∀ b ∈ (Text.decimal n).head?, Bytes.isDigit b = true :=
  fun b member => Text.isDigit_of_mem_decimal n b (List.mem_of_mem_head? member)

theorem parseAnyNat_decimal {n : Nat} (fits : n < 2 ^ 64) : parseAnyNat (Text.decimal n) = .ok n := by
  by_cases zero : n = 0
  · rw [zero, Text.decimal]
    rfl
  · have absent : Bytes.underscore ∉ Text.decimal n := fun member => by
      cases Text.isDigit_of_mem_decimal n _ member
    have kept : (Text.decimal n).filter (· ≠ Bytes.underscore) = Text.decimal n :=
      List.filter_eq_self.2 fun b member => decide_eq_true fun same => absent (same ▸ member)
    have base := splitBase_of_head? (Text.head?_decimal_ne_zero (Nat.pos_of_ne_zero zero))
    have read := readDigits_decimal fits []
    rw [List.append_nil] at read
    rw [parseAnyNat, if_neg (Text.decimal_ne_nil n), base]
    simp only [kept, read, readDigits, underscoresFit_of_notMem absent, if_true]

theorem parseAnyInt_decimalInt {n : Int} (low : -2 ^ 63 ≤ n) (high : n < 2 ^ 63) :
    parseAnyInt (Text.decimalInt n) = .ok n := by
  cases n with
  | ofNat n =>
    have bound : n < 2 ^ 63 := by simpa using high
    have fits : ¬1 <<< 63 ≤ n := by rw [Nat.one_shiftLeft]; omega
    have sign : parseAnyInt (Text.decimal n) = (parseAnyNat (Text.decimal n)).bind (signed false) := by
      rw [parseAnyInt, splitSign_of_head? isDigit_of_mem_head?_decimal]
      rfl
    rw [Text.decimalInt, sign, parseAnyNat_decimal (Nat.lt_trans bound (by decide))]
    exact if_neg fits
  | negSucc n =>
    have bound : n + 1 ≤ 2 ^ 63 := by omega
    have fits : ¬1 <<< 63 < n + 1 := by rw [Nat.one_shiftLeft]; omega
    have sign : parseAnyInt (Bytes.dash :: Text.decimal (n + 1)) =
        (parseAnyNat (Text.decimal (n + 1))).bind (signed true) := rfl
    rw [Text.decimalInt, sign, parseAnyNat_decimal (Nat.lt_of_le_of_lt bound (by decide))]
    exact if_neg fits

/-- A number is no date: there is no dash behind its first byte. -/
theorem Timestamp.parse?_decimalInt (n : Int) : Timestamp.parse? (Text.decimalInt n) = none := by
  have noDate : Timestamp.date? (Text.decimalInt n) = none := by
    cases n with
    | ofNat n =>
      have undashed : literal? Bytes.dash ((Text.decimal n).drop 4) = none := by
        cases shape : (Text.decimal n).drop 4 with
        | nil => rfl
        | cons b rest =>
          have digit := Text.isDigit_of_mem_decimal n b (List.mem_of_mem_drop (by rw [shape]; exact List.mem_cons_self))
          have other : b ≠ Bytes.dash := by rintro rfl; cases digit
          rw [literal?, if_neg other]
      rw [Text.decimalInt, date?, undashed]
      simp
    | negSucc n =>
      have dash : Bytes.isDigit Bytes.dash = false := rfl
      rw [Text.decimalInt, date?]
      simp [dash]
  rw [Timestamp.parse?, noDate]
  rfl

end Number

namespace Yaml

open Number

/-- A text that starts with a digit, or with a minus sign and a digit. -/
def startsNumber : Bytes → Bool
  | a :: b :: _ => Bytes.isDigit a || (a = Bytes.dash && Bytes.isDigit b)
  | [a] => Bytes.isDigit a
  | [] => false

theorem startsNumber_decimalInt (n : Int) : startsNumber (Text.decimalInt n) = true := by
  cases n with
  | ofNat n =>
    have digits := Text.isDigit_of_mem_decimal n
    rw [Text.decimalInt]
    cases shape : Text.decimal n with
    | nil => exact absurd shape (Text.decimal_ne_nil n)
    | cons a rest =>
      rw [shape] at digits
      have digit := digits a List.mem_cons_self
      cases rest with
      | nil => exact digit
      | cons b rest => rw [startsNumber, digit]; rfl
  | negSucc n =>
    have digits := Text.isDigit_of_mem_decimal (n + 1)
    rw [Text.decimalInt]
    cases shape : Text.decimal (n + 1) with
    | nil => exact absurd shape (Text.decimal_ne_nil (n + 1))
    | cons a rest =>
      rw [shape] at digits
      rw [startsNumber, digits a List.mem_cons_self]
      rfl

theorem first_of_startsNumber {a : UInt8} {rest : Bytes} (number : startsNumber (a :: rest) = true) :
    (Bytes.isDigit a || a = 0x2B || a = 0x2D) = true := by
  have cases : Bytes.isDigit a = true ∨ a = Bytes.dash := by
    cases rest with
    | nil => exact Or.inl number
    | cons b rest =>
      exact (Bool.or_eq_true_iff.1 number).imp_right fun both => by simpa using (Bool.and_eq_true_iff.1 both).1
  rcases cases with digit | rfl
  · rw [digit]
    rfl
  · rfl

/-- No word looks like a number. -/
theorem wordValue?_of_startsNumber {text : Bytes} (number : startsNumber text = true) : wordValue? text = none := by
  have words : ∀ entry ∈ wordValues, startsNumber (utf8 entry.1) = false := by decide +kernel
  rw [wordValue?, Option.map_eq_none_iff, List.find?_eq_none]
  rintro entry member same
  have word := words entry member
  rw [decide_eq_true_iff.1 same, number] at word
  cases word

/-- A number of 64 bits is read back. -/
theorem resolve_decimalInt {n : Int} (low : -2 ^ 63 ≤ n) (high : n < 2 ^ 63) :
    Scalar.resolve (Text.decimalInt n) = .int n := by
  have number := startsNumber_decimalInt n
  have digits (m : Nat) : ∀ b ∈ Text.decimal m, b ≠ Bytes.underscore := by
    rintro b member rfl
    cases Text.isDigit_of_mem_decimal m _ member
  have bytes : ∀ b ∈ Text.decimalInt n, b ≠ Bytes.underscore := by
    cases n with
    | ofNat n => exact digits n
    | negSucc n => exact List.forall_mem_cons.2 ⟨by decide, digits (n + 1)⟩
  have kept : (Text.decimalInt n).filter (· ≠ Bytes.underscore) = Text.decimalInt n :=
    List.filter_eq_self.2 fun b member => decide_eq_true (bytes b member)
  have value : numberValue? (Text.decimalInt n) = some (.int n) := by
    simp only [numberValue?, kept, Timestamp.parse?_decimalInt, parseAnyInt_decimalInt low high]
    rfl
  have noWord := wordValue?_of_startsNumber number
  cases shape : Text.decimalInt n with
  | nil =>
    rw [shape] at number
    cases number
  | cons a rest =>
    rw [shape] at number noWord value
    simp only [Scalar.resolve, noWord, first_of_startsNumber number, value]
    rfl

end Yaml

end JvmCoupling
