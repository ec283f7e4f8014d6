import JvmCoupling.Text.Base64
import JvmCoupling.Text.Csv
import Mathlib.Tactic.IntervalCases

/-! # Reading written text back

Decimal numbers and comma separated records are read by the usual rules, without knowing how they were written.
What was written is read back unchanged, whatever bytes the fields hold.  So are bytes in base 64.

* `Text.readInt?`, `Text.readInt?_decimalInt` — decimal numbers of any size;
* `Text.decodeBase64?_base64`, `Text.decodeBase64?_cutLines` — base 64, on one line or on several;
* `Csv.Reader`, `Csv.readRecords?` — records of fields, where quoted fields are taken as they stand;
* `Csv.readRecords?_lines` — written lines are read back.
-/

namespace JvmCoupling

/-! ## Decimal numbers -/

namespace Text

def digit? (b : UInt8) : Option Nat := if Bytes.isDigit b then some (b.toNat - 0x30) else none

/-- The number that digits stand for; none for an empty text or another byte. -/
def readNat? (s : Bytes) : Option Nat :=
  if s = [] then none else s.foldlM (fun n b => (digit? b).map (10 * n + ·)) 0

/-- A number with or without a minus sign. -/
def readInt? : Bytes → Option Int
  | [] => none
  | b :: rest => if b = Bytes.dash then (readNat? rest).map fun n => -n else (readNat? (b :: rest)).map Int.ofNat

theorem digit?_of_lt {d : Nat} (small : d < 10) : digit? (0x30 + d.toUInt8) = some d := by
  interval_cases d <;> decide

theorem decimal_ne_nil (n : Nat) : decimal n ≠ [] := by
  unfold decimal
  split <;> simp

theorem readNat?_decimal (n : Nat) : readNat? (decimal n) = some n := by
  rw [readNat?, if_neg (decimal_ne_nil n)]
  fun_induction decimal n with
  | case1 n small => simp [digit?_of_lt small]
  | case2 n large ih =>
    have last : n % 10 < 10 := Nat.mod_lt n (by decide)
    rw [List.foldlM_append, ih]
    simp [digit?_of_lt last, Nat.div_add_mod]

theorem head?_decimal_ne_dash (n : Nat) : (decimal n).head? ≠ some Bytes.dash := by
  intro dash
  have read := readNat?_decimal n
  obtain ⟨rest, shape⟩ := List.head?_eq_some_iff.1 dash
  have refused : digit? Bytes.dash = none := by decide
  simp [shape, readNat?, refused] at read

theorem readInt?_decimalInt (i : Int) : readInt? (decimalInt i) = some i := by
  cases i with
  | ofNat n =>
    have unsigned := head?_decimal_ne_dash n
    have read := readNat?_decimal n
    rw [decimalInt]
    cases shape : decimal n with
    | nil => exact absurd shape (decimal_ne_nil n)
    | cons b rest =>
      have different : b ≠ Bytes.dash := by simpa [shape] using unsigned
      rw [readInt?, if_neg different, ← shape, read]
      rfl
  | negSucc n =>
    rw [decimalInt, readInt?, if_pos rfl, readNat?_decimal]
    rfl

theorem isDigit_digit {d : Nat} (small : d < 10) : Bytes.isDigit (0x30 + d.toUInt8) = true := by
  interval_cases d <;> rfl

theorem isDigit_of_mem_decimal (n : Nat) : ∀ b ∈ decimal n, Bytes.isDigit b = true := by
  fun_induction decimal n with
  | case1 n small => simpa using isDigit_digit small
  | case2 n large ih =>
    intro b member
    rcases List.mem_append.1 member with front | last
    · exact ih b front
    · rw [List.mem_singleton.1 last]
      exact isDigit_digit (Nat.mod_lt n (by decide))

/-- There are no leading zeros. -/
theorem head?_decimal_ne_zero {n : Nat} (positive : 0 < n) : (decimal n).head? ≠ some 0x30 := by
  fun_induction decimal n with
  | case1 n small => interval_cases n <;> decide
  | case2 n large ih =>
    have front := ih (by omega)
    obtain ⟨b, rest, shape⟩ := List.exists_cons_of_ne_nil (decimal_ne_nil (n / 10))
    rw [shape] at front ⊢
    exact front

/-! ## Base 64 -/

theorem base64Value?_base64Char {n : Nat} (small : n < 64) : base64Value? (base64Char n) = some n := by
  have all : ∀ n < 64, base64Value? (base64Char n) = some n := by decide
  exact all n small

theorem base64Char_ne_equals {n : Nat} (small : n < 64) : base64Char n ≠ Bytes.equals := by
  intro same
  have value := base64Value?_base64Char small
  rw [same] at value
  cases value

/-- The values of the characters of a group give its number. -/
theorem groups_of_six {n : Nat} (small : n < 2 ^ 24) :
    n >>> 18 < 64 ∧ n >>> 12 % 64 < 64 ∧ n >>> 6 % 64 < 64 ∧ n % 64 < 64 ∧
      (n >>> 18) <<< 18 + (n >>> 12 % 64) <<< 12 + (n >>> 6 % 64) <<< 6 + n % 64 = n := by
  simp only [Nat.shiftLeft_eq, Nat.shiftRight_eq_div_pow]
  omega

theorem decodeGroups?_group {n : Nat} (small : n < 2 ^ 24) (rest : Bytes) :
    decodeGroups? (base64Group n ++ rest) = (decodeGroups? rest).map (groupBytes 3 n ++ ·) := by
  obtain ⟨first, second, third, fourth, whole⟩ := groups_of_six small
  simp only [base64Group, List.cons_append, List.nil_append, decodeGroups?, base64Value?_base64Char first,
    base64Value?_base64Char second, base64Value?_base64Char third, base64Value?_base64Char fourth, whole,
    base64Char_ne_equals third, base64Char_ne_equals fourth, Option.bind_eq_bind, Option.bind_some]
  cases decodeGroups? rest with
  | none => rfl
  | some bytes => simp

/-- The three bytes of a number. -/
theorem groupBytes_three (a b c : UInt8) :
    groupBytes 3 (a.toNat <<< 16 + b.toNat <<< 8 + c.toNat) = [a, b, c] := by
  have ha := a.toNat_lt
  have hb := b.toNat_lt
  have hc := c.toNat_lt
  have first : (a.toNat <<< 16 + b.toNat <<< 8 + c.toNat) >>> 16 = a.toNat := by
    simp only [Nat.shiftLeft_eq, Nat.shiftRight_eq_div_pow]; omega
  have second : (a.toNat <<< 16 + b.toNat <<< 8 + c.toNat) >>> 8 % 256 = b.toNat := by
    simp only [Nat.shiftLeft_eq, Nat.shiftRight_eq_div_pow]; omega
  have third : (a.toNat <<< 16 + b.toNat <<< 8 + c.toNat) % 256 = c.toNat := by
    simp only [Nat.shiftLeft_eq]; omega
  simp [groupBytes, first, second, third]

theorem decodeGroups?_base64 (s : Bytes) : decodeGroups? (base64 s) = some s := by
  have bound (a b c : UInt8) : a.toNat <<< 16 + b.toNat <<< 8 + c.toNat < 2 ^ 24 := by
    have ha := a.toNat_lt
    have hb := b.toNat_lt
    have hc := c.toNat_lt
    simp only [Nat.shiftLeft_eq]
    omega
  fun_induction base64 s with
  | case1 a b c rest ih =>
    rw [decodeGroups?_group (bound a b c), ih, groupBytes_three]
    rfl
  | case2 a b =>
    have bytes := groupBytes_three a b 0
    have small := bound a b 0
    simp only [UInt8.toNat_zero, Nat.add_zero] at bytes small
    obtain ⟨first, second, third, -, whole⟩ := groups_of_six small
    have filled : (a.toNat <<< 16 + b.toNat <<< 8) % 64 = 0 := by simp only [Nat.shiftLeft_eq]; omega
    rw [filled, Nat.add_zero] at whole
    have two : groupBytes 2 (a.toNat <<< 16 + b.toNat <<< 8) = [a, b] := congrArg (List.take 2) bytes
    simp only [base64Group, List.take_succ_cons, List.take_zero, List.cons_append, List.nil_append, decodeGroups?,
      base64Value?_base64Char first, base64Value?_base64Char second, base64Value?_base64Char third,
      base64Char_ne_equals third, Option.bind_eq_bind, Option.bind_some, whole, two]
    rfl
  | case3 a =>
    have bytes := groupBytes_three a 0 0
    have small := bound a 0 0
    simp only [UInt8.toNat_zero, Nat.zero_shiftLeft, Nat.add_zero] at bytes small
    obtain ⟨first, second, -, -, whole⟩ := groups_of_six small
    have filled : a.toNat <<< 16 >>> 6 % 64 = 0 ∧ a.toNat <<< 16 % 64 = 0 := by
      simp only [Nat.shiftLeft_eq, Nat.shiftRight_eq_div_pow]; omega
    rw [filled.1, filled.2, Nat.zero_shiftLeft, Nat.add_zero] at whole
    have one : groupBytes 1 (a.toNat <<< 16) = [a] := congrArg (List.take 1) bytes
    simp only [base64Group, List.take_succ_cons, List.take_zero, List.cons_append, List.nil_append, decodeGroups?,
      base64Value?_base64Char first, base64Value?_base64Char second, Option.bind_eq_bind, Option.bind_some, whole, one]
    rfl
  | case4 => rfl

/-- A character of a text in base 64. -/
def isBase64 (b : UInt8) : Bool := (base64Value? b).isSome || b = Bytes.equals

theorem isBase64_of_isDigit {b : UInt8} (digit : Bytes.isDigit b = true) : isBase64 b = true := by
  have all : ∀ n < 256, Bytes.isDigit (.ofNat n) = true → isBase64 (.ofNat n) = true := by decide +kernel
  have here := all b.toNat b.toNat_lt
  rw [UInt8.ofNat_toNat] at here
  exact here digit

theorem isBase64_base64Char (n : Nat) : isBase64 (base64Char n) = true := by
  by_cases small : n < 64
  · rw [isBase64, base64Value?_base64Char small]
    rfl
  · have last : base64Char n = 0x2F := by
      simp only [base64Char]
      split_ifs <;> first | rfl | omega
    rw [last]
    rfl

theorem isBase64_of_mem {s : Bytes} {b : UInt8} (member : b ∈ base64 s) : isBase64 b = true := by
  have group {n : Nat} (inGroup : b ∈ base64Group n) : isBase64 b = true := by
    simp only [base64Group, List.mem_cons, List.not_mem_nil, or_false] at inGroup
    rcases inGroup with rfl | rfl | rfl | rfl <;> exact isBase64_base64Char _
  have filled (same : b = Bytes.equals) : isBase64 b = true := by rw [same]; rfl
  fun_induction base64 s with
  | case1 a b c rest ih => exact (List.mem_append.1 member).elim group ih
  | case2 a b =>
    exact (List.mem_append.1 member).elim (fun inGroup => group (List.mem_of_mem_take inGroup))
      fun last => filled (List.mem_singleton.1 last)
  | case3 a =>
    refine (List.mem_append.1 member).elim (fun inGroup => group (List.mem_of_mem_take inGroup)) fun last => filled ?_
    simpa using last
  | case4 => cases member

theorem mem_cutLines {length fuel : Nat} {text : Bytes} {b : UInt8} (member : b ∈ cutLines length fuel text) :
    b ∈ text ∨ b = Bytes.lineFeed := by
  induction fuel generalizing text with
  | zero => cases member
  | succ fuel ih =>
    rw [cutLines] at member
    split at member
    · cases member
    · rcases List.mem_append.1 member with front | member
      · exact Or.inl (List.mem_of_mem_take front)
      · rcases List.mem_cons.1 member with feed | member
        · exact Or.inr feed
        · exact (ih member).imp_left List.mem_of_mem_drop

/-- Lines start as the text does. -/
theorem head?_cutLines {length : Nat} (positive : 0 < length) (text : Bytes) :
    (cutLines length text.length text).head? = text.head? := by
  cases text with
  | nil => rfl
  | cons b text =>
    obtain ⟨length, rfl⟩ : ∃ n, length = n + 1 := ⟨length - 1, by omega⟩
    simp [cutLines]

/-- Line breaks in a text in base 64 do not count. -/
theorem filter_cutLines {f : UInt8 → Bool} (feed : f Bytes.lineFeed = false) {length : Nat} (positive : 0 < length)
    {fuel : Nat} {text : Bytes} (within : ∀ b ∈ text, f b = true) (enough : text.length ≤ fuel) :
    (cutLines length fuel text).filter f = text := by
  induction fuel generalizing text with
  | zero => rw [List.length_eq_zero_iff.1 (Nat.le_zero.1 enough)]; rfl
  | succ fuel ih =>
    rw [cutLines]
    split
    · rename_i none
      rw [none]
      rfl
    · rename_i some
      have shorter : (text.drop length).length ≤ fuel := by
        have := List.length_pos_iff.2 some
        rw [List.length_drop]
        omega
      rw [List.filter_append, List.filter_cons_of_neg (by rw [feed]; decide),
        ih (fun b member => within b (List.mem_of_mem_drop member)) shorter,
        List.filter_eq_self.2 fun b member => within b (List.mem_of_mem_take member), List.take_append_drop]

theorem kept_of_mem_base64 {s : Bytes} {b : UInt8} (member : b ∈ base64 s) :
    (b ≠ Bytes.lineFeed && b ≠ Bytes.carriageReturn) = true := by
  have inside := isBase64_of_mem member
  rw [Bool.and_eq_true, decide_eq_true_iff, decide_eq_true_iff]
  constructor <;> rintro rfl <;> cases inside

theorem decodeBase64?_base64 (s : Bytes) : decodeBase64? (base64 s) = some s := by
  rw [decodeBase64?, List.filter_eq_self.2 fun _ => kept_of_mem_base64, decodeGroups?_base64]

/-- Bytes are read back from lines of base 64. -/
theorem decodeBase64?_cutLines {length : Nat} (positive : 0 < length) (s : Bytes) :
    decodeBase64? (cutLines length (base64 s).length (base64 s)) = some s := by
  rw [decodeBase64?, filter_cutLines rfl positive (fun _ => kept_of_mem_base64) (Nat.le_refl _), decodeGroups?_base64]

end Text

/-! ## Comma separated records -/

namespace Csv

/-- Where a reader stands: at the start of a field, in a field without quotes, in a quoted field, behind a quote in a
quoted field, or behind the carriage return of a line end. -/
inductive Spot where
  | start
  | plain
  | quoted
  | closed
  | returned
deriving DecidableEq

/-- What was read: a part of a field, the fields in front of it, and the records in front of them. -/
structure Reader where
  spot : Spot := .start
  field : Bytes := []
  fields : List Bytes := []
  records : List (List Bytes) := []

namespace Reader

def take (r : Reader) (b : UInt8) (spot : Spot) : Reader := { r with spot, field := r.field ++ [b] }

def endField (r : Reader) : Reader := { r with spot := .start, field := [], fields := r.fields ++ [r.field] }

def endRecord (r : Reader) : Reader := { records := r.records ++ [r.fields ++ [r.field]] }

/-- Reads one byte.  Inside quotes every byte but a quote belongs to the field, and a doubled quote is one.  A quote
stands nowhere else, and a carriage return only in front of a line feed. -/
def next? (r : Reader) (b : UInt8) : Option Reader :=
  match r.spot with
  | .quoted => some (if b = Bytes.quote then { r with spot := .closed } else r.take b .quoted)
  | .returned => if b = Bytes.lineFeed then some r.endRecord else none
  | spot =>
    if b = Bytes.comma then some r.endField
    else if b = Bytes.lineFeed then some r.endRecord
    else if b = Bytes.carriageReturn then some { r with spot := .returned }
    else if b = Bytes.quote then
      match spot with
      | .start => some { r with spot := .quoted }
      | .closed => some (r.take b .quoted)
      | _ => none
    else if spot = .closed then none
    else some (r.take b .plain)

/-- The records at the end of a text, where the last one may lack its line end. -/
def finish? (r : Reader) : Option (List (List Bytes)) :=
  match r.spot with
  | .quoted | .returned => none
  | spot => some (if spot = .start ∧ r.fields = [] then r.records else r.endRecord.records)

end Reader

/-- The records of a text. -/
def readRecords? (text : Bytes) : Option (List (List Bytes)) := (text.foldlM Reader.next? {}).bind Reader.finish?

/-- A field can end here. -/
def Spot.MayEnd (spot : Spot) : Prop := spot ≠ .quoted ∧ spot ≠ .returned

section Reading

variable {spot : Spot} (field : Bytes) (fields : List Bytes) (records : List (List Bytes))

theorem next?_comma (mayEnd : spot.MayEnd) :
    Reader.next? ⟨spot, field, fields, records⟩ Bytes.comma = some { fields := fields ++ [field], records } := by
  cases spot with
  | quoted => exact absurd rfl mayEnd.1
  | returned => exact absurd rfl mayEnd.2
  | start => rfl
  | plain => rfl
  | closed => rfl

theorem next?_lineFeed (mayEnd : spot.MayEnd) :
    Reader.next? ⟨spot, field, fields, records⟩ Bytes.lineFeed =
      some { records := records ++ [fields ++ [field]] } := by
  cases spot with
  | quoted => exact absurd rfl mayEnd.1
  | returned => exact absurd rfl mayEnd.2
  | start => rfl
  | plain => rfl
  | closed => rfl

/-- Bytes that need no quotes are taken as they are. -/
theorem foldlM_plain {text : Bytes} (spot : Spot) (unquoted : spot = .start ∨ spot = .plain)
    (harmless : ∀ b ∈ text, b ≠ Bytes.comma ∧ b ≠ Bytes.quote ∧ b ≠ Bytes.carriageReturn ∧ b ≠ Bytes.lineFeed) :
    ∃ spot' : Spot, spot'.MayEnd ∧
      text.foldlM Reader.next? ⟨spot, field, fields, records⟩ = some ⟨spot', field ++ text, fields, records⟩ := by
  induction text generalizing spot field with
  | nil =>
    refine ⟨spot, ?_, by simp⟩
    rcases unquoted with rfl | rfl <;> exact ⟨by decide, by decide⟩
  | cons b text ih =>
    obtain ⟨notComma, notQuote, notReturn, notFeed⟩ := harmless b List.mem_cons_self
    have step : Reader.next? ⟨spot, field, fields, records⟩ b = some ⟨.plain, field ++ [b], fields, records⟩ := by
      rcases unquoted with rfl | rfl <;> simp [Reader.next?, Reader.take, notComma, notQuote, notReturn, notFeed]
    obtain ⟨spot', mayEnd, read⟩ := ih (field ++ [b]) .plain (.inr rfl) fun x member =>
      harmless x (List.mem_cons_of_mem b member)
    refine ⟨spot', mayEnd, ?_⟩
    rw [List.foldlM_cons, step]
    simpa using read

/-- Between quotes all bytes are taken as they are, and doubled quotes are undone. -/
theorem foldlM_quoted (text : Bytes) :
    (text.flatMap fun b => if b = Bytes.quote then [b, b] else [b]).foldlM Reader.next?
        ⟨.quoted, field, fields, records⟩ =
      some ⟨.quoted, field ++ text, fields, records⟩ := by
  induction text generalizing field with
  | nil => simp
  | cons b text ih =>
    rw [List.flatMap_cons, List.foldlM_append]
    by_cases quote : b = Bytes.quote
    · subst quote
      have pair : [Bytes.quote, Bytes.quote].foldlM Reader.next? ⟨.quoted, field, fields, records⟩ =
          some ⟨.quoted, field ++ [Bytes.quote], fields, records⟩ := rfl
      rw [if_pos rfl, pair]
      simpa using ih (field ++ [Bytes.quote])
    · have single : [b].foldlM Reader.next? ⟨.quoted, field, fields, records⟩ =
          some ⟨.quoted, field ++ [b], fields, records⟩ := by
        simp [Reader.next?, Reader.take, quote]
      rw [if_neg quote, single]
      simpa using ih (field ++ [b])

/-- A written field is read back, whatever it holds. -/
theorem foldlM_encode :
    ∃ spot : Spot, spot.MayEnd ∧
      (encode field).foldlM Reader.next? { fields, records } = some ⟨spot, field, fields, records⟩ := by
  unfold encode
  split
  · refine ⟨.closed, ⟨by decide, by decide⟩, ?_⟩
    have mark : utf8 "\"" = [Bytes.quote] := by decide +kernel
    have opened : Reader.next? { fields, records } Bytes.quote = some ⟨.quoted, [], fields, records⟩ := rfl
    have closed : Reader.next? ⟨.quoted, field, fields, records⟩ Bytes.quote =
        some ⟨.closed, field, fields, records⟩ := rfl
    have inside := foldlM_quoted [] fields records field
    rw [mark, List.foldlM_append, List.foldlM_append, List.foldlM_cons, opened]
    simp [inside, closed]
  · next bare =>
    simp only [needsQuotes, Bool.or_eq_true, List.any_eq_true, not_or, not_exists, not_and, decide_eq_true_eq] at bare
    obtain ⟨⟨-, harmless⟩, -⟩ := bare
    refine foldlM_plain [] fields records .start (.inl rfl) fun b member => ?_
    obtain ⟨⟨⟨notComma, notQuote⟩, notReturn⟩, notFeed⟩ := harmless b member
    exact ⟨notComma, notQuote, notReturn, notFeed⟩

/-- The line of a record is read back as the record. -/
theorem foldlM_line {row : List Bytes} (nonempty : row ≠ []) :
    (line row).foldlM Reader.next? { fields, records } = some { records := records ++ [fields ++ row] } := by
  have feed : utf8 "\n" = [Bytes.lineFeed] := by decide +kernel
  induction row generalizing fields with
  | nil => exact absurd rfl nonempty
  | cons first rest ih =>
    obtain ⟨spot, mayEnd, read⟩ := foldlM_encode first fields records
    cases rest with
    | nil =>
      have single : line [first] = encode first ++ [Bytes.lineFeed] := by simp [line, record, feed]
      rw [single, List.foldlM_append, read]
      simp [next?_lineFeed first fields records mayEnd]
    | cons second rest =>
      have several : line (first :: second :: rest) = encode first ++ Bytes.comma :: line (second :: rest) := by
        simp [line, record, List.intercalate_cons_cons]
      rw [several, List.foldlM_append, read]
      have further := ih (fields ++ [first]) (by simp)
      simpa [next?_comma first fields records mayEnd] using further

end Reading

/-- Written records are read back. -/
theorem readRecords?_lines {rows : List (List Bytes)} (nonempty : ∀ row ∈ rows, row ≠ []) :
    readRecords? (rows.flatMap line) = some rows := by
  have all (records : List (List Bytes)) :
      (rows.flatMap line).foldlM Reader.next? { records } = some { records := records ++ rows } := by
    induction rows generalizing records with
    | nil => simp
    | cons row rows ih =>
      have rest := ih (fun row member => nonempty row (List.mem_cons_of_mem _ member)) (records ++ [row])
      rw [List.flatMap_cons, List.foldlM_append, foldlM_line [] records (nonempty row List.mem_cons_self)]
      simpa using rest
  rw [readRecords?, all []]
  rfl

end Csv

end JvmCoupling
