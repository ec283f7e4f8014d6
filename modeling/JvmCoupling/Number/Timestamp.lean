import JvmCoupling.Text.Number

/-! # Dates and times in text

* `Timestamp.parse?` — a date, or a date with a time of day and a zone;
* `Timestamp.render` — the full form.
-/

namespace JvmCoupling.Number

/-- A point in time on the calendar of a zone; the zone is given by its offset in minutes. -/
structure Timestamp where
  year : Nat
  month : Nat
  day : Nat
  hour : Nat := 0
  minute : Nat := 0
  second : Nat := 0
  nanosecond : Nat := 0
  zone : Int := 0
deriving DecidableEq, Repr, Inhabited

namespace Timestamp

/-- The number of days in a month. -/
def daysIn (year month : Nat) : Nat :=
  if month = 2 then
    if year % 4 = 0 ∧ (year % 100 ≠ 0 ∨ year % 400 = 0) then 29 else 28
  else if month = 4 ∨ month = 6 ∨ month = 9 ∨ month = 11 then 30
  else 31

/-- The value of a digit. -/
def digit (b : UInt8) : Nat := b.toNat - 0x30

/-- A number of one or two digits, below a limit. -/
def short? (limit : Nat) : Bytes → Option (Nat × Bytes)
  | a :: b :: rest =>
    if !Bytes.isDigit a then none
    else
      let (n, rest) := if Bytes.isDigit b then (10 * digit a + digit b, rest) else (digit a, b :: rest)
      if n < limit then some (n, rest) else none
  | [a] => if Bytes.isDigit a ∧ digit a < limit then some (digit a, []) else none
  | [] => none

/-- A number of exactly two digits. -/
def two? : Bytes → Option (Nat × Bytes)
  | a :: b :: rest =>
    if Bytes.isDigit a && Bytes.isDigit b then some (10 * digit a + digit b, rest) else none
  | _ => none

/-- A given byte. -/
def literal? (expected : UInt8) : Bytes → Option Bytes
  | b :: rest => if b = expected then some rest else none
  | [] => none

/-- Year, month and day: four digits, then one or two each.  The day has to exist. -/
def date? (text : Bytes) : Option (Timestamp × Bytes) := do
  let year := text.take 4
  if year.length < 4 || !year.all Bytes.isDigit then none
  let year := year.foldl (fun n b => 10 * n + digit b) 0
  let rest ← literal? Bytes.dash (text.drop 4)
  let (month, rest) ← short? 13 rest
  let rest ← literal? Bytes.dash rest
  let (day, rest) ← short? 100 rest
  if month = 0 ∨ day = 0 ∨ daysIn year month < day then none
  return ({ year, month, day }, rest)

/-- The billionths after a point or comma; digits past the ninth are dropped. -/
def fraction (text : Bytes) : Nat × Bytes :=
  match text with
  | mark :: b :: rest =>
    if (mark = Bytes.dot || mark = Bytes.comma) && Bytes.isDigit b then
      let (digits, rest) := (b :: rest).span Bytes.isDigit
      let digits := digits.take 9
      (digits.foldl (fun n b => 10 * n + digit b) 0 * Nat.pow 10 (9 - digits.length), rest)
    else (0, text)
  | _ => (0, text)

/-- Hour, minute and second, the latter with a fraction. -/
def time? (t : Timestamp) (text : Bytes) : Option (Timestamp × Bytes) := do
  let (hour, rest) ← short? 24 text
  let rest ← literal? Bytes.colon rest
  let (minute, rest) ← short? 60 rest
  let rest ← literal? Bytes.colon rest
  let (second, rest) ← short? 60 rest
  let (nanosecond, rest) := fraction rest
  return ({ t with hour, minute, second, nanosecond }, rest)

/-- The letter for Greenwich, or a sign with hours and minutes. -/
def zone? (text : Bytes) : Option (Int × Bytes) :=
  match text with
  | [] => none
  | sign :: rest =>
    if sign = 0x5A then some (0, rest)
    else do
      let (hours, rest) ← two? rest
      let rest ← literal? Bytes.colon rest
      let (minutes, rest) ← two? rest
      if 24 < hours ∨ 60 < minutes then none
      let offset : Int := 60 * hours + minutes
      if sign = 0x2B then some (offset, rest)
      else if sign = 0x2D then some (-offset, rest)
      else none

/-- A date alone, a date and a time with a letter t between and a zone at the end, or a date and a time with
blanks between and no zone. -/
def parse? (text : Bytes) : Option Timestamp := do
  let (t, rest) ← date? text
  match rest with
  | [] => some t
  | mark :: rest =>
    if mark = 0x54 || mark = 0x74 then
      let (t, rest) ← time? t rest
      let (zone, rest) ← zone? rest
      if rest = [] then some { t with zone } else none
    else if mark = Bytes.space then
      let (t, rest) ← time? t (rest.dropWhile (· = Bytes.space))
      if rest = [] then some t else none
    else none

/-- A number with leading zeros. -/
def padded (width n : Nat) : Bytes :=
  let text := Text.decimal n
  List.replicate (width - text.length) 0x30 ++ text

/-- Sign, hours and minutes of a zone. -/
def renderZone (zone : Int) : Bytes :=
  (if zone < 0 then [Bytes.dash] else [0x2B]) ++ padded 2 (zone.natAbs / 60) ++ padded 2 (zone.natAbs % 60)

/-- The fraction of a second without superfluous zeros. -/
def renderFraction (nanosecond : Nat) : Bytes :=
  if nanosecond = 0 then []
  else Bytes.dot :: ((padded 9 nanosecond).reverse.dropWhile (· = 0x30)).reverse

/-- The full form: date, time, offset and name of the zone, where the offset stands in for a name other than
that of Greenwich. -/
def render (t : Timestamp) : Bytes :=
  padded 4 t.year ++ [Bytes.dash] ++ padded 2 t.month ++ [Bytes.dash] ++ padded 2 t.day ++ [Bytes.space]
    ++ padded 2 t.hour ++ [Bytes.colon] ++ padded 2 t.minute ++ [Bytes.colon] ++ padded 2 t.second
    ++ renderFraction t.nanosecond ++ [Bytes.space] ++ renderZone t.zone ++ [Bytes.space]
    ++ (if t.zone = 0 then utf8 "UTC" else renderZone t.zone)

end Timestamp

end JvmCoupling.Number
