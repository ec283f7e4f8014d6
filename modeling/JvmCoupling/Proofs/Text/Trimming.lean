import JvmCoupling.Text.Blank
import Mathlib

/-! # Characters and the blanks around a text

A text is any byte string, and reading it from the left cuts it into characters and stray bytes.  Only the first byte
of a character can start one, so a text may be cut in front of every byte that continues nothing, and the two parts
read as they did in the whole.  What trimming leaves can therefore be told from the bytes at its ends.

* `Encodes` — the bytes of a character's number, by their values;
* `decodeChar?_eq_some` — the character at the front of a text is the one whose bytes stand there;
* `pieces_append_cons` — a text may be cut in front of a byte that continues nothing;
* `chars?_ofChars`, `ofChars_of_chars?` — a well-formed text and its characters;
* `Trims`, `trims_iff` — a text without the blanks around it.
-/

namespace JvmCoupling.Text

/-! ## The bytes of a character -/

/-- The bytes of a character's number: one to four of them, of which the first says how many follow. -/
inductive Encodes : Nat → Bytes → Prop where
  | one {v : Nat} {a : UInt8} : v < 0x80 → a.toNat = v → Encodes v [a]
  | two {v : Nat} {a b : UInt8} : 0x80 ≤ v → v < 0x800 →
      a.toNat = v / 0x40 + 0xC0 → b.toNat = v % 0x40 + 0x80 → Encodes v [a, b]
  -- The gap in the middle is that of the surrogates.
  | three {v : Nat} {a b c : UInt8} : 0x800 ≤ v → v < 0xD800 ∨ 0xDFFF < v → v < 0x10000 →
      a.toNat = v / 0x1000 + 0xE0 → b.toNat = v / 0x40 % 0x40 + 0x80 → c.toNat = v % 0x40 + 0x80 →
      Encodes v [a, b, c]
  | four {v : Nat} {a b c d : UInt8} : 0x10000 ≤ v → v < 0x110000 →
      a.toNat = v / 0x40000 + 0xF0 → b.toNat = v / 0x1000 % 0x40 + 0x80 → c.toNat = v / 0x40 % 0x40 + 0x80 →
      d.toNat = v % 0x40 + 0x80 → Encodes v [a, b, c, d]

theorem isTail_iff {b : UInt8} : isTail b = true ↔ 0x80 ≤ b.toNat ∧ b.toNat ≤ 0xBF := by
  simp [isTail, UInt8.le_iff_toNat_le]

namespace Encodes

variable {v : Nat} {bytes : Bytes}

theorem isValidChar (encodes : Encodes v bytes) : v.isValidChar := by
  unfold Nat.isValidChar
  cases encodes <;> omega

theorem eq {other : Bytes} (encodes : Encodes v bytes) (others : Encodes v other) : bytes = other := by
  -- The ranges of the four lengths are apart, and within one the number fixes each byte.
  cases encodes <;> cases others <;>
    simp only [List.cons.injEq, reduceCtorEq, and_true, and_false, ← UInt8.toNat_inj] <;> omega

theorem of_char (c : Char) : Encodes c.toNat (String.utf8EncodeChar c) := by
  have valid : c.toNat.isValidChar := c.valid
  unfold Nat.isValidChar at valid
  unfold String.utf8EncodeChar
  simp only [Char.toNat_val]
  split
  · exact .one (by omega) (by simp; omega)
  · split
    · exact .two (by omega) (by omega) (by simp; omega) (by simp; omega)
    · split
      · exact .three (by omega) (by omega) (by omega) (by simp; omega) (by simp; omega) (by simp; omega)
      · exact .four (by omega) (by omega) (by simp; omega) (by simp; omega) (by simp; omega) (by simp; omega)

theorem decode (encodes : Encodes v bytes) (rest : Bytes) :
    decodeChar? (bytes ++ rest) = some (.ofNat v, bytes.length) := by
  -- The first byte picks the branch, and the bounds on the second byte are those on the number.
  cases encodes with
  | one range first => simp [decodeChar?, UInt8.lt_iff_toNat_lt, first, range]
  | @two a b low high first second =>
    have value : (a.toNat - 0xC0) * 0x40 + (b.toNat - 0x80) = v := by omega
    have tail : isTail b = true := isTail_iff.mpr (by omega)
    simp only [List.cons_append, decodeChar?, UInt8.lt_iff_toNat_lt, UInt8.le_iff_toNat_le, UInt8.reduceToNat]
    grind
  | @three a b c low gap high first second third =>
    have value : ((a.toNat - 0xE0) * 0x40 + (b.toNat - 0x80)) * 0x40 + (c.toNat - 0x80) = v := by omega
    have tail : isTail c = true := isTail_iff.mpr (by omega)
    simp only [List.cons_append, decodeChar?, UInt8.lt_iff_toNat_lt, UInt8.le_iff_toNat_le, ← UInt8.toNat_inj,
      UInt8.reduceToNat, apply_ite UInt8.toNat]
    grind
  | @four a b c d low high first second third fourth =>
    have value : (((a.toNat - 0xF0) * 0x40 + (b.toNat - 0x80)) * 0x40 + (c.toNat - 0x80)) * 0x40
        + (d.toNat - 0x80) = v := by omega
    have tails : isTail c = true ∧ isTail d = true := by
      simp only [isTail_iff]
      omega
    simp only [List.cons_append, decodeChar?, UInt8.lt_iff_toNat_lt, UInt8.le_iff_toNat_le, ← UInt8.toNat_inj,
      UInt8.reduceToNat, apply_ite UInt8.toNat]
    grind

theorem of_decode {s : Bytes} {c : Char} {n : Nat} :
    decodeChar? s = some (c, n) → ∃ bytes rest, s = bytes ++ rest ∧ Encodes c.toNat bytes ∧ bytes.length = n := by
  have number : ∀ {v bytes}, Encodes v bytes → Encodes (Char.ofNat v).toNat bytes := by
    intro v bytes encodes
    rwa [Char.toNat_ofNat, if_pos encodes.isValidChar]
  -- Four branches read a character; what the others return is `none`.
  fun_cases decodeChar? s with
  | case2 a rest ascii =>
    intro decoded
    obtain ⟨rfl, rfl⟩ := Prod.mk.inj (Option.some.inj decoded)
    rw [UInt8.lt_iff_toNat_lt] at ascii
    exact ⟨[a], rest, rfl, number (.one ascii rfl), rfl⟩
  | case3 a large lead b rest tail =>
    intro decoded
    obtain ⟨rfl, rfl⟩ := Prod.mk.inj (Option.some.inj decoded)
    simp only [isTail_iff, Bool.and_eq_true, decide_eq_true_eq, UInt8.le_iff_toNat_le, UInt8.reduceToNat] at lead tail
    exact ⟨[a, b], rest, rfl, number (.two (by omega) (by omega) (by omega) (by omega)), rfl⟩
  | case6 a large larger lead b c rest low high tails =>
    intro decoded
    obtain ⟨rfl, rfl⟩ := Prod.mk.inj (Option.some.inj decoded)
    simp only [isTail_iff, Bool.and_eq_true, decide_eq_true_eq, UInt8.le_iff_toNat_le, ← UInt8.toNat_inj,
      UInt8.reduceToNat, apply_ite UInt8.toNat, low, high] at lead tails
    -- No overlong form after the least first byte, and no surrogate after 0xED.
    have least : 0x80 ≤ b.toNat ∧ (a.toNat = 0xE0 → 0xA0 ≤ b.toNat) := by grind
    have greatest : b.toNat ≤ 0xBF ∧ (a.toNat = 0xED → b.toNat ≤ 0x9F) := by grind
    refine ⟨[a, b, c], rest, rfl, number (.three ?_ ?_ ?_ ?_ ?_ ?_), rfl⟩ <;> omega
  | case9 a large larger largest lead b c d rest low high tails =>
    intro decoded
    obtain ⟨rfl, rfl⟩ := Prod.mk.inj (Option.some.inj decoded)
    simp only [isTail_iff, Bool.and_eq_true, decide_eq_true_eq, UInt8.le_iff_toNat_le, ← UInt8.toNat_inj,
      UInt8.reduceToNat, apply_ite UInt8.toNat, low, high] at lead tails
    have least : 0x80 ≤ b.toNat ∧ (a.toNat = 0xF0 → 0x90 ≤ b.toNat) := by grind
    have greatest : b.toNat ≤ 0xBF ∧ (a.toNat = 0xF4 → b.toNat ≤ 0x8F) := by grind
    refine ⟨[a, b, c, d], rest, rfl, number (.four ?_ ?_ ?_ ?_ ?_ ?_), rfl⟩ <;> omega
  | _ => simp

end Encodes

theorem decodeChar?_eq_some {s : Bytes} {c : Char} {n : Nat} :
    decodeChar? s = some (c, n) ↔ String.utf8EncodeChar c <+: s ∧ (String.utf8EncodeChar c).length = n := by
  constructor
  · intro decoded
    obtain ⟨bytes, rest, rfl, encodes, rfl⟩ := Encodes.of_decode decoded
    obtain rfl := encodes.eq (Encodes.of_char c)
    exact ⟨List.prefix_append _ _, rfl⟩
  · rintro ⟨⟨rest, rfl⟩, rfl⟩
    rw [(Encodes.of_char c).decode, Char.ofNat_toNat]

theorem utf8EncodeChar_eq_cons (c : Char) :
    ∃ lead tails, String.utf8EncodeChar c = lead :: tails ∧ isTail lead = false ∧ ∀ b ∈ tails, isTail b = true := by
  have encodes := Encodes.of_char c
  generalize String.utf8EncodeChar c = bytes, c.toNat = v at encodes
  cases encodes with
  | one | two | three | four =>
    refine ⟨_, _, rfl, ?_, ?_⟩
    · simp only [Bool.eq_false_iff, ne_eq, isTail_iff]
      omega
    · grind [isTail_iff]

/-! ## The pieces of a text -/

theorem piecesFrom_eq_pieces_drop (skip : Nat) (s : Bytes) : piecesFrom skip s = pieces (s.drop skip) := by
  induction s generalizing skip with
  | nil => cases skip <;> simp [piecesFrom, pieces]
  | cons b rest ih =>
    cases skip with
    | zero => rfl
    | succ skip => rw [piecesFrom, ih, List.drop_succ_cons]

@[simp]
theorem pieces_nil : pieces [] = [] := rfl

theorem pieces_utf8EncodeChar_append (c : Char) (rest : Bytes) :
    pieces (String.utf8EncodeChar c ++ rest) = .char c :: pieces rest := by
  have decoded := decodeChar?_eq_some.mpr ⟨List.prefix_append (String.utf8EncodeChar c) rest, rfl⟩
  obtain ⟨lead, tails, encoding, -, -⟩ := utf8EncodeChar_eq_cons c
  rw [encoding, List.cons_append] at decoded ⊢
  rw [pieces, piecesFrom, decoded]
  simp [piecesFrom_eq_pieces_drop]

theorem pieces_cons_of_decode_eq_none {b : UInt8} {rest : Bytes} (stray : decodeChar? (b :: rest) = none) :
    pieces (b :: rest) = .stray b :: pieces rest := by
  rw [pieces, piecesFrom, stray, pieces]

/-- Texts, one character or stray byte at a time. -/
theorem pieces_induction {P : Bytes → Prop} (nil : P [])
    (char : ∀ c rest, P rest → P (String.utf8EncodeChar c ++ rest))
    (stray : ∀ b rest, decodeChar? (b :: rest) = none → P rest → P (b :: rest)) (s : Bytes) : P s := by
  induction length : s.length using Nat.strong_induction_on generalizing s with
  | _ n ih =>
    subst length
    cases s with
    | nil => exact nil
    | cons b rest =>
      cases decoded : decodeChar? (b :: rest) with
      | none => exact stray b rest decoded (ih _ (by simp) rest rfl)
      | some read =>
        obtain ⟨⟨after, split⟩, -⟩ := decodeChar?_eq_some.mp decoded
        obtain ⟨lead, tails, encoding, -, -⟩ := utf8EncodeChar_eq_cons read.1
        rw [← split]
        refine char read.1 after (ih _ ?_ after rfl)
        rw [← split, encoding, List.cons_append, List.length_cons, List.length_append]
        omega

theorem flatMap_bytes_pieces (s : Bytes) : (pieces s).flatMap Piece.bytes = s := by
  induction s using pieces_induction with
  | nil => rfl
  | char c rest ih => rw [pieces_utf8EncodeChar_append, List.flatMap_cons, ih, Piece.bytes]
  | stray b rest stray ih =>
    rw [pieces_cons_of_decode_eq_none stray, List.flatMap_cons, ih, Piece.bytes, List.singleton_append]

/-- A byte that continues nothing does not change how the bytes before it are read. -/
theorem pieces_append_cons {b : UInt8} (starts : isTail b = false) (front back : Bytes) :
    pieces (front ++ b :: back) = pieces front ++ pieces (b :: back) := by
  induction front using pieces_induction with
  | nil => rfl
  | char c rest ih =>
    rw [List.append_assoc, pieces_utf8EncodeChar_append, pieces_utf8EncodeChar_append, ih, List.cons_append]
  | stray a rest stray ih =>
    have still : decodeChar? (a :: rest ++ b :: back) = none := by
      -- A character read there would end before `b`, so it could be read without `b` as well.
      rw [Option.eq_none_iff_forall_ne_some]
      rintro ⟨c, n⟩ decoded
      obtain ⟨within, -⟩ := decodeChar?_eq_some.mp decoded
      obtain ⟨lead, tails, encoding, -, continues⟩ := utf8EncodeChar_eq_cons c
      have short : String.utf8EncodeChar c <+: a :: rest := by
        rw [encoding] at within ⊢
        obtain ⟨rfl, follows⟩ := List.cons_prefix_cons.mp within
        refine List.cons_prefix_cons.mpr ⟨rfl, ?_⟩
        rcases List.prefix_or_prefix_of_prefix follows (List.prefix_append rest _) with short | ⟨more, rfl⟩
        · exact short
        · cases more with
          | nil => simp
          | cons first more =>
            obtain ⟨rfl, -⟩ := List.cons_prefix_cons.mp ((List.prefix_append_right_inj rest).mp follows)
            simp [continues] at starts
      simp [decodeChar?_eq_some.mpr ⟨short, rfl⟩] at stray
    rw [List.cons_append] at still ⊢
    rw [pieces_cons_of_decode_eq_none still, pieces_cons_of_decode_eq_none stray, ih, List.cons_append]

theorem ofChars_cons (c : Char) (cs : List Char) : ofChars (c :: cs) = String.utf8EncodeChar c ++ ofChars cs := rfl

theorem pieces_ofChars_append (cs : List Char) (rest : Bytes) :
    pieces (ofChars cs ++ rest) = cs.map .char ++ pieces rest := by
  induction cs with
  | nil => rfl
  | cons c cs ih =>
    rw [ofChars_cons, List.append_assoc, pieces_utf8EncodeChar_append, ih, List.map_cons, List.cons_append]

theorem flatMap_bytes_map_char (cs : List Char) : (cs.map Piece.char).flatMap Piece.bytes = ofChars cs := by
  simp [ofChars, List.flatMap_map, Piece.bytes]

/-- A text is well-formed if all its pieces are characters. -/
theorem chars?_eq_some {s : Bytes} {cs : List Char} : chars? s = some cs ↔ pieces s = cs.map .char := by
  rw [chars?]
  induction pieces s generalizing cs with
  | nil => cases cs <;> simp
  | cons piece pieces ih =>
    cases piece with
    | char c => cases cs <;> simp [List.mapM_cons, ih, Option.bind_eq_some_iff, and_comm]
    | stray b => cases cs <;> simp [List.mapM_cons]

theorem chars?_ofChars (cs : List Char) : chars? (ofChars cs) = some cs := by
  have characters := pieces_ofChars_append cs []
  rw [List.append_nil, pieces_nil, List.append_nil] at characters
  exact chars?_eq_some.2 characters

theorem ofChars_of_chars? {s : Bytes} {cs : List Char} (read : chars? s = some cs) : ofChars cs = s := by
  have whole := flatMap_bytes_pieces s
  rwa [chars?_eq_some.1 read, flatMap_bytes_map_char] at whole

theorem pieces_append_ofChars (front : Bytes) (cs : List Char) :
    pieces (front ++ ofChars cs) = pieces front ++ cs.map .char := by
  cases cs with
  | nil => simp [ofChars]
  | cons c cs =>
    have characters := pieces_ofChars_append (c :: cs) []
    obtain ⟨lead, tails, encoding, starts, -⟩ := utf8EncodeChar_eq_cons c
    rw [List.append_nil, pieces_nil, List.append_nil] at characters
    rw [← characters, ofChars_cons, encoding, List.cons_append, pieces_append_cons starts]

theorem mem_head?_pieces {s : Bytes} {c : Char} : .char c ∈ (pieces s).head? ↔ String.utf8EncodeChar c <+: s := by
  constructor
  · intro first
    obtain ⟨rest, whole⟩ := List.head?_eq_some_iff.mp first
    exact ⟨rest.flatMap Piece.bytes, by rw [← flatMap_bytes_pieces s, whole, List.flatMap_cons, Piece.bytes]⟩
  · rintro ⟨rest, rfl⟩
    simp [pieces_utf8EncodeChar_append]

theorem mem_getLast?_pieces {s : Bytes} {c : Char} :
    .char c ∈ (pieces s).getLast? ↔ String.utf8EncodeChar c <:+ s := by
  constructor
  · intro last
    obtain ⟨front, whole⟩ := List.getLast?_eq_some_iff.mp last
    refine ⟨front.flatMap Piece.bytes, ?_⟩
    rw [← flatMap_bytes_pieces s, whole, List.flatMap_append, List.flatMap_singleton, Piece.bytes]
  · rintro ⟨front, rfl⟩
    have alone : String.utf8EncodeChar c = ofChars [c] := by simp [ofChars]
    simp [alone, pieces_append_ofChars]

/-! ## Blanks around a text -/

section Ends

variable {α : Type} {p : α → Bool} {xs : List α}

theorem dropWhile_eq_self_of_head? (first : ∀ x ∈ xs.head?, p x = false) : xs.dropWhile p = xs := by
  cases xs with
  | nil => rfl
  | cons x xs => rw [List.dropWhile_cons_of_neg (by simp [first x rfl])]

theorem eq_false_of_mem_head?_dropWhile {x : α} (first : x ∈ (xs.dropWhile p).head?) : p x = false := by
  have stopped := List.head?_dropWhile_not p xs
  rwa [Option.mem_def.mp first] at stopped

/-- What is left between the ends of a list is the one part that neither starts nor ends with what is dropped. -/
theorem rdropWhile_dropWhile_eq_iff {middle : List α} :
    (xs.dropWhile p).rdropWhile p = middle ↔ ∃ left right, xs = left ++ middle ++ right ∧
      (∀ x ∈ left ++ right, p x = true) ∧ (∀ x ∈ middle.head?, p x = false) ∧ ∀ x ∈ middle.getLast?, p x = false := by
  constructor
  · rintro rfl
    refine ⟨xs.takeWhile p, (xs.dropWhile p).rtakeWhile p, ?_, ?_, ?_, ?_⟩
    · rw [List.append_assoc, List.rdropWhile_append_rtakeWhile, List.takeWhile_append_dropWhile]
    · intro x member
      rcases List.mem_append.mp member with member | member
      · exact List.mem_takeWhile_imp member
      · exact List.mem_rtakeWhile_imp member
    · -- Dropping at the right keeps the front, at which dropping at the left has stopped.
      intro x first
      obtain ⟨dropped, whole⟩ := List.rdropWhile_prefix p (xs.dropWhile p)
      have front : x ∈ (xs.dropWhile p).head? := by
        rw [← whole, List.head?_append, Option.mem_def.mp first]
        rfl
      exact eq_false_of_mem_head?_dropWhile front
    · intro x last
      rw [List.rdropWhile, List.getLast?_reverse] at last
      exact eq_false_of_mem_head?_dropWhile last
  · rintro ⟨left, right, rfl, dropped, first, last⟩
    rw [List.forall_mem_append] at dropped
    rw [List.append_assoc, List.dropWhile_append_of_pos dropped.1]
    cases middle with
    | nil =>
      exact List.rdropWhile_eq_nil_iff.mpr fun x member => dropped.2 x ((List.dropWhile_sublist p).mem member)
    | cons x middle =>
      rw [dropWhile_eq_self_of_head? (by simpa using first), List.rdropWhile, List.reverse_append,
        List.dropWhile_append_of_pos (by simpa using dropped.2),
        dropWhile_eq_self_of_head? (by rwa [List.head?_reverse]), List.reverse_reverse]

end Ends

/-- The field is the text without the blanks around it: what is cut off consists of blank characters, and the bytes
that are left neither start nor end with one. -/
structure Trims (text field : Bytes) : Prop where
  around : ∃ left right : List Char, (∀ c ∈ left ++ right, isBlank c = true) ∧
    text = ofChars left ++ field ++ ofChars right
  start : ∀ c, isBlank c = true → ¬ String.utf8EncodeChar c <+: field
  finish : ∀ c, isBlank c = true → ¬ String.utf8EncodeChar c <:+ field

theorem not_blank_iff {piece? : Option Piece} :
    (∀ piece ∈ piece?, piece.isBlank = false) ↔ ∀ c, isBlank c = true → .char c ∉ piece? := by
  rcases piece? with _ | c | b
  · simp
  · simp only [Option.mem_some, forall_eq', Piece.isBlank, Piece.char.injEq]
    grind
  · simp [Piece.isBlank]

theorem exists_map_char {run : List Piece} (blank : ∀ piece ∈ run, piece.isBlank = true) :
    ∃ cs : List Char, run = cs.map .char ∧ ∀ c ∈ cs, isBlank c = true := by
  induction run with
  | nil => exact ⟨[], rfl, by simp⟩
  | cons piece run ih =>
    obtain ⟨first, others⟩ := List.forall_mem_cons.mp blank
    obtain ⟨cs, rfl, blanks⟩ := ih others
    cases piece with
    | char c => exact ⟨c :: cs, rfl, List.forall_mem_cons.mpr ⟨first, blanks⟩⟩
    | stray b => cases first

theorem trims_iff {text field : Bytes} : Trims text field ↔ field = trim text := by
  have trimmed : trim text
      = (((pieces text).dropWhile Piece.isBlank).rdropWhile Piece.isBlank).flatMap Piece.bytes := rfl
  constructor
  · rintro ⟨⟨left, right, blank, whole⟩, start, finish⟩
    have middle : ((pieces text).dropWhile Piece.isBlank).rdropWhile Piece.isBlank = pieces field := by
      refine rdropWhile_dropWhile_eq_iff.mpr ⟨left.map .char, right.map .char, ?_, ?_, ?_, ?_⟩
      · rw [whole, pieces_append_ofChars, pieces_ofChars_append]
      · rw [← List.map_append, List.forall_mem_map]
        exact blank
      · rw [not_blank_iff]
        exact fun c blank first => start c blank (mem_head?_pieces.mp first)
      · rw [not_blank_iff]
        exact fun c blank last => finish c blank (mem_getLast?_pieces.mp last)
    rw [trimmed, middle, flatMap_bytes_pieces]
  · rintro rfl
    generalize kept : ((pieces text).dropWhile Piece.isBlank).rdropWhile Piece.isBlank = middle at trimmed
    obtain ⟨before, after, whole, blank, first, last⟩ := rdropWhile_dropWhile_eq_iff.mp kept
    rw [List.forall_mem_append] at blank
    obtain ⟨left, rfl, lefts⟩ := exists_map_char blank.1
    obtain ⟨right, rfl, rights⟩ := exists_map_char blank.2
    have around : text = ofChars left ++ trim text ++ ofChars right := by
      conv_lhs => rw [← flatMap_bytes_pieces text, whole]
      rw [List.flatMap_append, List.flatMap_append, flatMap_bytes_map_char, flatMap_bytes_map_char, trimmed]
    -- Read alone, what is left has the pieces that it had in the whole text.
    have same : middle = pieces (trim text) := by
      have cut := congrArg pieces around
      rw [whole, pieces_append_ofChars, pieces_ofChars_append] at cut
      exact List.append_cancel_left (List.append_cancel_right cut)
    rw [same, not_blank_iff] at first last
    exact ⟨⟨left, right, List.forall_mem_append.mpr ⟨lefts, rights⟩, around⟩,
      fun c blank starts => first c blank (mem_head?_pieces.mpr starts),
      fun c blank ends => last c blank (mem_getLast?_pieces.mpr ends)⟩

end JvmCoupling.Text
