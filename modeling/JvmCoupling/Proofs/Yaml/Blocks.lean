import JvmCoupling.Proofs.Text.ReadBack
import JvmCoupling.Proofs.Text.Trimming
import JvmCoupling.Proofs.Yaml.Scanning
import Mathlib

/-! # Blocks cut into tokens

The scanner gives the tokens of a written document, where a block is scanned as its parts are.

* `PlainText.of_word`, `PlainText.decimalInt` — words and numbers need no quotes;
* `isHeld`, `Scan.scan_text` — a text that is held is scanned in the style in which it was written;
* `Block.Held` — the blocks that a document holds as they are;
* `Block.Held.scans` — a block is scanned to its tokens, behind a key and behind the mark of an item;
* `run_renderFields` — the tokens of the text of a document.
-/

namespace JvmCoupling.Yaml

variable {p : Place} {o : Outline} {s : Scan} {n w k : Nat} {tail : List Char} {key? : Option KeyMark}

/-! ## Words -/

/-- A letter, a digit or another character that means nothing in a plain scalar. -/
def isWordChar (c : Char) : Bool :=
  let n := c.toNat
  (0x30 ≤ n && n ≤ 0x39) || (0x41 ≤ n && n ≤ 0x5A) || (0x61 ≤ n && n ≤ 0x7A) || n = 0x2B || n = 0x2F || n = 0x3D

theorem hasKeyMark_of_notMem {cs : List Char} (absent : ':' ∉ cs) : hasKeyMark cs = false := by
  fun_induction hasKeyMark cs with
  | case1 => rfl
  | case2 c => simpa [eq_comm] using absent
  | case3 c d rest ih =>
    obtain ⟨here, absent⟩ := not_or.1 (mt List.mem_cons.2 absent)
    simp [ih absent, Ne.symm here]

theorem hasPair_of_notMem {f : Char → Bool} {d : Char} {cs : List Char} (absent : d ∉ cs) :
    hasPair f (· = d) cs = false := by
  induction cs with
  | nil => rfl
  | cons c cs ih =>
    obtain ⟨-, absent⟩ := not_or.1 (mt List.mem_cons.2 absent)
    cases cs with
    | nil => rfl
    | cons e cs =>
      have other : e ≠ d := by
        rintro rfl
        exact absent List.mem_cons_self
      simp only [hasPair, other, decide_false, Bool.and_false, Bool.false_or]
      exact ih absent

theorem ne_of_isWordChar {c d : Char} (word : isWordChar c = true) (other : isWordChar d = false) : c ≠ d := by
  rintro rfl
  exact absurd word (by rw [other]; decide)

theorem contains_of_isWordChar {c : Char} (word : isWordChar c = true) :
    indicators.contains c = false ∧ markIndicators.contains c = false := by
  have special {marks : List Char} (others : marks.all (fun d => !isWordChar d) = true) : marks.contains c = false := by
    rw [Bool.eq_false_iff]
    intro member
    have other := List.all_eq_true.1 others c (List.contains_iff_mem.1 member)
    rw [word] at other
    cases other
  exact ⟨special rfl, special rfl⟩

theorem isSolid_of_isWordChar {c : Char} (word : isWordChar c = true) : isSolid c = true := by
  refine isSolid_of_isPrintable ?_ (ne_of_isWordChar word rfl) ?_ (ne_of_isWordChar word rfl)
  · simp only [isWordChar, isPrintable, Bool.or_eq_true, Bool.and_eq_true, decide_eq_true_eq] at word ⊢
    omega
  · simp only [isWordChar, isLineBreak, Bool.or_eq_true, Bool.and_eq_true, decide_eq_true_eq, Bool.or_eq_false_iff,
      decide_eq_false_iff_not] at word ⊢
    omega

theorem isBlank_of_isWordChar {c : Char} (word : isWordChar c = true) : isBlank c = false :=
  (isSolid_iff.1 (isSolid_of_isWordChar word)).1

theorem isLineBreak_of_isWordChar {c : Char} (word : isWordChar c = true) : isLineBreak c = false :=
  (isSolid_iff.1 (isSolid_of_isWordChar word)).2.1

/-- Words are plain. -/
theorem PlainText.of_word {cs : List Char} (nonempty : cs ≠ []) (word : ∀ c ∈ cs, isWordChar c = true) :
    PlainText cs where
  nonempty
  unbroken c member := isLineBreak_of_isWordChar (word c member)
  unmarked := hasKeyMark_of_notMem fun member => by cases word ':' member
  uncommented := hasPair_of_notMem fun member => by cases word '#' member
  last c member := isBlank_of_isWordChar (word c (List.mem_of_mem_getLast? member))
  first c member :=
    have here := word c (List.mem_of_mem_head? member)
    ⟨isSolid_of_isWordChar here, (contains_of_isWordChar here).1⟩
  second c member mark :=
    absurd mark (by rw [(contains_of_isWordChar (word c (List.mem_of_mem_head? member))).2]; decide)

/-- A word behind a minus sign is plain. -/
theorem PlainText.dash {cs : List Char} (nonempty : cs ≠ []) (word : ∀ c ∈ cs, isWordChar c = true) :
    PlainText ('-' :: cs) where
  nonempty := List.cons_ne_nil _ _
  unbroken := List.forall_mem_cons.2 ⟨rfl, fun c member => isLineBreak_of_isWordChar (word c member)⟩
  unmarked := hasKeyMark_of_notMem fun member => by
    rcases List.mem_cons.1 member with same | member
    · cases same
    · cases word ':' member
  uncommented := hasPair_of_notMem fun member => by
    rcases List.mem_cons.1 member with same | member
    · cases same
    · cases word '#' member
  last c member := by
    rw [List.getLast?_cons_of_ne_nil nonempty] at member
    exact isBlank_of_isWordChar (word c (List.mem_of_mem_getLast? member))
  first c member := by
    cases member
    exact ⟨rfl, rfl⟩
  second c _ _ := by
    obtain ⟨d, cs, rfl⟩ := List.exists_cons_of_ne_nil nonempty
    exact ⟨d, rfl, isBlank_of_isWordChar (word d List.mem_cons_self)⟩

theorem isWordChar_of_isBase64 {b : UInt8} (inside : Text.isBase64 b = true) :
    b < 0x80 ∧ isWordChar (.ofNat b.toNat) = true := by
  have all : ∀ n < 256, Text.isBase64 (.ofNat n) = true → n < 0x80 ∧ isWordChar (.ofNat n) = true := by
    decide +kernel
  have here := all b.toNat b.toNat_lt
  rw [UInt8.ofNat_toNat] at here
  exact here inside

theorem ofChars_asciiChars {s : Bytes} (ascii : ∀ b ∈ s, b < 0x80) : Text.ofChars (asciiChars s) = s := by
  have single : ∀ n < 0x80, String.utf8EncodeChar (.ofNat n) = [UInt8.ofNat n] := by decide +kernel
  induction s with
  | nil => rfl
  | cons b s ih =>
    obtain ⟨here, ascii⟩ := List.forall_mem_cons.1 ascii
    have bytes := single b.toNat (UInt8.lt_iff_toNat_lt.1 here)
    rw [UInt8.ofNat_toNat] at bytes
    rw [asciiChars, List.map_cons, Text.ofChars_cons, bytes]
    exact congrArg (b :: ·) (ih ascii)

/-- Bytes of base 64 are the characters of a word. -/
theorem word_asciiChars {s : Bytes} (inside : ∀ b ∈ s, Text.isBase64 b = true) :
    Text.ofChars (asciiChars s) = s ∧ ∀ c ∈ asciiChars s, isWordChar c = true := by
  refine ⟨ofChars_asciiChars fun b member => (isWordChar_of_isBase64 (inside b member)).1, fun c member => ?_⟩
  obtain ⟨b, present, rfl⟩ := List.mem_map.1 member
  exact (isWordChar_of_isBase64 (inside b present)).2

theorem isBase64_of_mem_decimal (n : Nat) : ∀ b ∈ Text.decimal n, Text.isBase64 b = true :=
  fun b member => Text.isBase64_of_isDigit (Text.isDigit_of_mem_decimal n b member)

/-- A number is plain. -/
theorem PlainText.decimalInt (n : Int) :
    PlainText (asciiChars (Text.decimalInt n)) ∧ Text.ofChars (asciiChars (Text.decimalInt n)) = Text.decimalInt n := by
  cases n with
  | ofNat n =>
    obtain ⟨back, word⟩ := word_asciiChars (isBase64_of_mem_decimal n)
    exact ⟨.of_word (by simp [asciiChars, Text.decimalInt, Text.decimal_ne_nil]) word, back⟩
  | negSucc n =>
    obtain ⟨back, word⟩ := word_asciiChars (isBase64_of_mem_decimal (n + 1))
    refine ⟨.dash (by simp [Text.decimal_ne_nil]) word, ?_⟩
    exact congrArg (Bytes.dash :: ·) back

/-! ## Texts -/

/-- A document holds the text as it is.  A literal block does not, if it starts with a blank or a line break. -/
def isHeld (text : Bytes) : Bool :=
  match Text.chars? text with
  | none => true
  | some cs => chooseStyle text cs ≠ .literal || cs.head?.all fun c => !isBlank c && !isLineBreak c

/-- The text of a scalar in base 64, and whether it is plain. -/
def binaryScalar (text : Bytes) : Bytes × Bool :=
  let encoded := Text.base64 text
  if encoded.length < binaryLineLength then (encoded, true)
  else (Text.cutLines binaryLineLength encoded.length encoded, false)

/-- The tokens of a text. -/
def textTokens (text : Bytes) : List Token :=
  match Text.chars? text with
  | none => [Scan.binaryTag, .scalar (binaryScalar text).1 (binaryScalar text).2]
  | some cs => [.scalar text (chooseStyle text cs = .plain)]

theorem chooseStyle_plain {text : Bytes} {cs : List Char} (style : chooseStyle text cs = .plain) :
    isAmbiguous text = false ∧ plainAllowed cs = true := by
  rw [chooseStyle] at style
  split_ifs at style with _ _ ambiguous allowed
  exact ⟨Bool.eq_false_iff.2 ambiguous, allowed⟩

theorem chooseStyle_singleQuoted {text : Bytes} {cs : List Char} (style : chooseStyle text cs = .singleQuoted) :
    '\n' ∉ cs ∧ singleQuotedAllowed cs = true := by
  rw [chooseStyle] at style
  split_ifs at style with several _ _ _ allowed
  exact ⟨by simpa using several, allowed⟩

theorem chooseStyle_literal {text : Bytes} {cs : List Char} (style : chooseStyle text cs = .literal) :
    '\n' ∈ cs ∧ literalAllowed cs = true := by
  rw [chooseStyle] at style
  split_ifs at style with several allowed
  exact ⟨List.contains_iff_mem.1 several, allowed⟩

theorem line_append (front : List Char) (w : Written) :
    ({ w with text := front ++ w.text } : Written).line = front ++ w.line := by
  rw [Written.line, Written.line]
  split <;> simp

theorem line_writeBinary (n : Nat) (text : Bytes) :
    (writeBinary n text).line = "!!binary ".toList ++
      (if (Text.base64 text).length < binaryLineLength then asciiChars (Text.base64 text) ++ ['\n']
      else (writeLiteral n (asciiChars
        (Text.cutLines binaryLineLength (Text.base64 text).length (Text.base64 text)))).line) := by
  refine (line_append _ _).trans (congrArg _ ?_)
  rw [apply_ite Written.line]
  rfl

namespace Scan

/-- A well-formed text with its line. -/
theorem scan_chars {text : Bytes} {cs : List Char} (read : Text.chars? text = some cs) (held : isHeld text = true)
    (follows : Follows k tail) (outside : k ≤ o.indent) (deeper : o.indent < n) (inside : o.indent < p.column)
    (free : Free key?) (keyAllowed : Bool) :
    ∃ e, (inBlock p (' ' :: ((writeText n text).line ++ (spaces k ++ tail))) o key? keyAllowed).Reaches e ∧
      e.At k tail (o.add (textTokens text)) := by
  have positive : 0 < (p.next ' ').column := by rw [Place.column_next isLineBreak_space]; omega
  have back := Text.ofChars_of_chars? read
  simp only [isHeld, read] at held
  simp only [writeText, textTokens, read]
  cases style : chooseStyle text cs with
  | plain =>
    obtain ⟨unambiguous, allowed⟩ := chooseStyle_plain style
    have nonempty : cs ≠ [] := by
      rintro rfl
      rw [← back] at unambiguous
      cases unambiguous
    obtain ⟨e, reaches, here⟩ := scan_plain (.of_plainAllowed nonempty allowed) follows outside inside free keyAllowed
    rw [back] at here
    refine ⟨e, ?_, here⟩
    simpa [Written.line] using reaches
  | singleQuoted =>
    obtain ⟨unfed, allowed⟩ := chooseStyle_singleQuoted style
    simp only [singleQuotedAllowed, Bool.and_eq_true, Bool.not_eq_true', List.all_eq_true] at allowed
    obtain ⟨⟨noSpaceBreak, noBreakSpace⟩, printable⟩ := allowed
    have column : 0 < ((p.next ' ').next '\'').column := by rw [Place.column_next rfl]; omega
    have indented : 0 < n := by omega
    have unquoted : ('\n' :: (spaces k ++ tail)).head? ≠ some '\'' := by simp
    obtain ⟨q, readBack⟩ := readSingleQuoted_body indented unquoted unfed (fun member => by cases printable _ member)
      noSpaceBreak noBreakSpace [] {} (by rintro ⟨⟩) (by simp) (by simp) (fun _ => column)
    obtain ⟨e, reaches, here⟩ := scan_quoted (c := '\'') rfl (singleQuotedBody n false cs ++ ['\'']) follows inside free
      (token_singleQuote positive _ o key? keyAllowed) (by simpa [Gap.fold] using readBack)
    rw [back] at here
    refine ⟨e, ?_, here⟩
    simpa [Written.line] using reaches
  | doubleQuoted =>
    have column : 0 < ((p.next ' ').next '"').column := by rw [Place.column_next rfl]; omega
    obtain ⟨q, readBack⟩ := readDoubleQuoted_escaped cs [] [] ('\n' :: (spaces k ++ tail)) column
    obtain ⟨e, reaches, here⟩ := scan_quoted (c := '"') rfl (cs.flatMap escaped ++ ['"']) follows inside free
      (token_doubleQuote positive _ o key? keyAllowed) (by simpa using readBack)
    rw [back] at here
    refine ⟨e, ?_, here⟩
    simpa [Written.line] using reaches
  | literal =>
    obtain ⟨several, -⟩ := chooseStyle_literal style
    obtain ⟨c, cs, rfl⟩ := List.exists_cons_of_ne_nil (List.ne_nil_of_mem several)
    have first : isBlank c = false ∧ isLineBreak c = false := by simpa [style] using held
    obtain ⟨e, reaches, here⟩ := scan_literal first.1 first.2 cs follows outside deeper inside free keyAllowed
    rw [back] at here
    exact ⟨e, reaches, here⟩

/-- A text that is not well-formed, with its lines of base 64. -/
theorem scan_binary {text : Bytes} (read : Text.chars? text = none) (follows : Follows k tail)
    (outside : k ≤ o.indent) (deeper : o.indent < n) (inside : o.indent < p.column) (free : Free key?)
    (keyAllowed : Bool) :
    ∃ e, (inBlock p (' ' :: ((writeText n text).line ++ (spaces k ++ tail))) o key? keyAllowed).Reaches e ∧
      e.At k tail (o.add (textTokens text)) := by
  have inBase64 : ∀ b ∈ Text.base64 text, Text.isBase64 b = true := fun b member => Text.isBase64_of_mem member
  obtain ⟨back, word⟩ := word_asciiChars inBase64
  have nonempty : Text.base64 text ≠ [] := by
    intro none
    have decoded := Text.decodeBase64?_base64 text
    rw [none, Text.decodeBase64?, List.filter_nil, Text.decodeGroups?, Option.some_inj] at decoded
    rw [← decoded] at read
    cases read
  simp only [writeText, textTokens, read, line_writeBinary, binaryScalar]
  by_cases short : (Text.base64 text).length < binaryLineLength
  · rw [if_pos short, if_pos short]
    have plain : PlainText (asciiChars (Text.base64 text)) :=
      .of_word (by simpa [asciiChars] using nonempty) word
    obtain ⟨q, key?', inside', free', tagged⟩ :=
      scan_tag (asciiChars (Text.base64 text) ++ '\n' :: (spaces k ++ tail)) inside free keyAllowed
    obtain ⟨e, reaches, here⟩ := scan_plain plain follows (o := o.add [binaryTag]) outside inside' free' false
    rw [back, Outline.add_add] at here
    refine ⟨e, ?_, here⟩
    have whole := tagged.trans reaches
    rw [List.append_assoc, List.append_assoc]
    exact whole
  · rw [if_neg short, if_neg short]
    obtain ⟨b, rest, starts⟩ := List.exists_cons_of_ne_nil nonempty
    have positive : 0 < binaryLineLength := by decide
    have head := Text.head?_cutLines positive (Text.base64 text)
    nth_rewrite 3 [starts] at head
    obtain ⟨bytes, shape⟩ := List.head?_eq_some_iff.1 head
    have ascii : ∀ b ∈ Text.cutLines binaryLineLength (Text.base64 text).length (Text.base64 text), b < 0x80 := by
      intro b member
      rcases Text.mem_cutLines member with present | rfl
      · exact (isWordChar_of_isBase64 (inBase64 b present)).1
      · decide
    have first := (isWordChar_of_isBase64 (inBase64 b (by rw [starts]; exact List.mem_cons_self))).2
    have back := ofChars_asciiChars ascii
    rw [shape] at back ⊢
    obtain ⟨q, key?', inside', free', tagged⟩ := scan_tag
      ((writeLiteral n (asciiChars (b :: bytes))).line ++ (spaces k ++ tail)) inside free keyAllowed
    obtain ⟨e, reaches, here⟩ := scan_literal (isBlank_of_isWordChar first) (isLineBreak_of_isWordChar first)
      (asciiChars bytes) follows (o := o.add [binaryTag]) outside deeper inside' free' false
    have same : Char.ofNat b.toNat :: asciiChars bytes = asciiChars (b :: bytes) := rfl
    rw [same, back, Outline.add_add] at here
    refine ⟨e, ?_, here⟩
    have whole := tagged.trans reaches
    rw [List.append_assoc]
    exact whole

theorem scan_text {text : Bytes} (held : isHeld text = true) (follows : Follows k tail) (outside : k ≤ o.indent)
    (deeper : o.indent < n) (inside : o.indent < p.column) (keyAllowed : Bool) :
    ∃ e, (inBlock p (' ' :: (writeText n text).line ++ (spaces k ++ tail)) o none keyAllowed).Reaches e ∧
      e.At k tail (o.add (textTokens text)) := by
  cases read : Text.chars? text with
  | none => exact scan_binary read follows outside deeper inside free_none keyAllowed
  | some cs => exact scan_chars read held follows outside deeper inside free_none keyAllowed

theorem scan_int (n : Int) (follows : Follows k tail) (outside : k ≤ o.indent) (inside : o.indent < p.column)
    (keyAllowed : Bool) :
    ∃ e, (inBlock p (' ' :: asciiChars (Text.decimalInt n) ++ ['\n'] ++ (spaces k ++ tail)) o none
        keyAllowed).Reaches e ∧
      e.At k tail (o.add [.scalar (Text.decimalInt n) true]) := by
  obtain ⟨plain, back⟩ := PlainText.decimalInt n
  obtain ⟨e, reaches, here⟩ := scan_plain plain follows outside inside free_none keyAllowed
  rw [back] at here
  refine ⟨e, ?_, here⟩
  rwa [List.cons_append, List.cons_append, List.append_assoc]

end Scan

/-! ## Blocks -/

/-- A word that is read as a key and stands for itself. -/
def isKey (key : String) : Bool :=
  !key.toList.isEmpty && key.toList.all isWordChar && key.toList.length ≤ maxKeyLength
    && Scalar.resolve (utf8 key) = .text (utf8 key)

theorem word_of_isKey {key : String} (isKey : isKey key = true) :
    key.toList ≠ [] ∧ (∀ c ∈ key.toList, isWordChar c = true) ∧ key.toList.length ≤ maxKeyLength := by
  simp only [Yaml.isKey, Bool.and_eq_true, Bool.not_eq_true', List.isEmpty_eq_false_iff, List.all_eq_true,
    decide_eq_true_eq] at isKey
  exact ⟨isKey.1.1.1, isKey.1.1.2, isKey.1.2⟩

/-- Blocks that a document holds as they are. -/
inductive Block.Held : Block → Prop where
  | text {s : Bytes} (held : isHeld s = true) : Held (.text s)
  | int {n : Int} (low : -2 ^ 63 ≤ n) (high : n < 2 ^ 63) : Held (.int n)
  | list {items : List Block} (held : ∀ b ∈ items, Held b) : Held (.list items)
  | record {fields : List (String × Block)} (nonempty : fields ≠ []) (keys : ∀ f ∈ fields, isKey f.1 = true)
      (distinct : (fields.map (·.1)).Nodup) (held : ∀ f ∈ fields, Held f.2) : Held (.record fields)

mutual

/-- The tokens of a block. -/
def Block.tokens : Block → List Token
  | .text s => textTokens s
  | .int n => [.scalar (Text.decimalInt n) true]
  | .list [] => [.flowListStart, .flowListEnd]
  | .list (item :: items) => .blockList :: itemTokens (item :: items) ++ [.blockEnd]
  | .record fields => .blockMap :: fieldTokens fields ++ [.blockEnd]

/-- The tokens of the items of a list. -/
def itemTokens : List Block → List Token
  | [] => []
  | item :: items => .item :: item.tokens ++ itemTokens items

/-- The tokens of the fields of a record. -/
def fieldTokens : List (String × Block) → List Token
  | [] => []
  | (key, value) :: fields =>
    .key :: .scalar (utf8 key) true :: .value :: value.tokens ++ fieldTokens fields

end

/-- A value is scanned behind the colon of its key, up to a line that is indented no further. -/
def Block.ScansValue (b : Block) : Prop :=
  ∀ ⦃w k : Nat⦄ ⦃tail : List Char⦄ ⦃o : Outline⦄ ⦃p : Place⦄, Follows k tail → k ≤ w → o.indent = w → w < p.column →
    ∃ e, (Scan.inBlock p (b.renderValue w ++ (spaces k ++ tail)) o none false).Reaches e ∧ e.At k tail (o.add b.tokens)

/-- A value is scanned behind the mark of its item, up to a line that is indented no further. -/
def Block.ScansItem (b : Block) : Prop :=
  ∀ ⦃w k : Nat⦄ ⦃tail : List Char⦄ ⦃o : Outline⦄ ⦃p : Place⦄, Follows k tail → k ≤ w → o.indent = w →
    p.column = w + 1 →
    ∃ e, (Scan.inBlock p (b.renderItem w ++ (spaces k ++ tail)) o none true).Reaches e ∧ e.At k tail (o.add b.tokens)

/-- A mark is followed by a blank or a line break. -/
theorem Block.Held.boundary {b : Block} (held : b.Held) (w : Nat) (rest : List Char) :
    (b.renderItem w ++ rest).head?.all (fun c => isBlank c || isLineBreak c) = true ∧
      (b.renderValue w ++ rest).head?.all (fun c => isBlank c || isLineBreak c) = true := by
  cases held with
  | text => exact ⟨rfl, rfl⟩
  | int => exact ⟨rfl, rfl⟩
  | @list items =>
    cases items with
    | nil => exact ⟨rfl, rfl⟩
    | cons item items => exact ⟨rfl, rfl⟩
  | @record fields nonempty =>
    obtain ⟨field, fields, rfl⟩ := List.exists_cons_of_ne_nil nonempty
    exact ⟨rfl, rfl⟩

namespace Scan

/-- The block that was open behind its first token ends. -/
theorem At.close {token : Token} {tokens : List Token} (here : s.At k tail ((o.reach w token).add tokens))
    (inside : o.indent < w) (outside : k < w) :
    s.At k tail (o.add (token :: tokens ++ [.blockEnd])) := by
  rw [Outline.reach, if_neg (by omega), Outline.add_enter] at here
  exact here.leave (by omega)

/-- An item of a list with its mark. -/
theorem scan_item {b : Block} (held : b.Held) (scans : b.ScansItem) (follows : Follows k tail) (outside : k ≤ w)
    (inside : o.indent ≤ w) (here : s.At w ('-' :: (b.renderItem w ++ (spaces k ++ tail))) o) :
    ∃ e, s.Reaches e ∧ e.At k tail ((o.reach w .blockList).add (.item :: b.tokens)) := by
  have opened : ((o.reach w .blockList).add [.item]).indent = w := Outline.indent_reach inside _
  obtain ⟨p, column, marked⟩ := here.item inside (held.boundary w _).1
  obtain ⟨e, reaches, ends⟩ := scans follows outside opened column
  rw [Outline.add_add] at ends
  exact ⟨e, marked.trans reaches, ends⟩

/-- The items of a list, from the mark of the first on. -/
theorem scan_items {b : Block} {items : List Block} (held : ∀ c ∈ b :: items, c.Held)
    (scans : ∀ c ∈ b :: items, c.ScansItem) (follows : Follows k tail) (outside : k ≤ w) (inside : o.indent ≤ w)
    (here : s.At w ('-' :: (b.renderItem w ++ (renderItems w items ++ (spaces k ++ tail)))) o) :
    ∃ e, s.Reaches e ∧ e.At k tail ((o.reach w .blockList).add (itemTokens (b :: items))) := by
  induction items generalizing s o b with
  | nil =>
    obtain ⟨e, reaches, ends⟩ :=
      scan_item (held b List.mem_cons_self) (scans b List.mem_cons_self) follows outside inside here
    exact ⟨e, reaches, by simpa [itemTokens] using ends⟩
  | cons c items ih =>
    have next : renderItems w (c :: items) ++ (spaces k ++ tail) =
        spaces w ++ '-' :: (c.renderItem w ++ (renderItems w items ++ (spaces k ++ tail))) := by
      simp [renderItems]
    rw [next] at here
    have follows' := Follows.of_solid (c := '-') rfl w (c.renderItem w ++ (renderItems w items ++ (spaces k ++ tail)))
    obtain ⟨e, reaches, ends⟩ :=
      scan_item (held b List.mem_cons_self) (scans b List.mem_cons_self) follows' (Nat.le_refl w) inside here
    have opened : ((o.reach w .blockList).add (.item :: b.tokens)).indent = w := Outline.indent_reach inside _
    obtain ⟨e', reaches', ends'⟩ := ih (List.forall_mem_cons.1 held).2 (List.forall_mem_cons.1 scans).2
      (Int.le_of_eq opened) ends
    rw [Outline.reach_of_eq opened, Outline.add_add] at ends'
    exact ⟨e', reaches.trans reaches', ends'⟩

/-- A field of a record with its key. -/
theorem scan_field {key : String} (isKey : isKey key = true) {b : Block} (held : b.Held) (scans : b.ScansValue)
    (follows : Follows k tail) (outside : k ≤ w) (inside : o.indent ≤ w)
    (here : s.At w (key.toList ++ ':' :: (b.renderValue w ++ (spaces k ++ tail))) o) :
    ∃ e, s.Reaches e ∧
      e.At k tail ((o.reach w .blockMap).add (.key :: .scalar (utf8 key) true :: .value :: b.tokens)) := by
  have opened : ((o.reach w .blockMap).add [.key, .scalar (utf8 key) true, .value]).indent = w :=
    Outline.indent_reach inside _
  obtain ⟨nonempty, word, short⟩ := word_of_isKey isKey
  have apart : ∀ c ∈ key.toList.head?, markIndicators.contains c = false ∧ c ≠ '.' := fun c member =>
    have here := word c (List.mem_of_mem_head? member)
    ⟨(contains_of_isWordChar here).2, ne_of_isWordChar here rfl⟩
  obtain ⟨p, column, marked⟩ := here.key inside (.of_word nonempty word) short apart (held.boundary w _).2
  obtain ⟨e, reaches, ends⟩ := scans follows outside opened column
  rw [Outline.add_add] at ends
  exact ⟨e, marked.trans reaches, ends⟩

theorem follows_renderFields {key : String} (isKey : isKey key = true) (w : Nat) (b : Block)
    (fields : List (String × Block)) (rest : List Char) :
    Follows w (renderFields w [] ((key, b) :: fields) ++ rest) := by
  obtain ⟨nonempty, word, -⟩ := word_of_isKey isKey
  obtain ⟨c, cs, shape⟩ := List.exists_cons_of_ne_nil nonempty
  have solid := isSolid_of_isWordChar (word c (by rw [shape]; exact List.mem_cons_self))
  have text : renderFields w [] ((key, b) :: fields) ++ rest =
      c :: (cs ++ ':' :: b.renderValue w ++ renderFields w (spaces w) fields ++ rest) := by
    simp [renderFields, shape]
  rw [text]
  exact .of_solid solid w _

/-- The fields of a record, from the first key on. -/
theorem scan_fields {f : String × Block} {fields : List (String × Block)} (keys : ∀ g ∈ f :: fields, isKey g.1 = true)
    (held : ∀ g ∈ f :: fields, g.2.Held) (scans : ∀ g ∈ f :: fields, g.2.ScansValue) (follows : Follows k tail)
    (outside : k ≤ w) (inside : o.indent ≤ w)
    (here : s.At w (renderFields w [] (f :: fields) ++ (spaces k ++ tail)) o) :
    ∃ e, s.Reaches e ∧ e.At k tail ((o.reach w .blockMap).add (fieldTokens (f :: fields))) := by
  induction fields generalizing s o f with
  | nil =>
    have shape : renderFields w [] [f] ++ (spaces k ++ tail) =
        f.1.toList ++ ':' :: (f.2.renderValue w ++ (spaces k ++ tail)) := by
      simp [renderFields]
    rw [shape] at here
    obtain ⟨e, reaches, ends⟩ := scan_field (keys f List.mem_cons_self) (held f List.mem_cons_self)
      (scans f List.mem_cons_self) follows outside inside here
    exact ⟨e, reaches, by simpa [fieldTokens] using ends⟩
  | cons g fields ih =>
    have shape : renderFields w [] (f :: g :: fields) ++ (spaces k ++ tail) = f.1.toList ++ ':' ::
        (f.2.renderValue w ++ (spaces w ++ (renderFields w [] (g :: fields) ++ (spaces k ++ tail)))) := by
      simp [renderFields]
    rw [shape] at here
    have follows' := follows_renderFields (keys g (by simp)) w g.2 fields (spaces k ++ tail)
    obtain ⟨e, reaches, ends⟩ := scan_field (keys f List.mem_cons_self) (held f List.mem_cons_self)
      (scans f List.mem_cons_self) follows' (Nat.le_refl w) inside here
    have opened : ((o.reach w .blockMap).add (.key :: .scalar (utf8 f.1) true :: .value :: f.2.tokens)).indent = w :=
      Outline.indent_reach inside _
    obtain ⟨e', reaches', ends'⟩ := ih (List.forall_mem_cons.1 keys).2 (List.forall_mem_cons.1 held).2
      (List.forall_mem_cons.1 scans).2 (Int.le_of_eq opened) ends
    rw [Outline.reach_of_eq opened, Outline.add_add] at ends'
    exact ⟨e', reaches.trans reaches', ends'⟩

end Scan

theorem lt_nestedIndent (w : Nat) : w < nestedIndent w := by
  simp only [nestedIndent, indentWidth]
  omega

theorem renderFields_start (w : Nat) (start : List Char) (f : String × Block) (fields : List (String × Block)) :
    renderFields w start (f :: fields) = start ++ renderFields w [] (f :: fields) := by
  simp [renderFields]

theorem scans_list {item : Block} {items : List Block} (held : ∀ b ∈ item :: items, b.Held)
    (scans : ∀ b ∈ item :: items, b.ScansItem) :
    (Block.list (item :: items)).ScansValue ∧ (Block.list (item :: items)).ScansItem := by
  constructor
  · intro w k tail o p follows outside indent inside
    have nested := lt_nestedIndent w
    have starts := Follows.of_solid (c := '-') rfl (nestedIndent w) (item.renderItem (nestedIndent w) ++
      (renderItems (nestedIndent w) items ++ (spaces k ++ tail)))
    obtain ⟨e, reaches, ends⟩ := Scan.scan_items held scans follows (by omega) (by omega)
      (Scan.At.of_lineEnd starts p o Scan.free_none false)
    refine ⟨e, ?_, ends.close (by omega) (by omega)⟩
    simpa [Block.renderValue, renderItems] using reaches
  · intro w k tail o p follows outside indent column
    have nested : p.column + 1 = w + markWidth := by rw [column, markWidth]
    obtain ⟨e, reaches, ends⟩ := Scan.scan_items held scans follows (by omega) (by omega)
      (Scan.At.of_space (.of_solid (c := '-') rfl _ _) nested o Scan.free_none)
    refine ⟨e, ?_, ends.close (by omega) (by omega)⟩
    simpa [Block.renderItem] using reaches

theorem scans_record {f : String × Block} {fields : List (String × Block)}
    (keys : ∀ g ∈ f :: fields, isKey g.1 = true) (held : ∀ g ∈ f :: fields, g.2.Held)
    (scans : ∀ g ∈ f :: fields, g.2.ScansValue) :
    (Block.record (f :: fields)).ScansValue ∧ (Block.record (f :: fields)).ScansItem := by
  have starts (w : Nat) := Scan.follows_renderFields (keys f List.mem_cons_self) w f.2 fields
  constructor
  · intro w k tail o p follows outside indent inside
    have nested := lt_nestedIndent w
    obtain ⟨e, reaches, ends⟩ := Scan.scan_fields keys held scans follows (by omega) (by omega)
      (Scan.At.of_lineEnd (starts (nestedIndent w) (spaces k ++ tail)) p o Scan.free_none false)
    refine ⟨e, ?_, ends.close (by omega) (by omega)⟩
    rw [Block.renderValue, renderFields_start, List.cons_append, List.append_assoc]
    exact reaches
  · intro w k tail o p follows outside indent column
    have nested : p.column + 1 = w + markWidth := by rw [column, markWidth]
    obtain ⟨e, reaches, ends⟩ := Scan.scan_fields keys held scans follows (by omega) (by omega)
      (Scan.At.of_space (starts (w + markWidth) (spaces k ++ tail)) nested o Scan.free_none)
    refine ⟨e, ?_, ends.close (by omega) (by omega)⟩
    rw [Block.renderItem, renderFields_start, List.append_assoc]
    exact reaches

/-- A block is scanned to its tokens. -/
theorem Block.Held.scans {b : Block} (held : b.Held) : b.ScansValue ∧ b.ScansItem := by
  induction held with
  | text held =>
    constructor
    · intro w k tail o p follows outside indent inside
      have nested := lt_nestedIndent w
      exact Scan.scan_text held follows (by omega) (by omega) (by omega) false
    · intro w k tail o p follows outside indent column
      have nested : w < w + markWidth := by rw [markWidth]; omega
      exact Scan.scan_text held follows (by omega) (by omega) (by omega) true
  | @int n =>
    constructor
    · intro w k tail o p follows outside indent inside
      exact Scan.scan_int n follows (by omega) (by omega) false
    · intro w k tail o p follows outside indent column
      exact Scan.scan_int n follows (by omega) (by omega) true
  | @list items held ih =>
    cases items with
    | nil =>
      constructor
      · intro w k tail o p follows outside indent inside
        exact Scan.scan_empty follows (by omega) Scan.free_none false
      · intro w k tail o p follows outside indent column
        exact Scan.scan_empty follows (by omega) Scan.free_none true
    | cons item items => exact scans_list held fun b member => (ih b member).2
  | @record fields nonempty keys _ held ih =>
    obtain ⟨f, fields, rfl⟩ := List.exists_cons_of_ne_nil nonempty
    exact scans_record keys held fun g member => (ih g member).1

/-- The end of a text ends its outermost block. -/
theorem Scan.At.step_end {tokens : List Token} (here : s.At 0 [] ((({} : Outline).reach 0 .blockMap).add tokens)) :
    ∃ e, s.step = some (e, false) ∧ e.tokens.toList = .blockMap :: tokens ++ [.blockEnd, .streamEnd] := by
  obtain ⟨q, key?, -, free, settled⟩ := here.settled
  have outline : (({} : Outline).reach 0 .blockMap).add tokens =
      (({} : Outline).add (.blockMap :: tokens)).enter 0 := by
    rw [Outline.reach, if_neg (by decide), Outline.add_enter]
    rfl
  rw [outline] at settled
  have whole : (inBlock q [] ((({} : Outline).add (.blockMap :: tokens)).enter 0) key? true).unrollIndent (0 : Nat) =
      inBlock q [] ((({} : Outline).add (.blockMap :: tokens)).enter 0) key? true :=
    unrollIndent_of_le (Int.le_refl 0) q [] key? true
  have ended : (inBlock q [] ((({} : Outline).add (.blockMap :: tokens)).enter 0) key? true).unrollIndent (-1) =
      inBlock q [] (({} : Outline).add (.blockMap :: tokens ++ [.blockEnd])) key? true := by
    rw [unrollIndent_enter (by decide), unrollIndent_of_le (Int.le_refl (-1))]
  refine ⟨(inBlock q [] (({} : Outline).add (.blockMap :: tokens ++ [.blockEnd])) none false).emit .streamEnd, ?_, ?_⟩
  · rw [Scan.step, settled, whole]
    simp only [rest_inBlock, Place.spots_nil, peek?, List.head?_nil, Option.map_none, endBlocks, ended,
      dropKey_inBlock free]
    rfl
  · simp [Scan.emit, inBlock, Outline.add]

/-- The tokens of the text of a document. -/
theorem run_renderFields {f : String × Block} {fields : List (String × Block)}
    (keys : ∀ g ∈ f :: fields, isKey g.1 = true) (held : ∀ g ∈ f :: fields, g.2.Held) {fuel : Nat}
    (enough : (renderFields 0 [] (f :: fields)).length < fuel) :
    Scan.run { rest := spotsFrom 0 0 0 (renderFields 0 [] (f :: fields)) } fuel =
      .blockMap :: fieldTokens (f :: fields) ++ [.blockEnd, .streamEnd] := by
  have last : Follows 0 [] := ⟨by simp, fun _ => rfl⟩
  have starts := Scan.follows_renderFields (keys f List.mem_cons_self) 0 f.2 fields []
  have scans : ∀ g ∈ f :: fields, g.2.ScansValue := fun g member => (held g member).scans.1
  obtain ⟨e, reaches, ends⟩ := Scan.scan_fields keys held scans last (Nat.le_refl 0) (o := {}) (by decide)
    (Scan.At.of_place starts (q := ⟨0, 0, 0⟩) rfl {} Scan.free_none)
  obtain ⟨final, stops, tokens⟩ := ends.step_end
  rw [List.append_nil] at reaches
  rw [← tokens]
  exact reaches.run stops (by simpa using enough)

end JvmCoupling.Yaml
