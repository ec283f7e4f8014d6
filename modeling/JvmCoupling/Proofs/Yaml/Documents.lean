import JvmCoupling.Proofs.Yaml.Blocks
import JvmCoupling.Proofs.Yaml.Numbers
import JvmCoupling.Yaml.Value
import Mathlib

/-! # Documents read back

A written document is read back to the values it was written from, if all its texts are held: nodes are put together
from the tokens, and values are made of them.

* `IsWritten`, `Block.Held.isWritten` — the characters of a document, all of which may stand in one;
* `ofText_renderDocument` — the tokens of a document;
* `Block.node`, `Block.Held.reads` — the node of a block, and that it is put together from its tokens;
* `Block.value`, `Block.Held.ofNode?_node` — the value of a block, and that it is the meaning of its node;
* `parseMap?_renderDocument` — a document is read back.
-/

namespace JvmCoupling.Yaml

/-! ## Characters -/

/-- A text of characters that are written as they are. -/
def IsWritten (cs : List Char) : Prop := ∀ c ∈ cs, isPrintable c = true ∨ c = '\t'

namespace IsWritten

theorem nil : IsWritten [] := by
  simp [IsWritten]

theorem cons {c : Char} {cs : List Char} (first : isPrintable c = true) (rest : IsWritten cs) : IsWritten (c :: cs) :=
  List.forall_mem_cons.2 ⟨Or.inl first, rest⟩

theorem append {cs ds : List Char} (front : IsWritten cs) (back : IsWritten ds) : IsWritten (cs ++ ds) :=
  List.forall_mem_append.2 ⟨front, back⟩

theorem spaces (n : Nat) : IsWritten (spaces n) := by
  intro c member
  rw [List.eq_of_mem_replicate member]
  exact Or.inl rfl

theorem of_printable {cs : List Char} (printable : ∀ c ∈ cs, isPrintable c = true) : IsWritten cs :=
  fun c member => Or.inl (printable c member)

theorem of_word {cs : List Char} (word : ∀ c ∈ cs, isWordChar c = true) : IsWritten cs := by
  refine of_printable fun c member => ?_
  have here := word c member
  simp only [isWordChar, isPrintable, Bool.or_eq_true, Bool.and_eq_true, decide_eq_true_eq] at here ⊢
  omega

theorem line {w : Written} (text : IsWritten w.text) : IsWritten w.line := by
  rw [Written.line]
  split
  · exact text
  · exact text.append (.cons rfl .nil)

theorem singleQuotedBody (n : Nat) (afterBreak : Bool) {cs : List Char} (written : IsWritten cs) :
    IsWritten (singleQuotedBody n afterBreak cs) := by
  induction cs generalizing afterBreak with
  | nil => exact nil
  | cons c cs ih =>
    obtain ⟨first, rest⟩ := List.forall_mem_cons.1 written
    rw [Yaml.singleQuotedBody]
    split
    · exact List.forall_mem_cons.2 ⟨first, ih true rest⟩
    · refine append (append ?_ ?_) (List.forall_mem_cons.2 ⟨first, ih false rest⟩)
      · split
        · exact spaces n
        · exact nil
      · split
        · exact cons rfl nil
        · exact nil

theorem literalBody (n : Nat) (lineOpen afterBreak : Bool) {cs : List Char} (written : IsWritten cs) :
    IsWritten (literalBody n lineOpen afterBreak cs).text := by
  induction cs generalizing lineOpen afterBreak with
  | nil => exact nil
  | cons c cs ih =>
    obtain ⟨first, rest⟩ := List.forall_mem_cons.1 written
    rw [Yaml.literalBody]
    split
    · exact List.forall_mem_cons.2 ⟨first, ih false true rest⟩
    · refine append ?_ (List.forall_mem_cons.2 ⟨first, ih true false rest⟩)
      split
      · refine append ?_ (spaces n)
        split
        · exact cons rfl nil
        · exact nil
      · exact nil

theorem writeLiteral (n : Nat) {cs : List Char} (written : IsWritten cs) : IsWritten (writeLiteral n cs).text := by
  refine append (cons rfl (append ?_ ?_)) (literalBody n true true written)
  · split
    · exact (word_asciiChars (isBase64_of_mem_decimal _)).2 |> of_word
    · exact nil
  · have ends := literalEnd_mem cs
    simp only [List.mem_cons, List.not_mem_nil, or_false] at ends
    rcases ends with mark | mark | mark <;> rw [mark]
    · exact cons rfl nil
    · exact nil
    · exact cons rfl nil

theorem of_singleQuotedAllowed {cs : List Char} (allowed : singleQuotedAllowed cs = true) : IsWritten cs := by
  simp only [singleQuotedAllowed, Bool.and_eq_true, List.all_eq_true] at allowed
  exact of_printable allowed.2

/-- Every text is written with such characters only. -/
theorem writeText (n : Nat) (text : Bytes) : IsWritten (writeText n text).text := by
  rw [Yaml.writeText]
  cases read : Text.chars? text with
  | none =>
    have inBase64 : ∀ b ∈ Text.base64 text, Text.isBase64 b = true := fun b member => Text.isBase64_of_mem member
    refine append (of_printable (by simp [isPrintable])) ?_
    split
    · exact of_word (word_asciiChars inBase64).2
    · refine writeLiteral n fun c member => ?_
      obtain ⟨b, present, rfl⟩ := List.mem_map.1 member
      rcases Text.mem_cutLines present with inside | rfl
      · exact of_word (word_asciiChars inBase64).2 _ (List.mem_map_of_mem inside)
      · exact Or.inl rfl
  | some cs =>
    cases style : chooseStyle text cs with
    | plain =>
      obtain ⟨-, allowed⟩ := chooseStyle_plain style
      simp only [style]
      cases cs with
      | nil => exact nil
      | cons c cs =>
        simp only [plainAllowed, Bool.and_eq_true] at allowed
        exact of_singleQuotedAllowed allowed.1.1.1.1.1.1.1.1
    | singleQuoted =>
      obtain ⟨-, allowed⟩ := chooseStyle_singleQuoted style
      simp only [style]
      exact append (cons rfl (singleQuotedBody n false (of_singleQuotedAllowed allowed))) (cons rfl nil)
    | doubleQuoted =>
      simp only [style]
      refine append (cons rfl (of_printable fun d member => ?_)) (cons rfl nil)
      obtain ⟨c, -, inside⟩ := List.mem_flatMap.1 member
      exact (Bool.and_eq_true_iff.1 (inline_escaped c d inside)).1
    | literal =>
      obtain ⟨-, allowed⟩ := chooseStyle_literal style
      simp only [style]
      refine writeLiteral n fun c member => ?_
      simp only [literalAllowed, Bool.and_eq_true, List.all_eq_true] at allowed
      simpa using allowed.2 c member

end IsWritten

theorem IsWritten.decimalInt (n : Int) : IsWritten (asciiChars (Text.decimalInt n)) := by
  cases n with
  | ofNat n => exact of_word (word_asciiChars (isBase64_of_mem_decimal n)).2
  | negSucc n => exact cons rfl (of_word (word_asciiChars (isBase64_of_mem_decimal (n + 1))).2)

theorem IsWritten.renderItems {items : List Block} (written : ∀ b ∈ items, ∀ w, IsWritten (b.renderItem w)) (w : Nat) :
    IsWritten (renderItems w items) := by
  induction items with
  | nil => exact nil
  | cons b items ih =>
    obtain ⟨first, rest⟩ := List.forall_mem_cons.1 written
    exact append (append (spaces w) (cons rfl (first w))) (ih rest)

theorem IsWritten.renderFields {fields : List (String × Block)} (keys : ∀ f ∈ fields, isKey f.1 = true)
    (written : ∀ f ∈ fields, ∀ w, IsWritten (f.2.renderValue w)) (w : Nat) {start : List Char}
    (front : IsWritten start) :
    IsWritten (renderFields w start fields) := by
  induction fields generalizing start with
  | nil => exact nil
  | cons f fields ih =>
    obtain ⟨first, rest⟩ := List.forall_mem_cons.1 written
    obtain ⟨key, keys⟩ := List.forall_mem_cons.1 keys
    exact append (append (append front (of_word (word_of_isKey key).2.1)) (cons rfl (first w)))
      (ih keys rest (spaces w))

/-- The characters of a block. -/
theorem Block.Held.isWritten {b : Block} (held : b.Held) :
    (∀ w, IsWritten (b.renderValue w)) ∧ ∀ w, IsWritten (b.renderItem w) := by
  induction held with
  | @text s =>
    exact ⟨fun w => .cons rfl (.line (.writeText _ s)), fun w => .cons rfl (.line (.writeText _ s))⟩
  | @int n =>
    exact ⟨fun w => .append (.cons rfl (.decimalInt n)) (.cons rfl .nil),
      fun w => .append (.cons rfl (.decimalInt n)) (.cons rfl .nil)⟩
  | @list items _ ih =>
    have each := IsWritten.renderItems fun b member => (ih b member).2
    cases items with
    | nil =>
      have empty : IsWritten " []\n".toList := .of_printable (by simp [isPrintable])
      exact ⟨fun _ => empty, fun _ => empty⟩
    | cons item items =>
      refine ⟨fun w => .cons rfl (each _), fun w => ?_⟩
      have rest := IsWritten.renderItems (fun b member => (ih b (List.mem_cons_of_mem _ member)).2) (w + markWidth)
      exact .append (.cons rfl (.cons rfl ((ih item List.mem_cons_self).2 _))) rest
  | record _ keys _ _ ih =>
    have each := IsWritten.renderFields keys fun f member => (ih f member).1
    exact ⟨fun w => .cons rfl (each _ (.spaces _)), fun w => each _ (.cons rfl .nil)⟩

theorem IsWritten.allowed {cs : List Char} (written : IsWritten cs) : cs.all isAllowed = true := by
  rw [List.all_eq_true]
  intro c member
  rcases written c member with printable | rfl
  · rw [isAllowed, printable]
    exact Bool.or_true _
  · rfl

/-- There is only one kind of line break to unify. -/
theorem IsWritten.unifyBreaks {cs : List Char} (written : IsWritten cs) : unifyBreaks cs = cs := by
  fun_induction Yaml.unifyBreaks cs with
  | case1 rest => cases (written '\r' List.mem_cons_self).resolve_right (by decide)
  | case2 c rest _ ih =>
    obtain ⟨here, rest⟩ := List.forall_mem_cons.1 written
    have other : ¬(decide (c = '\r') || decide (c.toNat = 0x85)) = true := by
      rw [Bool.or_eq_true, decide_eq_true_iff, decide_eq_true_iff]
      rcases here with printable | rfl
      · rintro (rfl | code)
        · cases printable
        · rw [isPrintable, code] at printable
          cases printable
      · decide
    rw [if_neg other, ih rest]
  | case3 => rfl

/-- The tokens of a document. -/
theorem ofText_renderDocument {f : String × Block} {fields : List (String × Block)}
    (keys : ∀ g ∈ f :: fields, isKey g.1 = true) (held : ∀ g ∈ f :: fields, g.2.Held) :
    Token.ofText (renderDocument (f :: fields)) =
      .blockMap :: fieldTokens (f :: fields) ++ [.blockEnd, .streamEnd] := by
  have written : IsWritten (renderFields 0 [] (f :: fields)) :=
    .renderFields keys (fun g member => (held g member).isWritten.1) 0 .nil
  have first := (Scan.follows_renderFields (keys f List.mem_cons_self) 0 f.2 fields []).solid
  rw [List.append_nil] at first
  have unmarked : dropByteOrderMark (renderFields 0 [] (f :: fields)) = renderFields 0 [] (f :: fields) := by
    cases shape : renderFields 0 [] (f :: fields) with
    | nil => rfl
    | cons c cs =>
      rw [shape] at first
      rw [dropByteOrderMark, if_neg (isSolid_iff.1 (first c rfl)).2.2.2]
  rw [Token.ofText, renderDocument, Text.chars?_ofChars]
  simp only [unmarked, written.allowed, written.unifyBreaks, Bool.not_true, Bool.false_eq_true, if_false]
  exact run_renderFields keys held (by omega)

/-! ## Nodes -/

/-- The node of a text. -/
def textNode (text : Bytes) : Node :=
  match Text.chars? text with
  | none => .scalar (standardTag ++ utf8 "binary") (binaryScalar text).1 (binaryScalar text).2
  | some cs => .scalar [] text (chooseStyle text cs = .plain)

mutual

/-- The node of a block. -/
def Block.node : Block → Node
  | .text s => textNode s
  | .int n => .scalar [] (Text.decimalInt n) true
  | .list items => .list (itemNodes items)
  | .record fields => .map (fieldNodes fields)

/-- The nodes of the items of a list. -/
def itemNodes : List Block → List Node
  | [] => []
  | item :: items => item.node :: itemNodes items

/-- The nodes of the fields of a record. -/
def fieldNodes : List (String × Block) → List (Node × Node)
  | [] => []
  | (key, value) :: fields => (.scalar [] (utf8 key) true, value.node) :: fieldNodes fields

end

namespace Reader

theorem node_scalar (inMap : Bool) (fuel : Nat) (text : Bytes) (isPlain : Bool) (rest : List Token) :
    node true inMap (fuel + 1) { tokens := .scalar text isPlain :: rest } =
      some (.scalar [] text isPlain, { tokens := rest }) := by
  rw [node]
  rfl

theorem node_binary (inMap : Bool) (fuel : Nat) (text : Bytes) (isPlain : Bool) (rest : List Token) :
    node true inMap (fuel + 1) { tokens := Scan.binaryTag :: .scalar text isPlain :: rest } =
      some (.scalar (standardTag ++ utf8 "binary") text isPlain, { tokens := rest }) := by
  rw [node]
  rfl

theorem node_emptyList (inMap : Bool) (fuel : Nat) (rest : List Token) :
    node true inMap (fuel + 2) { tokens := .flowListStart :: .flowListEnd :: rest } =
      some (.list [], { tokens := rest }) := by
  rw [node]
  rfl

/-- A block list is read as its items are. -/
theorem node_blockList (inMap : Bool) {fuel : Nat} {tokens rest : List Token} {items : List Node}
    (read : blockItems fuel { tokens } = some (items, { tokens := rest })) :
    node true inMap (fuel + 1) { tokens := .blockList :: tokens } = some (.list items, { tokens := rest }) := by
  have step : node true inMap (fuel + 1) { tokens := .blockList :: tokens } =
      StateT.bind (blockItems fuel) (fun items => register {} (.list items)) { tokens } := by
    rw [node]
    rfl
  rw [step, StateT.bind, read]
  rfl

theorem node_blockMap (inMap : Bool) {fuel : Nat} {tokens rest : List Token} {entries : List (Node × Node)}
    (read : blockEntries fuel { tokens } = some (entries, { tokens := rest })) :
    node true inMap (fuel + 1) { tokens := .blockMap :: tokens } = some (.map entries, { tokens := rest }) := by
  have step : node true inMap (fuel + 1) { tokens := .blockMap :: tokens } =
      StateT.bind (blockEntries fuel) (fun entries => register {} (.map entries)) { tokens } := by
    rw [node]
    rfl
  rw [step, StateT.bind, read]
  rfl

theorem blockItems_end (fuel : Nat) (rest : List Token) :
    blockItems (fuel + 1) { tokens := .blockEnd :: rest } = some ([], { tokens := rest }) := by
  rw [blockItems]
  rfl

theorem blockEntries_end (fuel : Nat) (rest : List Token) :
    blockEntries (fuel + 1) { tokens := .blockEnd :: rest } = some ([], { tokens := rest }) := by
  rw [blockEntries]
  rfl

theorem nodeUnless_eq (stops : List Token) {token : Token} (other : stops.contains token = false) (inMap : Bool)
    (fuel : Nat) (rest : List Token) :
    nodeUnless stops true inMap (fuel + 1) { tokens := token :: rest } =
      node true inMap fuel { tokens := token :: rest } := by
  have step : nodeUnless stops true inMap (fuel + 1) { tokens := token :: rest } =
      (if stops.contains token then (return .absent) else node true inMap fuel) { tokens := token :: rest } := by
    rw [nodeUnless]
    rfl
  rw [step, other]
  rfl

theorem blockItems_cons {fuel : Nat} {tokens between rest : List Token} {first : Node} {items : List Node}
    (read : nodeUnless [.item, .blockEnd] true false fuel { tokens } = some (first, { tokens := between }))
    (others : blockItems fuel { tokens := between } = some (items, { tokens := rest })) :
    blockItems (fuel + 1) { tokens := .item :: tokens } = some (first :: items, { tokens := rest }) := by
  have step : blockItems (fuel + 1) { tokens := .item :: tokens } =
      StateT.bind (nodeUnless [.item, .blockEnd] true false fuel)
        (fun first => StateT.bind (blockItems fuel) fun items => pure (first :: items)) { tokens } := by
    rw [blockItems]
    rfl
  rw [step, StateT.bind, read]
  simp only [Option.bind_eq_bind, Option.bind_some, StateT.bind, others]
  rfl

theorem blockEntries_cons {fuel : Nat} {key : Bytes} {tokens between rest : List Token} {value : Node}
    {entries : List (Node × Node)}
    (read : nodeUnless [.key, .value, .blockEnd] true true (fuel + 1) { tokens } = some (value, { tokens := between }))
    (others : blockEntries (fuel + 2) { tokens := between } = some (entries, { tokens := rest })) :
    blockEntries (fuel + 3) { tokens := .key :: .scalar key true :: .value :: tokens } =
      some ((.scalar [] key true, value) :: entries, { tokens := rest }) := by
  have step : blockEntries (fuel + 3) { tokens := .key :: .scalar key true :: .value :: tokens } =
      StateT.bind (nodeUnless [.key, .value, .blockEnd] true true (fuel + 2))
        (fun node => StateT.bind (valueUnless [.key, .value, .blockEnd] true true (fuel + 2)) fun value =>
          StateT.bind (blockEntries (fuel + 2)) fun entries => pure ((node, value) :: entries))
        { tokens := .scalar key true :: .value :: tokens } := by
    rw [blockEntries]
    rfl
  have keyed := (nodeUnless_eq [.key, .value, .blockEnd] rfl true (fuel + 1) _).trans
    (node_scalar true fuel key true (.value :: tokens))
  have valued : valueUnless [.key, .value, .blockEnd] true true (fuel + 2) { tokens := .value :: tokens } =
      nodeUnless [.key, .value, .blockEnd] true true (fuel + 1) { tokens } := by
    rw [valueUnless]
    rfl
  rw [step, StateT.bind, keyed]
  simp only [Option.bind_eq_bind, Option.bind_some, StateT.bind, valued, read, others]
  rfl

end Reader

/-- A node is put together from the tokens of a block, whatever follows. -/
def Block.Reads (b : Block) : Prop :=
  ∀ ⦃rest : List Token⦄ ⦃fuel : Nat⦄ (inMap : Bool), 2 * b.tokens.length ≤ fuel →
    Reader.node true inMap fuel { tokens := b.tokens ++ rest } = some (b.node, { tokens := rest })

/-- The first token of a block is none that could stand in its place. -/
theorem Block.exists_tokens (b : Block) :
    ∃ token rest, b.tokens = token :: rest ∧ ∀ stop ∈ [Token.item, .key, .value, .blockEnd], token ≠ stop := by
  cases b with
  | text s =>
    rw [Block.tokens, textTokens]
    split
    · exact ⟨Scan.binaryTag, _, rfl, by decide⟩
    · exact ⟨.scalar s _, _, rfl, by simp⟩
  | int n => exact ⟨.scalar (Text.decimalInt n) true, _, rfl, by simp⟩
  | list items =>
    cases items with
    | nil => exact ⟨.flowListStart, _, rfl, by decide⟩
    | cons item items => exact ⟨.blockList, _, rfl, by decide⟩
  | record fields => exact ⟨.blockMap, _, rfl, by decide⟩

/-- A value that is there is read. -/
theorem Block.Reads.unless {b : Block} (reads : b.Reads) (stops : List Token)
    (marks : ∀ stop ∈ stops, stop ∈ [Token.item, .key, .value, .blockEnd]) (inMap : Bool) {fuel : Nat}
    (enough : 2 * b.tokens.length ≤ fuel) (rest : List Token) :
    Reader.nodeUnless stops true inMap (fuel + 1) { tokens := b.tokens ++ rest } =
      some (b.node, { tokens := rest }) := by
  obtain ⟨token, tokens, shape, other⟩ := b.exists_tokens
  have unstopped : stops.contains token = false := by
    rw [Bool.eq_false_iff]
    intro stop
    exact other token (marks token (List.contains_iff_mem.1 stop)) rfl
  rw [shape, List.cons_append, Reader.nodeUnless_eq stops unstopped, ← List.cons_append, ← shape]
  exact reads inMap enough

theorem reads_items {items : List Block} (reads : ∀ b ∈ items, b.Reads) {fuel : Nat}
    (enough : 2 * (itemTokens items).length < fuel) (rest : List Token) :
    Reader.blockItems fuel { tokens := itemTokens items ++ .blockEnd :: rest } =
      some (itemNodes items, { tokens := rest }) := by
  induction items generalizing fuel with
  | nil =>
    obtain ⟨fuel, rfl⟩ : ∃ n, fuel = n + 1 := ⟨fuel - 1, by omega⟩
    exact Reader.blockItems_end fuel rest
  | cons b items ih =>
    obtain ⟨first, others⟩ := List.forall_mem_cons.1 reads
    simp only [itemTokens, List.length_append, List.length_cons] at enough
    obtain ⟨fuel, rfl⟩ : ∃ n, fuel = n + 2 := ⟨fuel - 2, by omega⟩
    have covered : 2 * b.tokens.length ≤ fuel := by omega
    have read := first.unless [.item, .blockEnd] (by decide) false covered (itemTokens items ++ .blockEnd :: rest)
    simp only [itemTokens, List.cons_append, List.append_assoc]
    exact Reader.blockItems_cons read (ih others (by omega))

theorem reads_fields {fields : List (String × Block)} (reads : ∀ f ∈ fields, f.2.Reads) {fuel : Nat}
    (enough : 2 * (fieldTokens fields).length < fuel) (rest : List Token) :
    Reader.blockEntries fuel { tokens := fieldTokens fields ++ .blockEnd :: rest } =
      some (fieldNodes fields, { tokens := rest }) := by
  induction fields generalizing fuel with
  | nil =>
    obtain ⟨fuel, rfl⟩ : ∃ n, fuel = n + 1 := ⟨fuel - 1, by omega⟩
    exact Reader.blockEntries_end fuel rest
  | cons f fields ih =>
    obtain ⟨first, others⟩ := List.forall_mem_cons.1 reads
    simp only [fieldTokens, List.length_append, List.length_cons] at enough
    obtain ⟨fuel, rfl⟩ : ∃ n, fuel = n + 3 := ⟨fuel - 3, by omega⟩
    have covered : 2 * f.2.tokens.length ≤ fuel := by omega
    have read := first.unless [.key, .value, .blockEnd] (by decide) true covered
      (fieldTokens fields ++ .blockEnd :: rest)
    simp only [fieldTokens, List.cons_append, List.append_assoc]
    exact Reader.blockEntries_cons read (ih others (by omega))

/-- The node of a block is put together from its tokens. -/
theorem Block.Held.reads {b : Block} (held : b.Held) : b.Reads := by
  induction held with
  | @text s =>
    intro rest fuel inMap enough
    have nonempty : 0 < (textTokens s).length := by
      rw [textTokens]
      split <;> exact Nat.zero_lt_succ _
    obtain ⟨fuel, rfl⟩ : ∃ n, fuel = n + 1 := ⟨fuel - 1, by rw [Block.tokens] at enough; omega⟩
    simp only [Block.tokens, Block.node, textTokens, textNode]
    cases Text.chars? s with
    | none => exact Reader.node_binary inMap fuel _ _ rest
    | some cs => exact Reader.node_scalar inMap fuel s _ rest
  | @int n =>
    intro rest fuel inMap enough
    obtain ⟨fuel, rfl⟩ : ∃ n, fuel = n + 1 := ⟨fuel - 1, by simp [Block.tokens] at enough; omega⟩
    exact Reader.node_scalar inMap fuel _ true rest
  | @list items _ ih =>
    intro rest fuel inMap enough
    cases items with
    | nil =>
      obtain ⟨fuel, rfl⟩ : ∃ n, fuel = n + 2 := ⟨fuel - 2, by simp [Block.tokens] at enough; omega⟩
      exact Reader.node_emptyList inMap fuel rest
    | cons item items =>
      simp only [Block.tokens, List.length_append, List.length_cons, List.length_nil] at enough
      obtain ⟨fuel, rfl⟩ : ∃ n, fuel = n + 1 := ⟨fuel - 1, by omega⟩
      have covered : 2 * (itemTokens (item :: items)).length < fuel := by omega
      have read := reads_items ih covered rest
      rw [Block.tokens, List.append_assoc, List.cons_append]
      exact Reader.node_blockList inMap read
  | @record fields _ _ _ _ ih =>
    intro rest fuel inMap enough
    simp only [Block.tokens, List.length_append, List.length_cons, List.length_nil] at enough
    obtain ⟨fuel, rfl⟩ : ∃ n, fuel = n + 1 := ⟨fuel - 1, by omega⟩
    have covered : 2 * (fieldTokens fields).length < fuel := by omega
    have read := reads_fields ih covered rest
    rw [Block.tokens, List.append_assoc, List.cons_append]
    exact Reader.node_blockMap inMap read

/-! ## Values -/

mutual

/-- The value of a block. -/
def Block.value : Block → Value
  | .text s => .scalar (.text s)
  | .int n => .scalar (.int n)
  | .list items => .list (itemValues items)
  | .record fields => .map (fieldValues fields)

/-- The values of the items of a list. -/
def itemValues : List Block → List Value
  | [] => []
  | item :: items => item.value :: itemValues items

/-- The values of the fields of a record. -/
def fieldValues : List (String × Block) → List (Bytes × Value)
  | [] => []
  | (key, value) :: fields => (utf8 key, value.value) :: fieldValues fields

end

/-- A text is the meaning of its node. -/
theorem ofNode?_textNode (fuel : Nat) (text : Bytes) :
    Value.ofNode? (fuel + 1) (textNode text) = some (.scalar (.text text)) := by
  rw [textNode]
  cases read : Text.chars? text with
  | none =>
    have tag : scalarTags.find? (fun name => standardTag ++ utf8 name = standardTag ++ utf8 "binary") =
        some "binary" := by decide +kernel
    have decoded : Text.decodeBase64? (binaryScalar text).1 = some text := by
      rw [binaryScalar]
      split
      · exact Text.decodeBase64?_base64 text
      · exact Text.decodeBase64?_cutLines (by decide) text
    have value : scalarValue? (standardTag ++ utf8 "binary") (binaryScalar text).1 (binaryScalar text).2 =
        some (.text text) := by
      rw [scalarValue?, if_neg (by decide +kernel), tag]
      simp only [taggedValue?, decoded, Option.map_some]
    rw [Value.ofNode?, value]
    rfl
  | some cs =>
    have value : scalarValue? [] text (chooseStyle text cs = .plain) = some (.text text) := by
      rw [scalarValue?, if_pos rfl]
      split
      · next plain =>
        have unambiguous := (chooseStyle_plain (of_decide_eq_true plain)).1
        simp only [isAmbiguous, Bool.or_eq_false_iff, decide_eq_false_iff_not, ne_eq, not_not] at unambiguous
        rw [unambiguous.1.1]
      · rfl
    rw [Value.ofNode?, value]
    rfl

theorem ofNode?_items {items : List Block} {fuel : Nat}
    (meaning : ∀ b ∈ items, Value.ofNode? fuel b.node = some b.value) :
    (itemNodes items).mapM (Value.ofNode? fuel) = some (itemValues items) := by
  induction items with
  | nil => rfl
  | cons b items ih =>
    obtain ⟨first, rest⟩ := List.forall_mem_cons.1 meaning
    rw [itemNodes, List.mapM_cons, first, ih rest]
    rfl

theorem fieldNodes_eq_map (fields : List (String × Block)) :
    fieldNodes fields = fields.map fun f => (.scalar [] (utf8 f.1) true, f.2.node) := by
  induction fields with
  | nil => rfl
  | cons f fields ih => rw [fieldNodes, ih, List.map_cons]

theorem itemValues_eq_map (items : List Block) : itemValues items = items.map Block.value := by
  induction items with
  | nil => rfl
  | cons b items ih => rw [itemValues, ih, List.map_cons]

theorem fieldValues_eq_map (fields : List (String × Block)) :
    fieldValues fields = fields.map fun f => (utf8 f.1, f.2.value) := by
  induction fields with
  | nil => rfl
  | cons f fields ih => rw [fieldValues, ih, List.map_cons]

/-- Different keys are written differently. -/
theorem utf8_injective {s t : String} (same : utf8 s = utf8 t) : s = t := by
  have chars := congrArg Text.chars? same
  rw [utf8, utf8, ← Text.ofChars, ← Text.ofChars, Text.chars?_ofChars, Text.chars?_ofChars, Option.some_inj] at chars
  exact String.toList_inj.1 chars

theorem firstSeen_of_nodup {α : Type} [BEq α] [LawfulBEq α] {xs : List α} (nodup : xs.Nodup) : firstSeen xs = xs := by
  induction xs using List.reverseRecOn with
  | nil => rfl
  | append_singleton xs x ih =>
    obtain ⟨front, -, apart⟩ := List.nodup_append.1 nodup
    have fresh : xs.contains x = false := by
      rw [Bool.eq_false_iff]
      intro present
      exact apart x (List.contains_iff_mem.1 present) x List.mem_cons_self rfl
    have step : firstSeen (xs ++ [x]) = if (firstSeen xs).contains x then firstSeen xs else firstSeen xs ++ [x] := by
      simp [firstSeen, List.foldl_append]
    rw [step, ih front, fresh]
    rfl

/-- A key is read as it is written, and is not the one for merged entries. -/
theorem keyText?_key {key : String} (isKey : isKey key = true) :
    keyText? (.scalar [] (utf8 key) true) = some (some (utf8 key)) ∧
      (Node.scalar [] (utf8 key) true).isMergeKey = false := by
  constructor
  · have itself : Scalar.resolve (utf8 key) = .text (utf8 key) := by
      simp only [Yaml.isKey, Bool.and_eq_true, decide_eq_true_eq] at isKey
      exact isKey.2
    simp only [keyText?, Node.target, scalarValue?, itself, if_true]
  · have noMerge : Yaml.isKey "<<" = false := by decide +kernel
    have other : utf8 key ≠ utf8 "<<" := by
      intro same
      rw [utf8_injective same, noMerge] at isKey
      cases isKey
    simp only [Node.isMergeKey, other, decide_false, Bool.false_and]

theorem mapM_fieldNodes {fields : List (String × Block)} {fuel : Nat} (keys : ∀ f ∈ fields, isKey f.1 = true)
    (meaning : ∀ f ∈ fields, Value.ofNode? fuel f.2.node = some f.2.value) :
    (fieldNodes fields).mapM (fun entry => do return (← keyText? entry.1, ← Value.ofNode? fuel entry.2)) =
      some (fields.map fun f => (some (utf8 f.1), f.2.value)) := by
  induction fields with
  | nil => rfl
  | cons f fields ih =>
    obtain ⟨key, keys⟩ := List.forall_mem_cons.1 keys
    obtain ⟨value, meaning⟩ := List.forall_mem_cons.1 meaning
    rw [fieldNodes, List.mapM_cons, ih keys meaning, (keyText?_key key).1, value]
    rfl

/-- The entries of a record are the meaning of its fields. -/
theorem entriesOf?_fields {fields : List (String × Block)} {fuel : Nat} (keys : ∀ f ∈ fields, isKey f.1 = true)
    (distinct : (fields.map (·.1)).Nodup)
    (meaning : ∀ f ∈ fields, Value.ofNode? fuel f.2.node = some f.2.value) :
    entriesOf? (fuel + 1) (fieldNodes fields) = some (fieldValues fields) := by
  have forms : (fieldNodes fields).map (fun entry => entry.1.keyForm) =
      (fields.map (·.1)).map fun key => .scalar (utf8 key) := by
    simp [fieldNodes_eq_map, Node.keyForm]
  have nodup : ((fieldNodes fields).map fun entry => entry.1.keyForm).Nodup := by
    rw [forms]
    refine distinct.map fun key key' same => utf8_injective ?_
    injection same
  have unmerged : ∀ entry ∈ fieldNodes fields, entry.1.isMergeKey = false := by
    rw [fieldNodes_eq_map]
    intro entry member
    obtain ⟨f, present, rfl⟩ := List.mem_map.1 member
    exact (keyText?_key (keys f present)).2
  have kept : (fieldNodes fields).filter (fun entry => !entry.1.isMergeKey) = fieldNodes fields :=
    List.filter_eq_self.2 fun entry member => by rw [unmerged entry member]; rfl
  have none : (fieldNodes fields).find? (fun entry => entry.1.isMergeKey) = none :=
    List.find?_eq_none.2 fun entry member => by rw [unmerged entry member]; decide
  have named : (fields.map fun f => (some (utf8 f.1), f.2.value)).filterMap
      (fun entry => entry.1.map fun key => (key, entry.2)) = fieldValues fields := by
    simp [fieldValues_eq_map, List.filterMap_map]
  rw [entriesOf?, if_neg, kept, mapM_fieldNodes keys meaning, none]
  · exact congrArg some named
  · rw [firstSeen_of_nodup nodup]
    exact Nat.lt_irrefl _

theorem length_tokens_of_mem {b : Block} {items : List Block} (member : b ∈ items) :
    b.tokens.length < (Block.list items).tokens.length := by
  have inItems : b.tokens.length < (itemTokens items).length := by
    induction items with
    | nil => cases member
    | cons c items ih =>
      rw [itemTokens, List.length_append, List.length_cons]
      rcases List.mem_cons.1 member with rfl | member
      · omega
      · have := ih member
        omega
  cases items with
  | nil => cases member
  | cons c items =>
    rw [Block.tokens, List.length_append, List.length_cons]
    omega

theorem length_tokens_of_mem_fields {f : String × Block} {fields : List (String × Block)} (member : f ∈ fields) :
    f.2.tokens.length + 1 < (Block.record fields).tokens.length := by
  have inFields : f.2.tokens.length < (fieldTokens fields).length := by
    induction fields with
    | nil => cases member
    | cons g fields ih =>
      rw [fieldTokens, List.length_append, List.length_cons, List.length_cons, List.length_cons]
      rcases List.mem_cons.1 member with rfl | member
      · omega
      · have := ih member
        omega
  rw [Block.tokens, List.length_append, List.length_cons]
  omega

/-- Every block has a token, so that there is fuel for a record and for its entries. -/
theorem exists_fuel {b : Block} {fuel : Nat} (enough : 2 * b.tokens.length ≤ fuel) : ∃ n, fuel = n + 2 := by
  obtain ⟨token, rest, shape, -⟩ := b.exists_tokens
  rw [shape, List.length_cons] at enough
  exact ⟨fuel - 2, by omega⟩

/-- A block is the meaning of its node. -/
theorem Block.Held.ofNode?_node {b : Block} (held : b.Held) {fuel : Nat} (enough : 2 * b.tokens.length ≤ fuel) :
    Value.ofNode? fuel b.node = some b.value := by
  induction held generalizing fuel with
  | @text s =>
    obtain ⟨fuel, rfl⟩ := exists_fuel enough
    exact ofNode?_textNode (fuel + 1) s
  | @int n low high =>
    obtain ⟨fuel, rfl⟩ := exists_fuel enough
    rw [Block.node, Value.ofNode?, scalarValue?, if_pos rfl, if_pos rfl, resolve_decimalInt low high]
    rfl
  | @list items _ ih =>
    obtain ⟨fuel, rfl⟩ := exists_fuel enough
    have meaning : ∀ b ∈ items, Value.ofNode? (fuel + 1) b.node = some b.value := by
      intro b member
      have shorter := length_tokens_of_mem member
      exact ih b member (by omega)
    rw [Block.node, Value.ofNode?, ofNode?_items meaning]
    rfl
  | @record fields _ keys distinct _ ih =>
    obtain ⟨fuel, rfl⟩ := exists_fuel enough
    have meaning : ∀ f ∈ fields, Value.ofNode? fuel f.2.node = some f.2.value := by
      intro f member
      have shorter := length_tokens_of_mem_fields member
      exact ih f member (by omega)
    rw [Block.node, Value.ofNode?, entriesOf?_fields keys distinct meaning]
    rfl

/-! ## Documents -/

/-- The first document is a map, and nothing follows it. -/
theorem document_blockMap {fuel : Nat} {tokens : List Token} {root : Node}
    (read : Reader.node true false fuel { tokens := .blockMap :: tokens } = some (root, { tokens := [.streamEnd] })) :
    Reader.document fuel { tokens := .blockMap :: tokens } = some (some root, { tokens := [.streamEnd] }) := by
  have step : Reader.document fuel { tokens := .blockMap :: tokens } =
      StateT.bind (Reader.node true false fuel)
        (fun root => do
          if ((← get).tokens.take 3).contains .invalid then Reader.fail
          return some root) { tokens := .blockMap :: tokens } := rfl
  rw [step, StateT.bind, read]
  rfl

/-- A document of held fields is read back. -/
theorem parseMap?_renderDocument {fields : List (String × Block)} (held : (Block.record fields).Held) :
    Value.parseMap? (renderDocument fields) = some (fieldValues fields) := by
  have tokens : Token.ofText (renderDocument fields) = (Block.record fields).tokens ++ [.streamEnd] := by
    cases held with
    | record nonempty keys _ each =>
      obtain ⟨f, fields, rfl⟩ := List.exists_cons_of_ne_nil nonempty
      rw [ofText_renderDocument keys each, Block.tokens]
      simp
  have enough : 2 * (Block.record fields).tokens.length ≤
      8 * ((Block.record fields).tokens ++ [Token.streamEnd]).length + 16 := by
    rw [List.length_append]
    omega
  have root : Node.ofTokens? ((Block.record fields).tokens ++ [.streamEnd]) =
      some (some (Block.record fields).node) := by
    have read := document_blockMap (held.reads false enough)
    exact congrArg (Option.map (·.1)) read
  rw [Value.parseMap?, tokens]
  simp only [root, held.ofNode?_node enough, Block.value, Option.bind_eq_bind, Option.bind_some]

end JvmCoupling.Yaml
