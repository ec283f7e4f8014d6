import JvmCoupling.Proofs.ClassFile.Bounds
import JvmCoupling.Proofs.ClassFile.Reader

/-! # Lengths in words

The length of an instruction is computed from bytes that may hold any numbers.  Here one computation is run twice, in
64-bit words, which may wrap, and in integers, which are exact.  The two agree on every method body, and so does
`instructionLength`; the lengths are positive, so a walk that does not look at their sign moves on in every round.

* `Numbers`, `lengthIn` — the length of an instruction, computed in words or in integers;
* `map_toInt_lengthIn`, `map_natCast_instructionLength` — all three computations agree;
* `instructionLength_ends` — where an instruction ends;
* `Scan` — the walk over a method body in words, round by round;
* `instructionLength_noOverflow` — lengths do not overflow, and the walk ends.
-/

namespace JvmCoupling.ClassFile

/-! ## One computation, two kinds of numbers -/

/-- Numbers to compute positions with.  Four bytes stand for a signed number. -/
class Numbers (α : Type) where
  ofPlace : Nat → α
  place : α → Nat
  signed : UInt32 → α

/-- Words of 64 bits.  Four bytes are taken for a signed word of 32 bits, which is then extended. -/
instance : Numbers Int64 where
  ofPlace := Int64.ofNat
  place x := x.toInt.toNat
  signed w := w.toInt32.toInt64

/-- Integers, which never wrap. -/
instance : Numbers Int where
  ofPlace n := n
  place := Int.toNat
  signed w := if w.toNat < 2 ^ 31 then w.toNat else w.toNat - 2 ^ 32

section Lengths

variable {α : Type} [Add α] [Sub α] [Mul α] [Mod α] [LT α] [DecidableLT α] [∀ n : Nat, OfNat α n] [Numbers α]

open Numbers

/-- Where the operands of a switch start. -/
def operandsIn (pc : α) : α := pc + 1 + (4 - (pc + 1) % 4) % 4

/-- Where a table switch ends. -/
def tableStop (p : α) (low high : UInt32) : α := p + 12 + 4 * (signed high - signed low + 1)

/-- Where a lookup switch ends. -/
def lookupStop (p : α) (pairs : UInt32) : α := p + 8 + 8 * signed pairs

def switchLengthIn (code : Code) (pc stop : α) : Except Fault α :=
  if ofPlace code.size < stop then .error (.overrun (place pc)) else .ok (stop - pc)

def tableSwitchLengthIn (code : Code) (pc : α) : Except Fault α := do
  let p := operandsIn pc
  if ofPlace code.size < p + 12 then .error (.truncatedSwitch (place pc))
  else
    let low ← code.wordAt (place (p + 4))
    let high ← code.wordAt (place (p + 8))
    if (signed high : α) < signed low then .error (.emptyRange (place pc))
    else switchLengthIn code pc (tableStop p low high)

def lookupSwitchLengthIn (code : Code) (pc : α) : Except Fault α := do
  let p := operandsIn pc
  if ofPlace code.size < p + 8 then .error (.truncatedSwitch (place pc))
  else
    let pairs ← code.wordAt (place (p + 4))
    if (signed pairs : α) < 0 then .error (.negativePairs (place pc))
    else switchLengthIn code pc (lookupStop p pairs)

def wideLengthIn (code : Code) (pc : α) : Except Fault α := do
  if pc + 1 < ofPlace code.size then
    let widened ← code.byteAt (place (pc + 1))
    return if widened = Opcode.iinc then 6 else 4
  else .error (.truncatedWide (place pc))

/-- The length of the instruction at `pc`. -/
def lengthIn (code : Code) (pc : α) : Except Fault α := do
  let op ← code.byteAt (place pc)
  if op = Opcode.tableswitch then tableSwitchLengthIn code pc
  else if op = Opcode.lookupswitch then lookupSwitchLengthIn code pc
  else if op = Opcode.wide then wideLengthIn code pc
  else
    match operandBytes? op with
    | some n => .ok (1 + ofPlace n)
    | none => .error (.unknownOpcode op (place pc))

end Lengths

open Numbers

/-! ## Words and integers -/

theorem toInt_toInt32 (w : UInt32) : w.toInt32.toInt = signed w := by
  have value : w.toInt32.toInt = if 2 * w.toNat < 2 ^ 32 then (w.toNat : Int) else w.toNat - (2 ^ 32 : Nat) :=
    BitVec.toInt_eq_toNat_cond w.toBitVec
  rw [value]
  simp only [signed]
  split <;> split <;> omega

theorem toInt_signed (w : UInt32) : (signed w : Int64).toInt = signed w := by
  rw [← toInt_toInt32]
  exact Int32.toInt_toInt64 _

theorem signed_bounds (w : UInt32) : -2 ^ 31 ≤ (signed w : Int) ∧ (signed w : Int) < 2 ^ 31 := by
  rw [← toInt_toInt32]
  exact ⟨Int32.le_toInt _, Int32.toInt_lt _⟩

theorem toInt_ofPlace {n : Nat} (small : n < 2 ^ 63) : (ofPlace n : Int64).toInt = n :=
  Int64.toInt_ofNat_of_lt small

theorem operandsIn_natCast (pc : Nat) : operandsIn (pc : Int) = switchOperands pc := by
  unfold operandsIn switchOperands
  omega

theorem toInt_operandsIn {pc : Nat} (small : pc < 2 ^ 62) :
    (operandsIn (ofPlace pc : Int64)).toInt = switchOperands pc := by
  have start : (ofPlace pc : Int64).toInt = pc := toInt_ofPlace (by omega)
  have one : (1 : Int64).toInt = 1 := rfl
  have four : (4 : Int64).toInt = 4 := rfl
  -- the remainders of a number that is not negative
  have first : ((pc : Int) + 1).tmod 4 = (pc + 1) % 4 := Int.tmod_eq_emod_of_nonneg (by omega)
  have second : (4 - ((pc : Int) + 1) % 4).tmod 4 = (4 - (pc + 1) % 4) % 4 := Int.tmod_eq_emod_of_nonneg (by omega)
  simp (disch := omega) only [operandsIn, Int64.toInt_add, Int64.toInt_sub, Int64.toInt_mod, start, one, four,
    bmod_word, first, second]
  unfold switchOperands
  omega

/-- Whatever the two keys are, the end of a table switch does not overflow. -/
theorem toInt_tableStop_word {p : Int64} (low high : UInt32) (nonneg : 0 ≤ p.toInt) (small : p.toInt ≤ 2 ^ 62) :
    (tableStop p low high).toInt = tableStop p.toInt low high := by
  have lowBounds := signed_bounds low
  have highBounds := signed_bounds high
  have one : (1 : Int64).toInt = 1 := rfl
  have four : (4 : Int64).toInt = 4 := rfl
  have twelve : (12 : Int64).toInt = 12 := rfl
  simp (disch := omega) only [tableStop, Int64.toInt_add, Int64.toInt_sub, Int64.toInt_mul, toInt_signed, one, four,
    twelve, bmod_word]

theorem toInt_lookupStop_word {p : Int64} (pairs : UInt32) (nonneg : 0 ≤ p.toInt) (small : p.toInt ≤ 2 ^ 62) :
    (lookupStop p pairs).toInt = lookupStop p.toInt pairs := by
  have bounds := signed_bounds pairs
  have eight : (8 : Int64).toInt = 8 := rfl
  simp (disch := omega) only [lookupStop, Int64.toInt_add, Int64.toInt_mul, toInt_signed, eight, bmod_word]

theorem place_word (x : Int64) : place x = place x.toInt := rfl

theorem ofPlace_int (n : Nat) : (ofPlace n : Int) = n := rfl

theorem operandBytes?_le {op : UInt8} {n : Nat} (known : operandBytes? op = some n) : n ≤ 4 := by
  rw [operandBytes?_eq] at known
  unfold operandCount at known
  grind

section Agreement

variable {code : Code} {pc : Nat} (small : code.size < 2 ^ 62) (inside : pc < code.size)

include small inside

theorem toInt_positions :
    (ofPlace code.size : Int64).toInt = code.size ∧ (ofPlace pc : Int64).toInt = pc ∧
      (ofPlace pc + 1 : Int64).toInt = pc + 1 := by
  have start : (ofPlace pc : Int64).toInt = pc := toInt_ofPlace (by omega)
  have one : (1 : Int64).toInt = 1 := rfl
  refine ⟨toInt_ofPlace (by omega), start, ?_⟩
  rw [Int64.toInt_add, start, one, bmod_word (by omega) (by omega)]

theorem toInt_operandsIn_add {k : Int64} (nonneg : 0 ≤ k.toInt) (few : k.toInt ≤ 12) :
    (operandsIn (ofPlace pc) + k).toInt = operandsIn (pc : Int) + k.toInt := by
  have near : switchOperands pc ≤ pc + 4 := by unfold switchOperands; omega
  rw [Int64.toInt_add, toInt_operandsIn (by omega), operandsIn_natCast, bmod_word (by omega) (by omega)]

theorem map_toInt_switchLengthIn {stop : Int64} (nonneg : 0 ≤ stop.toInt) :
    (switchLengthIn code (ofPlace pc) stop).map Int64.toInt = switchLengthIn code (pc : Int) stop.toInt := by
  obtain ⟨size, start, -⟩ := toInt_positions small inside
  simp only [switchLengthIn, Int64.lt_iff_toInt_lt, place_word, size, start, ofPlace_int]
  split
  · rfl
  · rw [Except.map, Int64.toInt_sub, start, bmod_word (by omega) (by omega)]

theorem toInt_operandsIn_eq :
    (operandsIn (ofPlace pc : Int64)).toInt = operandsIn (pc : Int) ∧ 0 ≤ operandsIn (pc : Int) ∧
      operandsIn (pc : Int) ≤ 2 ^ 62 := by
  have near : switchOperands pc ≤ 2 ^ 62 := by unfold switchOperands; omega
  rw [toInt_operandsIn (by omega), operandsIn_natCast]
  omega

theorem toInt_tableStop_operandsIn (low high : UInt32) :
    (tableStop (operandsIn (ofPlace pc : Int64)) low high).toInt = tableStop (operandsIn (pc : Int)) low high := by
  obtain ⟨operands, nonneg, near⟩ := toInt_operandsIn_eq small inside
  rw [toInt_tableStop_word low high (by omega) (by omega), operands]

theorem toInt_lookupStop_operandsIn (pairs : UInt32) :
    (lookupStop (operandsIn (ofPlace pc : Int64)) pairs).toInt = lookupStop (operandsIn (pc : Int)) pairs := by
  obtain ⟨operands, nonneg, near⟩ := toInt_operandsIn_eq small inside
  rw [toInt_lookupStop_word pairs (by omega) (by omega), operands]

theorem map_toInt_tableSwitchLengthIn :
    (tableSwitchLengthIn code (ofPlace pc : Int64)).map Int64.toInt = tableSwitchLengthIn code (pc : Int) := by
  obtain ⟨size, start, -⟩ := toInt_positions small inside
  obtain ⟨-, nonneg, -⟩ := toInt_operandsIn_eq small inside
  have lowAt : (operandsIn (ofPlace pc : Int64) + 4).toInt = operandsIn (pc : Int) + 4 :=
    toInt_operandsIn_add small inside (by decide) (by decide)
  have highAt : (operandsIn (ofPlace pc : Int64) + 8).toInt = operandsIn (pc : Int) + 8 :=
    toInt_operandsIn_add small inside (by decide) (by decide)
  have headEnd : (operandsIn (ofPlace pc : Int64) + 12).toInt = operandsIn (pc : Int) + 12 :=
    toInt_operandsIn_add small inside (by decide) (by decide)
  simp only [tableSwitchLengthIn, Int64.lt_iff_toInt_lt, place_word, ofPlace_int, size, start, lowAt, highAt, headEnd,
    toInt_signed]
  split
  · rfl
  next complete =>
  -- both sides read the same two words
  cases code.wordAt (place (operandsIn (pc : Int) + 4)) with
  | error fault => rfl
  | ok low =>
    cases code.wordAt (place (operandsIn (pc : Int) + 8)) with
    | error fault => rfl
    | ok high =>
      simp only [ok_bind]
      split
      · rfl
      next order =>
      have stop := toInt_tableStop_operandsIn small inside low high
      rw [map_toInt_switchLengthIn small inside, stop]
      rw [stop, tableStop]
      omega

theorem map_toInt_lookupSwitchLengthIn :
    (lookupSwitchLengthIn code (ofPlace pc : Int64)).map Int64.toInt = lookupSwitchLengthIn code (pc : Int) := by
  obtain ⟨size, start, -⟩ := toInt_positions small inside
  obtain ⟨-, nonneg, -⟩ := toInt_operandsIn_eq small inside
  have pairsAt : (operandsIn (ofPlace pc : Int64) + 4).toInt = operandsIn (pc : Int) + 4 :=
    toInt_operandsIn_add small inside (by decide) (by decide)
  have headEnd : (operandsIn (ofPlace pc : Int64) + 8).toInt = operandsIn (pc : Int) + 8 :=
    toInt_operandsIn_add small inside (by decide) (by decide)
  have zero : (0 : Int64).toInt = 0 := rfl
  simp only [lookupSwitchLengthIn, Int64.lt_iff_toInt_lt, place_word, ofPlace_int, size, start, pairsAt, headEnd,
    toInt_signed, zero]
  split
  · rfl
  next complete =>
  cases code.wordAt (place (operandsIn (pc : Int) + 4)) with
  | error fault => rfl
  | ok pairs =>
    simp only [ok_bind]
    split
    · rfl
    next order =>
    have stop := toInt_lookupStop_operandsIn small inside pairs
    rw [map_toInt_switchLengthIn small inside, stop]
    rw [stop, lookupStop]
    omega

theorem map_toInt_wideLengthIn :
    (wideLengthIn code (ofPlace pc : Int64)).map Int64.toInt = wideLengthIn code (pc : Int) := by
  obtain ⟨size, start, next⟩ := toInt_positions small inside
  simp only [wideLengthIn, Int64.lt_iff_toInt_lt, place_word, ofPlace_int, size, start, next]
  split
  · cases code.byteAt (place ((pc : Int) + 1)) with
    | error fault => rfl
    | ok widened =>
      simp only [ok_bind]
      split <;> rfl
  · rfl

/-- Words and integers give the same length, or the same fault. -/
theorem map_toInt_lengthIn : (lengthIn code (ofPlace pc : Int64)).map Int64.toInt = lengthIn code (pc : Int) := by
  obtain ⟨-, start, -⟩ := toInt_positions small inside
  simp only [lengthIn, place_word, start]
  cases code.byteAt (place (pc : Int)) with
  | error fault => rfl
  | ok op =>
    simp only [ok_bind]
    split
    · exact map_toInt_tableSwitchLengthIn small inside
    split
    · exact map_toInt_lookupSwitchLengthIn small inside
    split
    · exact map_toInt_wideLengthIn small inside
    cases operands : operandBytes? op with
    | none => rfl
    | some n =>
      have few := operandBytes?_le operands
      have one : (1 : Int64).toInt = 1 := rfl
      simp only [Except.map, Int64.toInt_add, toInt_ofPlace (show n < 2 ^ 63 by omega), one, ofPlace_int]
      rw [bmod_word (by omega) (by omega)]

end Agreement

/-! ## The length that the walk uses -/

theorem Code.exists_wordAt (code : Code) (i : Nat) (inside : i + 3 < code.size) :
    ∃ w, code.wordAt i = .ok w ∧ code.signedAt i = .ok w.toInt32.toInt64 := by
  obtain ⟨a, first⟩ := code.exists_byteAt i (by omega)
  obtain ⟨b, second⟩ := code.exists_byteAt (i + 1) (by omega)
  obtain ⟨c, third⟩ := code.exists_byteAt (i + 2) (by omega)
  obtain ⟨d, fourth⟩ := code.exists_byteAt (i + 3) inside
  refine ⟨.ofNat (bigEndian [a, b, c, d]), ?_, ?_⟩
  · simp only [wordAt, first, second, third, fourth, ok_bind]
    rfl
  · simp only [signedAt, first, second, third, fourth, ok_bind]
    rfl

theorem place_natCast_add (n k : Nat) : place ((n : Int) + k) = n + k := by
  simp only [place]
  omega

section Model

variable {code : Code} {pc : Nat} (small : code.size < 2 ^ 62)

include small

theorem map_natCast_switchLength {stop : Int64} (behind : (pc : Int) ≤ stop.toInt) :
    (switchLength code pc stop).map (fun n : Nat => (n : Int)) = switchLengthIn code (pc : Int) stop.toInt := by
  rw [switchLength_eq small, switchLengthIn]
  simp only [ofPlace_int]
  split
  · rfl
  · simp only [Except.map, Except.ok.injEq]
    omega

theorem map_natCast_tableSwitchLength :
    (tableSwitchLength code pc).map (fun n : Nat => (n : Int)) = tableSwitchLengthIn code (pc : Int) := by
  have lowAt : place ((switchOperands pc : Int) + 4) = switchOperands pc + 4 := place_natCast_add _ 4
  have highAt : place ((switchOperands pc : Int) + 8) = switchOperands pc + 8 := place_natCast_add _ 8
  have first : pc ≤ switchOperands pc := by unfold switchOperands; omega
  -- one computation has its numbers from the bytes as words, the other as signed words
  simp only [tableSwitchLength, tableSwitchLengthIn, operandsIn_natCast, lowAt, highAt, ofPlace_int]
  by_cases short : code.size < switchOperands pc + 12
  · rw [if_pos short, if_pos (by omega)]
    rfl
  obtain ⟨low, lowWord, lowSigned⟩ := code.exists_wordAt (switchOperands pc + 4) (by omega)
  obtain ⟨high, highWord, highSigned⟩ := code.exists_wordAt (switchOperands pc + 8) (by omega)
  rw [if_neg short, if_neg (by omega)]
  simp only [lowWord, lowSigned, highWord, highSigned, ok_bind, Int64.lt_iff_toInt_lt, Int32.toInt_toInt64,
    toInt_toInt32]
  split
  · rfl
  next order =>
  have stop : (Int64.ofNat (switchOperands pc + 12) + 4 * (high.toInt32.toInt64 - low.toInt32.toInt64 + 1)).toInt =
      tableStop (switchOperands pc : Int) low high := by
    rw [toInt_tableStop (by omega), toInt_toInt32, toInt_toInt32, tableStop]
    omega
  rw [map_natCast_switchLength small, stop]
  rw [stop, tableStop]
  omega

theorem map_natCast_lookupSwitchLength :
    (lookupSwitchLength code pc).map (fun n : Nat => (n : Int)) = lookupSwitchLengthIn code (pc : Int) := by
  have pairsAt : place ((switchOperands pc : Int) + 4) = switchOperands pc + 4 := place_natCast_add _ 4
  have first : pc ≤ switchOperands pc := by unfold switchOperands; omega
  have zero : (0 : Int64).toInt = 0 := rfl
  simp only [lookupSwitchLength, lookupSwitchLengthIn, operandsIn_natCast, pairsAt, ofPlace_int]
  by_cases short : code.size < switchOperands pc + 8
  · rw [if_pos short, if_pos (by omega)]
    rfl
  obtain ⟨pairs, pairsWord, pairsSigned⟩ := code.exists_wordAt (switchOperands pc + 4) (by omega)
  rw [if_neg short, if_neg (by omega)]
  simp only [pairsWord, pairsSigned, ok_bind, Int64.lt_iff_toInt_lt, Int32.toInt_toInt64, toInt_toInt32, zero]
  split
  · rfl
  next order =>
  have stop : (Int64.ofNat (switchOperands pc + 8) + 8 * pairs.toInt32.toInt64).toInt =
      lookupStop (switchOperands pc : Int) pairs := by
    rw [toInt_lookupStop (by omega), toInt_toInt32, lookupStop]
    omega
  rw [map_natCast_switchLength small, stop]
  rw [stop, lookupStop]
  omega

omit small in
theorem map_natCast_wideLength :
    (wideLength code pc).map (fun n : Nat => (n : Int)) = wideLengthIn code (pc : Int) := by
  have widenedAt : place ((pc : Int) + 1) = pc + 1 := place_natCast_add _ 1
  simp only [wideLength, wideLengthIn, ofPlace_int, widenedAt]
  by_cases short : code.size ≤ pc + 1
  · rw [if_pos short, if_neg (by omega)]
    rfl
  · obtain ⟨widened, read⟩ := code.exists_byteAt (pc + 1) (by omega)
    rw [if_neg short, if_pos (by omega), read, ok_bind, ok_bind]
    split <;> rfl

/-- The length that the walk uses is the exact one. -/
theorem map_natCast_instructionLength :
    (instructionLength code pc).map (fun n : Nat => (n : Int)) = lengthIn code (pc : Int) := by
  have here : place (pc : Int) = pc := place_natCast_add _ 0
  simp only [instructionLength, lengthIn, here]
  cases code.byteAt pc with
  | error fault => rfl
  | ok op =>
    simp only [ok_bind]
    split
    · exact map_natCast_tableSwitchLength small
    split
    · exact map_natCast_lookupSwitchLength small
    split
    · exact map_natCast_wideLength
    cases operandBytes? op <;> rfl

end Model

/-! ## Where an instruction ends -/

section Ends

variable {code : Code} {pc : Nat} {n : Int}

/-- An instruction ends inside the code, at a multiple of four. -/
def EndsAligned (code : Code) (pc : Nat) (n : Int) : Prop := 1 ≤ n ∧ pc + n ≤ code.size ∧ 4 ∣ pc + n

theorem endsAligned_of_switchLengthIn {stop : Int} (run : switchLengthIn code (pc : Int) stop = .ok n)
    (behind : (pc : Int) < stop) (aligned : 4 ∣ stop) : EndsAligned code pc n := by
  unfold switchLengthIn at run
  simp only [ofPlace_int] at run
  split at run
  · cases run
  next inside =>
  obtain rfl := Except.ok.inj run
  exact ⟨by omega, by omega, by omega⟩

theorem dvd_switchOperands (pc : Nat) : 4 ∣ switchOperands pc ∧ pc < switchOperands pc := by
  unfold switchOperands
  omega

theorem endsAligned_of_tableSwitch (run : tableSwitchLengthIn code (pc : Int) = .ok n) : EndsAligned code pc n := by
  obtain ⟨aligned, behind⟩ := dvd_switchOperands pc
  simp only [tableSwitchLengthIn, operandsIn_natCast] at run
  split at run
  · cases run
  obtain ⟨low, -, run⟩ := bind_eq_ok.1 run
  obtain ⟨high, -, run⟩ := bind_eq_ok.1 run
  split at run
  · cases run
  next order =>
  refine endsAligned_of_switchLengthIn run ?_ ?_ <;> unfold tableStop <;> omega

theorem endsAligned_of_lookupSwitch (run : lookupSwitchLengthIn code (pc : Int) = .ok n) : EndsAligned code pc n := by
  obtain ⟨aligned, behind⟩ := dvd_switchOperands pc
  simp only [lookupSwitchLengthIn, operandsIn_natCast] at run
  split at run
  · cases run
  obtain ⟨pairs, -, run⟩ := bind_eq_ok.1 run
  split at run
  · cases run
  next order =>
  refine endsAligned_of_switchLengthIn run ?_ ?_ <;> unfold lookupStop <;> omega

theorem wideLengthIn_bounds (run : wideLengthIn code (pc : Int) = .ok n) : 1 ≤ n ∧ n ≤ 6 := by
  unfold wideLengthIn at run
  split at run
  · obtain ⟨widened, -, run⟩ := bind_eq_ok.1 run
    obtain rfl := Except.ok.inj run
    split <;> decide
  · cases run

def Opcode.IsSwitch (op : UInt8) : Prop := op = tableswitch ∨ op = lookupswitch

/-- Switches end inside the code; other instructions are short. -/
theorem lengthIn_cases (inside : pc < code.size) (run : lengthIn code (pc : Int) = .ok n) :
    EndsAligned code pc n ∨ ¬Opcode.IsSwitch code[pc] ∧ 1 ≤ n ∧ n ≤ 6 := by
  have here : place (pc : Int) = pc := place_natCast_add _ 0
  have read : code.byteAt pc = .ok code[pc] := by simp [Code.byteAt, inside]
  simp only [lengthIn, here, read, ok_bind] at run
  split at run
  · exact .inl (endsAligned_of_tableSwitch run)
  next notTable =>
  split at run
  · exact .inl (endsAligned_of_lookupSwitch run)
  next notLookup =>
  refine .inr ⟨not_or.2 ⟨notTable, notLookup⟩, ?_⟩
  split at run
  · exact wideLengthIn_bounds run
  split at run
  next operands =>
    obtain rfl := Except.ok.inj run
    have few := operandBytes?_le operands
    simp only [ofPlace_int]
    omega
  · cases run

end Ends

/-- What a length of the walk is known to satisfy. -/
theorem instructionLength_ends {code : Code} {pc n : Nat} (small : code.size < 2 ^ 62) (inside : pc < code.size)
    (run : instructionLength code pc = .ok n) :
    (1 ≤ n ∧ pc + n ≤ code.size + 6) ∧ (Opcode.IsSwitch code[pc] → pc + n ≤ code.size ∧ 4 ∣ pc + n) := by
  have exactLength : lengthIn code (pc : Int) = .ok n := by
    rw [← map_natCast_instructionLength small, run, Except.map]
  obtain ⟨positive, bound, aligned⟩ | ⟨other, positive, few⟩ := lengthIn_cases inside exactLength
  · exact ⟨by omega, fun _ => by omega⟩
  · exact ⟨by omega, fun switch => absurd switch other⟩

/-- The length in words, from the length that the walk uses. -/
theorem lengthIn_ofPlace {code : Code} {pc : Nat} (small : code.size < 2 ^ 62) (inside : pc < code.size) :
    lengthIn code (ofPlace pc : Int64) = (instructionLength code pc).map ofPlace := by
  have agree := (map_toInt_lengthIn small inside).trans (map_natCast_instructionLength small).symm
  cases wordRun : lengthIn code (ofPlace pc : Int64) <;> cases run : instructionLength code pc <;>
    rw [wordRun, run] at agree
  case error.error => exact congrArg _ (Except.error.inj agree)
  case ok.ok w n =>
    -- both lengths are one number, which a word can hold
    have value : w.toInt = n := Except.ok.inj agree
    obtain ⟨⟨-, bound⟩, -⟩ := instructionLength_ends small inside run
    rw [Except.map, ← Int64.toInt_inj.1 (value.trans (toInt_ofPlace (by omega)).symm)]
  all_goals cases agree

/-! ## The walk in words -/

/-- A position in a method body, and the calls in front of it. -/
structure Scan where
  pc : Int64 := 0
  calls : Array CallSite := #[]

namespace Scan

/-- The next round of the walk, if there is one.  A length is compared with the code only. -/
def step (pool : ConstantPool) (code : Code) (s : Scan) : Except Fault (Option Scan) := do
  if s.pc < ofPlace code.size then
    let n ← lengthIn code s.pc
    if ofPlace code.size < s.pc + n then .error (.overrun (place s.pc))
    else
      let call? ← callAt pool code (place s.pc)
      return some ⟨s.pc + n, s.calls ++ call?.toArray⟩
  else return none

/-- The walk ends after a number of rounds, with its calls or with a fault. -/
inductive Runs (pool : ConstantPool) (code : Code) : Nat → Scan → Except Fault (Array CallSite) → Prop
  | done {s : Scan} (stop : s.step pool code = .ok none) : Runs pool code 0 s (.ok s.calls)
  | fault {s : Scan} {f : Fault} (stop : s.step pool code = .error f) : Runs pool code 0 s (.error f)
  | next {s t : Scan} {rounds : Nat} {result : Except Fault (Array CallSite)} (round : s.step pool code = .ok (some t))
      (others : Runs pool code rounds t result) : Runs pool code (rounds + 1) s result

section Walk

variable {pool : ConstantPool} {code : Code} (small : code.size < 2 ^ 62)

include small

/-- A round of the walk at a position inside the code, without words. -/
theorem step_ofPlace {pc : Nat} (inside : pc < code.size) (calls : Array CallSite) :
    step pool code ⟨ofPlace pc, calls⟩ = (do
      let n ← instructionLength code pc
      if code.size < pc + n then .error (.overrun pc)
      else
        let call? ← callAt pool code pc
        return some ⟨ofPlace (pc + n), calls ++ call?.toArray⟩) := by
  obtain ⟨size, start, -⟩ := toInt_positions small inside
  have here : place (ofPlace pc : Int64) = pc := by rw [place_word, start]; exact place_natCast_add _ 0
  simp only [step, Int64.lt_iff_toInt_lt, size, start, here, if_pos (Int.ofNat_lt.2 inside),
    lengthIn_ofPlace small inside]
  cases run : instructionLength code pc with
  | error fault => rfl
  | ok n =>
    obtain ⟨⟨-, bound⟩, -⟩ := instructionLength_ends small inside run
    have sum : (ofPlace pc + ofPlace n : Int64) = ofPlace (pc + n) := (Int64.ofNat_add pc n).symm
    have stop : (ofPlace (pc + n) : Int64).toInt = (pc + n : Nat) := toInt_ofPlace (by omega)
    simp only [Except.map, ok_bind, sum, stop, Int.ofNat_lt]

theorem step_of_le {s : Scan} (done : (code.size : Int) ≤ s.pc.toInt) : step pool code s = .ok none := by
  have size : (ofPlace code.size : Int64).toInt = code.size := toInt_ofPlace (by omega)
  rw [step, if_neg (by rw [Int64.lt_iff_toInt_lt]; omega)]
  rfl

/-- A round moves on, and not past the end of the code. -/
theorem step_advances {s t : Scan} (nonneg : 0 ≤ s.pc.toInt) (round : s.step pool code = .ok (some t)) :
    s.pc.toInt < t.pc.toInt ∧ t.pc.toInt ≤ code.size := by
  obtain ⟨k, start⟩ := Int.eq_ofNat_of_zero_le nonneg
  have bound := s.pc.toInt_lt
  have word : s.pc = ofPlace k := Int64.toInt_inj.1 (start.trans (toInt_ofPlace (by omega)).symm)
  have state : s = ⟨ofPlace k, s.calls⟩ := by rw [← word]
  -- only inside the code there is a further round, and that round has a length
  by_cases inside : k < code.size
  · rw [state, step_ofPlace small inside] at round
    obtain ⟨n, run, round⟩ := bind_eq_ok.1 round
    obtain ⟨⟨positive, -⟩, -⟩ := instructionLength_ends small inside run
    split at round
    · cases round
    obtain ⟨call?, -, round⟩ := bind_eq_ok.1 round
    obtain rfl := Option.some.inj (Except.ok.inj round)
    have stop : (ofPlace (k + n) : Int64).toInt = (k + n : Nat) := toInt_ofPlace (by omega)
    simp only [start, stop]
    omega
  · rw [step_of_le small (by omega)] at round
    cases round

/-- From every position the walk in words ends, with the result of the walk without words. -/
theorem exists_runs {pc : Nat} (inside : pc ≤ code.size) (calls : Array CallSite) :
    ∃ rounds, rounds ≤ code.size - pc ∧
      Runs pool code rounds ⟨ofPlace pc, calls⟩ (callSitesFrom pool code pc calls) := by
  fun_induction callSitesFrom pool code pc calls with
  | case1 pc calls more fault run =>
    refine ⟨0, Nat.zero_le _, .fault ?_⟩
    rw [step_ofPlace small more, run]
    rfl
  | case2 pc calls more n run bounds fault call =>
    refine ⟨0, Nat.zero_le _, .fault ?_⟩
    rw [step_ofPlace small more, run, ok_bind, if_neg (by omega), call]
    rfl
  | case3 pc calls more n run bounds call ih =>
    obtain ⟨rounds, few, others⟩ := ih bounds.2
    refine ⟨rounds + 1, by omega, .next ?_ others⟩
    rw [step_ofPlace small more, run, ok_bind, if_neg (by omega), call, ok_bind]
    simp [pure, Except.pure]
  | case4 pc calls more n run bounds site call ih =>
    obtain ⟨rounds, few, others⟩ := ih bounds.2
    refine ⟨rounds + 1, by omega, .next ?_ others⟩
    rw [step_ofPlace small more, run, ok_bind, if_neg (by omega), call, ok_bind]
    simp [pure, Except.pure]
  | case5 pc calls more n run bounds =>
    -- a length is positive, so it is too long
    obtain ⟨⟨positive, -⟩, -⟩ := instructionLength_ends small more run
    refine ⟨0, Nat.zero_le _, .fault ?_⟩
    rw [step_ofPlace small more, run, ok_bind, if_pos (by omega)]
  | case6 pc calls done =>
    have size : (ofPlace pc : Int64).toInt = pc := toInt_ofPlace (by omega)
    exact ⟨0, Nat.zero_le _, .done (step_of_le small (by simp only [size]; omega))⟩

end Walk

end Scan

/-! ## No overflow -/

/-- Lengths do not overflow and do not stall the walk.  At every position of a body, and for all keys and counts of
pairs, the length in words is the exact one, and so is `instructionLength`; it is positive, and a switch ends inside
the code at a multiple of four.  The walk in words, which does not ask for a positive length, moves on in every round
and ends with the result of `callSites`. -/
theorem instructionLength_noOverflow (code : Code) (small : code.size < 2 ^ 62) :
    (∀ pc (inside : pc < code.size),
      (∀ low high, (tableStop (operandsIn (ofPlace pc : Int64)) low high).toInt =
        tableStop (operandsIn (pc : Int)) low high) ∧
      (∀ pairs, (lookupStop (operandsIn (ofPlace pc : Int64)) pairs).toInt = lookupStop (operandsIn (pc : Int)) pairs) ∧
      (lengthIn code (ofPlace pc : Int64)).map Int64.toInt = lengthIn code (pc : Int) ∧
      (instructionLength code pc).map (fun n : Nat => (n : Int)) = lengthIn code (pc : Int) ∧
      ∀ n, instructionLength code pc = .ok n →
        1 ≤ n ∧ (Opcode.IsSwitch code[pc] → pc + n ≤ code.size ∧ 4 ∣ pc + n)) ∧
    ∀ pool,
      (∀ s t : Scan, 0 ≤ s.pc.toInt → s.step pool code = .ok (some t) →
        s.pc.toInt < t.pc.toInt ∧ t.pc.toInt ≤ code.size) ∧
      ∃ rounds result, rounds ≤ code.size ∧ Scan.Runs pool code rounds {} result ∧
        result.map Array.toList = callSites pool code := by
  refine ⟨fun pc inside => ?_, fun pool => ⟨fun s t nonneg round => Scan.step_advances small nonneg round, ?_⟩⟩
  · refine ⟨toInt_tableStop_operandsIn small inside, toInt_lookupStop_operandsIn small inside,
      map_toInt_lengthIn small inside, map_natCast_instructionLength small, fun n run => ?_⟩
    obtain ⟨⟨positive, -⟩, switch⟩ := instructionLength_ends small inside run
    exact ⟨positive, switch⟩
  · obtain ⟨rounds, few, run⟩ : ∃ rounds, rounds ≤ code.size ∧
        Scan.Runs pool code rounds {} (callSitesFrom pool code 0 #[]) := Scan.exists_runs small (Nat.zero_le _) #[]
    exact ⟨rounds, _, few, run, rfl⟩

/-- A table switch from the lowest key to the highest, without jumps.  In 32 bits the number of its keys is zero. -/
def allKeys : Code := #[0xAA, 0, 0, 0, 0, 0, 0, 0, 0x80, 0, 0, 0, 0x7F, 0xFF, 0xFF, 0xFF]

theorem instructionLength_noOverflow_allKeys :
    (allKeys.size < 2 ^ 62 ∧ (lengthIn allKeys (ofPlace 0 : Int64)).map Int64.toInt = .error (.overrun 0)) ∧
      switchThenCall.toArray.size < 2 ^ 62 ∧ instructionLength switchThenCall.toArray 1 = .ok 19 ∧
        1 + 19 ≤ switchThenCall.toArray.size ∧ 4 ∣ 1 + 19 ∧
        ∃ rounds result, rounds ≤ 24 ∧ Scan.Runs onePool switchThenCall.toArray rounds {} result ∧
          result.map Array.toList = callSites onePool switchThenCall.toArray := by
  have keysSmall : allKeys.size < 2 ^ 62 := by decide
  have callSmall : switchThenCall.toArray.size < 2 ^ 62 := by decide
  have run : instructionLength switchThenCall.toArray 1 = .ok 19 := by decide +kernel
  obtain ⟨keys, -⟩ := instructionLength_noOverflow allKeys keysSmall
  obtain ⟨lengths, walk⟩ := instructionLength_noOverflow switchThenCall.toArray callSmall
  obtain ⟨-, -, agree, -⟩ := keys 0 (by decide)
  obtain ⟨-, -, -, -, ends⟩ := lengths 1 (by decide)
  obtain ⟨inside, aligned⟩ := (ends 19 run).2 (.inr (by decide))
  have overrun : lengthIn allKeys (0 : Int) = .error (.overrun 0) := by decide +kernel
  exact ⟨⟨keysSmall, agree.trans overrun⟩, callSmall, run, inside, aligned, (walk onePool).2⟩

end JvmCoupling.ClassFile
