import JvmCoupling.Bytes

/-! # Compressed data

The compressed form of archive members: blocks of literals and references to earlier output, written with
prefix codes.

* `PrefixCode` — a canonical prefix code, given by the code length of every symbol;
* `Inflation` — how far decompression has come;
* `inflate` — the whole output, or what there is of it and the reason why it ends there.
-/

namespace JvmCoupling.Archive

/-- Why compressed data cannot be read on. -/
inductive InflateError where
  /-- The data breaks the rules of the format; so many bytes had been taken in. -/
  | corrupt (offset : Nat)
  /-- The data ends too early. -/
  | cutShort
deriving DecidableEq, Repr, Inhabited

/-! ## Prefix codes -/

/-- The longest code word. -/
def maxCodeLength : Nat := 15

/-- A canonical prefix code: how many code words there are of each length from one on, and the symbols by
length and then by number.  `lookahead` bits are taken in before a symbol is read. -/
structure PrefixCode where
  counts : List Nat
  symbols : Array Nat
  lookahead : Nat
deriving DecidableEq, Repr, Inhabited

/-- The symbols with code words of a length. -/
def symbolsOfLength (lengths : List Nat) (length : Nat) : List Nat :=
  (lengths.zipIdx.filter (·.1 = length)).map (·.2)

/-- The share of the code space that is taken, in code words of the longest length. -/
def codeSpaceUsed (lengths : List Nat) : Nat :=
  (lengths.filter (0 < ·)).foldl (fun used n => used + 1 <<< (maxCodeLength - n)) 0

/-- The code of given lengths, where zero means that a symbol has no code word.  The code words have to
use up the code space; codes without words and with a single word of one bit are allowed too. -/
def PrefixCode.ofLengths? (lengths : List Nat) : Option PrefixCode :=
  let used := lengths.filter (0 < ·)
  if used = [] ∨ codeSpaceUsed lengths = 1 <<< maxCodeLength ∨ used = [1] then
    let groups := (List.range' 1 maxCodeLength).map (symbolsOfLength lengths)
    some {
      counts := groups.map List.length
      symbols := groups.flatten.toArray
      lookahead := used.min?.getD 0 }
  else none

/-- The code words of literals and lengths in blocks without a code of their own. -/
def fixedLengths : List Nat :=
  List.replicate 144 8 ++ List.replicate 112 9 ++ List.replicate 24 7 ++ List.replicate 8 8

/-- The code in blocks without a code of their own. -/
def fixedCode : PrefixCode := (PrefixCode.ofLengths? fixedLengths).getD default

/-! ## Reading bits -/

/-- How far decompression has come: the data, the bits used, the bytes taken in, and the output. -/
structure Inflation where
  data : Array UInt8
  bits : Nat := 0
  taken : Nat := 0
  output : Array UInt8 := #[]
deriving Repr, Inhabited

/-- A step of decompression.  The output so far outlives a failure. -/
abbrev Inflater := EStateM InflateError Inflation

namespace Inflater

/-- Fails because of corrupt data. -/
def corrupt {α : Type} : Inflater α := do throw (.corrupt (← get).taken)

/-- Takes in bytes until there are so many unused bits. -/
def need (n : Nat) : Inflater Unit := do
  let s ← get
  let bytes := (s.bits + n + 7) / 8
  if bytes ≤ s.taken then return
  else if bytes ≤ s.data.size then set { s with taken := bytes }
  else
    set { s with taken := s.data.size }
    throw .cutShort

/-- The next bit. -/
def bit : Inflater Nat := do
  need 1
  let s ← get
  set { s with bits := s.bits + 1 }
  return (s.data.getD (s.bits / 8) 0).toNat >>> (s.bits % 8) % 2

/-- A number of bits, least significant first. -/
def number : Nat → Inflater Nat
  | 0 => return 0
  | n + 1 => do
    let low ← bit
    let high ← number n
    return low + 2 * high

/-- A number of bits that are taken in together. -/
def field (n : Nat) : Inflater Nat := do
  need n
  number n

/-- Puts one byte out. -/
def emit (b : UInt8) : Inflater Unit := modify fun s => { s with output := s.output.push b }

/-- Reads on bit by bit until a code word is complete.  `first` is the first code word of the current
length and `index` the position of its symbol. -/
def symbolFrom (symbols : Array Nat) (word first index : Nat) : List Nat → Inflater Nat
  | [] => corrupt
  | count :: counts => do
    let word := 2 * word + (← bit)
    let first := 2 * first
    if word < first + count then return symbols.getD (index + (word - first)) 0
    else if counts.all (· = 0) then corrupt
    else symbolFrom symbols word (first + count) (index + count) counts

/-- The next symbol of a code.  A code without words has none. -/
def symbol (code : PrefixCode) : Inflater Nat := do
  if code.symbols.isEmpty then corrupt
  else
    need code.lookahead
    symbolFrom code.symbols 0 0 0 code.counts

/-! ## Blocks -/

/-- The literal code's symbol that ends a block. -/
def endOfBlock : Nat := 256

/-- The number of literal and length symbols that have a meaning. -/
def literalSymbols : Nat := 286

/-- The number of distance symbols that have a meaning. -/
def distanceSymbols : Nat := 30

/-- The length that a symbol stands for, with the number of extra bits. -/
def lengthBase (symbol : Nat) : Nat × Nat :=
  if symbol < 265 then (symbol - 254, 0)
  else if symbol = 285 then (258, 0)
  else
    let extra := (symbol - 261) / 4
    ((4 + (symbol - 261) % 4) <<< extra + 3, extra)

/-- The distance that a symbol stands for, with the number of extra bits. -/
def distanceBase (symbol : Nat) : Nat × Nat :=
  if symbol < 4 then (symbol + 1, 0)
  else
    let extra := (symbol - 2) / 2
    ((2 + symbol % 2) <<< extra + 1, extra)

/-- How far back a reference may reach. -/
def windowSize : Nat := 32768

/-- Repeats output from a distance back, byte by byte, so that it may run into itself. -/
def copyBack (distance : Nat) : Nat → Inflater Unit
  | 0 => return
  | n + 1 => do
    let s ← get
    emit (s.output.getD (s.output.size - distance) 0)
    copyBack distance n

/-- The next distance; without a code of its own it is five bits, most significant first. -/
def distanceSymbol : Option PrefixCode → Inflater Nat
  | some code => symbol code
  | none => do
    need 5
    let mut n := 0
    for _ in [0:5] do n := 2 * n + (← bit)
    return n

/-- A reference to earlier output, whose length symbol has been read. -/
def reference (distances : Option PrefixCode) (lengthSymbol : Nat) : Inflater Unit := do
  if literalSymbols ≤ lengthSymbol then corrupt
  else
    let (base, extra) := lengthBase lengthSymbol
    let length := base + (← field extra)
    let code ← distanceSymbol distances
    if distanceSymbols ≤ code then corrupt
    else
      let (base, extra) := distanceBase code
      let distance := base + (← field extra)
      if min (← get).output.size windowSize < distance then corrupt
      else copyBack distance length

/-- Literals and references up to the end of the block.  Every symbol takes at least one bit, which bounds
their number. -/
def symbols (literals : PrefixCode) (distances : Option PrefixCode) : Nat → Inflater Unit
  | 0 => throw .cutShort
  | fuel + 1 => do
    let s ← symbol literals
    if s < endOfBlock then
      emit s.toUInt8
      symbols literals distances fuel
    else if s = endOfBlock then return
    else
      reference distances s
      symbols literals distances fuel

/-- The order in which the lengths of the code for code lengths are written. -/
def lengthOrder : List Nat := [16, 17, 18, 0, 8, 7, 9, 6, 10, 5, 11, 4, 12, 3, 13, 2, 14, 1, 15]

/-- The lengths of the code for code lengths, of which the first `n` are written. -/
def metaLengths (n : Nat) : Inflater (List Nat) := do
  let written ← (lengthOrder.take n).mapM fun symbol => do return (symbol, ← field 3)
  return (List.range 19).map fun symbol => (written.lookup symbol).getD 0

/-- Code lengths with repetitions, `total` in all; `done` holds those read, in reverse. -/
def codeLengths (code : PrefixCode) (total : Nat) (done : List Nat) : Nat → Inflater (List Nat)
  | 0 => throw .cutShort
  | fuel + 1 => do
    if total ≤ done.length then return done.reverse
    else
      let s ← symbol code
      if s < 16 then codeLengths code total (s :: done) fuel
      else
        let (value, base, extra) ←
          if s = 16 then
            match done with
            | [] => corrupt
            | last :: _ => pure (last, 3, 2)
          else if s = 17 then pure (0, 3, 3)
          else pure (0, 11, 7)
        let times := base + (← field extra)
        if total < done.length + times then corrupt
        else codeLengths code total (List.replicate times value ++ done) fuel

/-- A prefix code of given lengths, which have to be well-formed. -/
def codeOf (lengths : List Nat) : Inflater PrefixCode :=
  match PrefixCode.ofLengths? lengths with
  | some code => return code
  | none => corrupt

/-- The two codes at the start of a block that brings its own. -/
def readCodes (fuel : Nat) : Inflater (PrefixCode × PrefixCode) := do
  need 14
  let literalCount := 257 + (← number 5)
  if literalSymbols < literalCount then corrupt
  else
    let distanceCount := 1 + (← number 5)
    if distanceSymbols < distanceCount then corrupt
    else
      let metaCount := 4 + (← number 4)
      let metaCode ← codeOf (← metaLengths metaCount)
      let lengths ← codeLengths metaCode (literalCount + distanceCount) [] fuel
      let literals ← codeOf (lengths.take literalCount)
      let distances ← codeOf (lengths.drop literalCount)
      -- every block has an end, so that many bits are there
      let lookahead := max literals.lookahead (lengths.getD endOfBlock 0)
      return ({ literals with lookahead }, distances)

/-- A block that is stored as it is: from the next whole byte on, its length twice, and its bytes. -/
def stored : Inflater Unit := do
  let s ← get
  let header := s.data.extract s.taken (s.taken + 4)
  let taken := s.taken + header.size
  set { s with bits := 8 * taken, taken }
  match header.toList with
  | [a, b, c, d] =>
    let length := a.toNat + 256 * b.toNat
    if length + (c.toNat + 256 * d.toNat) ≠ 0xFFFF then corrupt
    else
      let body := s.data.extract taken (taken + length)
      let taken := taken + body.size
      modify fun s => { s with bits := 8 * taken, taken, output := s.output ++ body }
      if body.size < length then throw .cutShort
  | _ => throw .cutShort

/-- One block; the result tells whether it is the last. -/
def block (fuel : Nat) : Inflater Bool := do
  need 3
  let isLast := (← bit) = 1
  match ← number 2 with
  | 0 => stored
  | 1 => symbols fixedCode none fuel
  | 2 =>
    let (literals, distances) ← readCodes fuel
    symbols literals (some distances) fuel
  | _ => corrupt
  return isLast

/-- Blocks up to the last.  Every block takes at least three bits. -/
def blocks (fuel : Nat) : Nat → Inflater Unit
  | 0 => throw .cutShort
  | n + 1 => do
    if ← block fuel then return
    else blocks fuel n

end Inflater

/-- Decompresses data.  The second part tells why it ends early, if it does; what comes after the last
block is ignored. -/
def inflate (data : Bytes) : Bytes × Option InflateError :=
  let fuel := 8 * data.length + 1
  match (Inflater.blocks fuel fuel).run { data := data.toArray } with
  | .ok _ s => (s.output.toList, none)
  | .error e s => (s.output.toList, some e)

end JvmCoupling.Archive
