import JvmCoupling.Archive.Checksum
import JvmCoupling.Archive.Inflate
import JvmCoupling.Text.Number

/-! # Archives

An archive ends with a record that points to a directory of its members; each entry of the directory points
to a member's header and data.

* `Zip.Entry` — what the directory says of a member;
* `Zip.readDirectory` — the entries, in directory order;
* `Zip.Entry.read` — the content of a member;
* `Zip.members` — names and contents together.
-/

namespace JvmCoupling.Zip

open JvmCoupling.Archive

/-- Why an archive or one of its members cannot be read. -/
inductive Fault where
  /-- A record is not where it should be, or is not well-formed. -/
  | badFormat
  /-- A member is compressed by another method than the two that are known. -/
  | unknownMethod
  /-- The content of a member does not have its checksum. -/
  | badChecksum
  /-- Nothing is left where a record should start. -/
  | endOfFile
  /-- The file ends inside a record, or a member has not its length. -/
  | cutShort
  /-- A member's header would lie in front of the file. -/
  | negativeOffset
  /-- The compressed data of a member is corrupt. -/
  | corrupt (offset : Nat)
deriving DecidableEq, Repr, Inhabited

/-! ## Fields of records -/

/-- The number in a list of bytes, least significant first. -/
def littleEndian : Bytes → Nat
  | [] => 0
  | b :: rest => b.toNat + 256 * littleEndian rest

/-- The field of a record at an offset. -/
def number (record : Bytes) (offset width : Nat) : Nat := littleEndian ((record.drop offset).take width)

/-- A number read as a signed one of 64 bits. -/
def signed64 (n : Nat) : Int := (Int64.ofNat n).toInt

/-- The bytes of a file from an offset on, at most so many. -/
def slice (file : Array UInt8) (offset length : Nat) : Bytes :=
  (file.extract offset (offset + length)).toList

/-- A record of fixed size at an offset; nothing at all and a part of it are told apart. -/
def recordAt (file : Array UInt8) (offset size : Nat) : Except Fault Bytes :=
  let record := slice file offset size
  if record.length = size then .ok record
  else if record = [] then .error .endOfFile
  else .error .cutShort

/-! ## The directory -/

/-- What the directory says of a member. -/
structure Entry where
  name : Bytes
  creator : Nat
  flags : Nat
  method : Nat
  checksum : Nat
  compressedSize : Nat
  size : Nat
  attributes : Nat
  offset : Int
deriving DecidableEq, Repr, Inhabited

/-- The value of a 32-bit field that refers to the extension for large files. -/
def inExtension : Nat := 0xFFFFFFFF

/-- The tag of the extension for large files. -/
def extensionTag : Nat := 1

/-- Takes the next eight-byte number of an extension, if the field refers to it. -/
def takeLarge (refers : Bool) (extension : Bytes) : Except Fault (Option Nat × Bytes) :=
  if !refers then .ok (none, extension)
  else if extension.length < 8 then .error .badFormat
  else .ok (some (number extension 0 8), extension.drop 8)

/-- Which fields of an entry still refer to the extension. -/
structure Pending where
  size : Bool
  compressedSize : Bool
  offset : Bool
deriving DecidableEq, Repr, Inhabited

/-- Puts in the numbers of the extension for the fields that refer to it. -/
def applyExtension (entry : Entry) (pending : Pending) (extension : Bytes) : Except Fault Entry := do
  let (size?, extension) ← takeLarge pending.size extension
  let (compressedSize?, extension) ← takeLarge pending.compressedSize extension
  let (offset?, _) ← takeLarge pending.offset extension
  return { entry with
    size := size?.getD entry.size
    compressedSize := compressedSize?.getD entry.compressedSize
    offset := (offset?.map signed64).getD entry.offset }

/-- Goes through the tagged fields after a name.  The first extension for large files settles all fields
that refer to it; a field that is cut off ends the list. -/
def readExtensions (entry : Entry) (pending : Pending) (fields : Bytes) : Except Fault (Entry × Pending) :=
  if fields.length < 4 then .ok (entry, pending)
  else
    let length := number fields 2 2
    let rest := fields.drop 4
    if rest.length < length then .ok (entry, pending)
    else if number fields 0 2 = extensionTag then
      match applyExtension entry pending (rest.take length) with
      | .ok entry => readExtensions entry ⟨false, false, false⟩ (rest.drop length)
      | .error fault => .error fault
    else readExtensions entry pending (rest.drop length)
termination_by fields.length
decreasing_by all_goals simp only [List.length_drop]; omega

/-- The size of the fixed part of a directory entry. -/
def entrySize : Nat := 46

/-- The directory entry at an offset, and the offset of the next one. -/
def readEntry (file : Array UInt8) (offset : Nat) : Except Fault (Entry × Nat) := do
  let r ← recordAt file offset entrySize
  if number r 0 4 ≠ 0x02014B50 then throw .badFormat
  let nameLength := number r 28 2
  let fieldsLength := number r 30 2
  let length := nameLength + fieldsLength + number r 32 2
  let body ← recordAt file (offset + entrySize) length
  let entry : Entry := {
    name := body.take nameLength
    creator := number r 4 2
    flags := number r 8 2
    method := number r 10 2
    checksum := number r 16 4
    compressedSize := number r 20 4
    size := number r 24 4
    attributes := number r 38 4
    offset := number r 42 4 }
  let pending : Pending :=
    ⟨entry.size = inExtension, entry.compressedSize = inExtension, entry.offset = inExtension⟩
  let (entry, pending) ← readExtensions entry pending ((body.drop nameLength).take fieldsLength)
  -- a size of all ones may be meant as it stands
  if pending.compressedSize || pending.offset then throw .badFormat
  return (entry, offset + entrySize + length)

/-- The directory entries from an offset on, and why there are no more.  Each takes up at least the fixed
part, which bounds their number. -/
def readEntries (file : Array UInt8) (offset : Nat) : Nat → List Entry × Fault
  | 0 => ([], .endOfFile)
  | fuel + 1 =>
    match readEntry file offset with
    | .error fault => ([], fault)
    | .ok (entry, next) =>
      let (entries, fault) := readEntries file next fuel
      (entry :: entries, fault)

/-! ## The end record -/

/-- What the end record says of the directory, and where the record is. -/
structure End where
  position : Nat
  entries : Nat
  size : Nat
  offset : Nat
deriving DecidableEq, Repr, Inhabited

/-- The size of the end record without its comment. -/
def endSize : Nat := 22

/-- An end record starts at a position. -/
def isEndAt (file : Array UInt8) (position : Nat) : Bool :=
  slice file position 4 = [0x50, 0x4B, 0x05, 0x06]

/-- The last end record that starts at or after `low`, searched among `n` positions upwards from it.  It is
of no use if its comment is cut off. -/
def lastEndFrom (file : Array UInt8) (low : Nat) : Nat → Option Nat
  | 0 => none
  | n + 1 =>
    let position := low + n
    if isEndAt file position then
      let comment := number (slice file (position + 20) 2) 0 2
      if file.size < position + endSize + comment then none else some position
    else lastEndFrom file low n

/-- The position of the end record within the last bytes of the file. -/
def lastEndWithin (file : Array UInt8) (window : Nat) : Option Nat :=
  let low := file.size - window
  lastEndFrom file low (file.size + 1 - endSize - low)

/-- The end record, searched in the last kilobyte and then as far back as a comment can reach. -/
def findEnd (file : Array UInt8) : Option Nat :=
  (lastEndWithin file 1024).orElse fun _ => lastEndWithin file (65 * 1024)

/-- The end record for large files that a locator in front of the usual one points to, if there is one. -/
def locateLargeEnd (file : Array UInt8) (position : Nat) : Option Int :=
  if position < 20 then none
  else
    let locator := slice file (position - 20) 20
    if number locator 0 4 = 0x07064B50 ∧ number locator 4 4 = 0 ∧ number locator 16 4 = 1 then
      some (signed64 (number locator 8 8))
    else none

/-- The end record for large files at a position. -/
def readLargeEnd (file : Array UInt8) (position : Nat) : Except Fault End := do
  let r := slice file position 56
  if r.length < 56 then throw .endOfFile
  if number r 0 4 ≠ 0x06064B50 then throw .badFormat
  return ⟨position, number r 32 8, number r 40 8, number r 48 8⟩

/-- The end record of an archive. -/
def readEnd (file : Array UInt8) : Except Fault End := do
  let some position := findEnd file | throw .badFormat
  let r := slice file position endSize
  let e : End := ⟨position, number r 10 2, number r 12 4, number r 16 4⟩
  if e.entries = 0xFFFF ∨ e.size = 0xFFFF ∨ e.offset = 0xFFFFFFFF then
    match locateLargeEnd file position with
    | some large => if 0 ≤ large then readLargeEnd file large.toNat else return e
    | none => return e
  else return e

/-- Where offsets in an archive count from.  It may follow other data, and the end record tells by how much
the directory was moved; but if an entry is found at the offset as it stands, nothing was moved. -/
def baseOffset (file : Array UInt8) (e : End) : Except Fault Int :=
  if 1 <<< 63 ≤ e.size ∨ 1 <<< 63 ≤ e.offset then .error .badFormat
  else
    let start : Int := (e.position : Int) - e.size
    if start < 0 ∨ file.size ≤ start then .error .badFormat
    else
      let base := start - e.offset
      if 0 < base ∧ (readEntry file e.offset).isOk then .ok 0 else .ok base

/-- The entries of an archive's directory.  The end record gives their number modulo 2^16. -/
def readDirectory (file : Array UInt8) : Except Fault (List Entry) := do
  let e ← readEnd file
  let base ← baseOffset file e
  let (entries, fault) := readEntries file (base + e.offset).toNat (file.size + 1)
  if fault ≠ .badFormat ∧ fault ≠ .cutShort then throw fault
  if entries.length % 0x10000 ≠ e.entries % 0x10000 then throw fault
  return entries.map fun entry => { entry with offset := entry.offset + base }

/-! ## Members -/

namespace Entry

/-- An entry for a directory: by its name, or by the attributes in the manner of its creator's system. -/
def isDirectory (entry : Entry) : Bool :=
  let system := entry.creator / 256
  Bytes.slash ∈ entry.name.getLast?
    || (if system = 3 ∨ system = 19 then entry.attributes / 0x10000 % 0x10000 / 0x1000 = 4
      else (system = 0 ∨ system = 11 ∨ system = 14) ∧ entry.attributes / 0x10 % 2 = 1)

/-- The data of a member follows its header. -/
def dataOffset (file : Array UInt8) (entry : Entry) : Except Fault Nat :=
  if entry.offset < 0 then .error .negativeOffset
  else
    let header := slice file entry.offset.toNat 30
    if header.length < 30 then .error .endOfFile
    else if number header 0 4 ≠ 0x04034B50 then .error .badFormat
    else .ok (entry.offset.toNat + 30 + number header 26 2 + number header 28 2)

/-- The checksum is written after the data. -/
def hasDescriptor (entry : Entry) : Bool := entry.flags / 8 % 2 = 1

/-- The content has the checksum of the directory, and so says the record after the data, which may start
with a signature. -/
def checkDescriptor (file : Array UInt8) (entry : Entry) (offset : Nat) (content : Bytes) :
    Except Fault Unit :=
  let start := if number (slice file offset 4) 0 4 = 0x08074B50 then offset + 4 else offset
  let descriptor := slice file start 12
  if descriptor.length < 12 then .error .cutShort
  else if number descriptor 0 4 ≠ entry.checksum then .error .badChecksum
  else if (Archive.checksum content).toNat ≠ entry.checksum then .error .badChecksum
  else .ok ()

/-- The content has the checksum of the directory, unless that is zero. -/
def checkContent (entry : Entry) (content : Bytes) : Except Fault Unit :=
  if entry.checksum ≠ 0 ∧ (Archive.checksum content).toNat ≠ entry.checksum then .error .badChecksum
  else .ok ()

/-- The content of a member. -/
def read (file : Array UInt8) (entry : Entry) : Except Fault Bytes := do
  let offset ← entry.dataOffset file
  let size := (signed64 entry.compressedSize).toNat
  let data := slice file offset size
  let (content, error?) ←
    if entry.method = 0 then pure (data, none)
    else if entry.method = 8 then pure (inflate data)
    else throw .unknownMethod
  if entry.size < content.length then throw .badFormat
  match error? with
  | some (.corrupt position) => throw (.corrupt position)
  | some .cutShort => throw .cutShort
  | none => pure ()
  if content.length ≠ entry.size then throw .cutShort
  if entry.hasDescriptor then entry.checkDescriptor file (offset + size) content
  else entry.checkContent content
  return content

end Entry

/-- A member of an archive: its name and its content, if that can be read. -/
structure Member where
  name : Bytes
  isDirectory : Bool
  content : Except Fault Bytes
deriving Inhabited

/-- The members of an archive, in directory order. -/
def members (data : Bytes) : Except Fault (List Member) := do
  let file := data.toArray
  let entries ← readDirectory file
  return entries.map fun entry => ⟨entry.name, entry.isDirectory, entry.read file⟩

/-- The wording of a fault; `path` is where the archive is. -/
def Fault.message (path : Bytes) : Fault → Bytes
  | badFormat => utf8 "zip: not a valid zip file"
  | unknownMethod => utf8 "zip: unsupported compression algorithm"
  | badChecksum => utf8 "zip: checksum error"
  | endOfFile => utf8 "EOF"
  | cutShort => utf8 "unexpected EOF"
  | negativeOffset => utf8 "readat " ++ path ++ utf8 ": negative offset"
  | corrupt offset => utf8 "flate: corrupt input before offset " ++ Text.decimal offset

end JvmCoupling.Zip
