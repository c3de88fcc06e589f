import BinaryRecord.Codec.Number
import BinaryRecord.Codec.Text

/-!
The ways a field is read from a storage and written to it. Only the two text codecs look at the
length of their field; every other one has a size of its own.
-/
namespace BinaryRecord

/-- What is refused although a lenient reading gives it a meaning. -/
structure Strictness where
  /-- A character of a format that is no type code is refused. -/
  codes : Bool
  /-- A counted text that does not fit its field is refused. -/
  counts : Bool
  deriving DecidableEq

namespace Strictness

def lenient : Strictness := ⟨false, false⟩

def Within (weak strong : Strictness) : Prop :=
  (weak.codes = true → strong.codes = true) ∧ (weak.counts = true → strong.counts = true)

def ofFlags (flags : Nat) : Strictness := ⟨flags.testBit 0, flags.testBit 1⟩

end Strictness

inductive Codec where
  | number (number : Number) (order : ByteOrder)
  /-- A 64-bit integer as two words, which lie in the byte order too. -/
  | quad (unsigned : Bool) (order : ByteOrder)
  | char
  | truth
  | text
  | counted
  deriving DecidableEq

namespace Codec

def byte : Number := .uint 1

def word : Number := .uint 4

def wordPlaces : ByteOrder → Int × Int
  | .little => (0, 4)
  | .big => (4, 0)

def readWord (order : ByteOrder) (bs : Bytes) (offset : Int) : Except Fault Nat := do
  let window ← Storage.read bs offset 4
  return (order.arrange window).toNat

def readQuad (unsigned : Bool) (order : ByteOrder) (bs : Bytes) (offset : Int) :
    Except Fault Value := do
  let low ← readWord order bs (offset + (wordPlaces order).1)
  let high ← readWord order bs (offset + (wordPlaces order).2)
  return .quad (Quadword.ofWords low high unsigned)

/-- The less significant word is written first; a fault of the other one leaves it written. -/
def writeQuad (unsigned : Bool) (order : ByteOrder) (v : Value) (offset : Int) : Edit Unit := do
  let some x := v.toQuad? unsigned | throw (.refused .type (.index v))
  word.write order (offset + (wordPlaces order).1) (.int x.low)
  word.write order (offset + (wordPlaces order).2) (.int x.high)

def loneCode? : Value → Option Nat
  | .text s => match s.toList with
    | [c] => some c.toNat
    | _ => none
  | .bytes [b] | .array [b] => some b.toNat
  | _ => none

def firstItem (v : Value) : Except PlainKind Value :=
  match v, v.parts? with
  | .dict entries, _ => match entries.find? fun entry => entry.1.equals 0 with
    | some entry => .ok entry.2
    | none => .error .key
  | _, some (item :: _) => .ok item
  | _, some [] => .error .index
  | _, none => .error .type

/-- The number of the first item of a value, which has to be a character but in byte strings. -/
def firstCode (v : Value) : Except Fault Nat :=
  match v with
  | .bytes (b :: _) | .array (b :: _) => .ok b.toNat
  | v => match firstItem v with
    | .error kind => .error (.refused kind (.firstItem v))
    | .ok item => match loneCode? item with
      | some code => .ok code
      | none => .error (.refused .type (.firstItem v))

def writeChar (v : Value) (offset : Int) : Edit Unit := do
  let code ← MonadExcept.ofExcept (firstCode v)
  byte.write .little offset (.int (code % 256 : Nat))

def writeTruth (v : Value) (offset : Int) : Edit Unit :=
  byte.write .little offset (.int (if v.isTrue then 1 else 0))

def read (codec : Codec) (strictness : Strictness) (bs : Bytes) (offset length : Int) :
    Except Fault Value :=
  match codec with
  | number n order => n.read order bs offset
  | quad unsigned order => readQuad unsigned order bs offset
  | char => do return .text (String.ofList [Char.ofNat (← Storage.get bs offset).toNat])
  | truth => do return .bool ((← Storage.get bs offset) != 0)
  | text => .ok (.text (PlainText.read bs offset length))
  | counted => do return .text (← CountedText.read strictness.counts bs offset length)

def writeResolved (codec : Codec) (strictness : Strictness) (v : Value) (offset length : Int) :
    Edit Unit :=
  match codec with
  | number n order => n.write order offset v
  | quad unsigned order => writeQuad unsigned order v offset
  | char => writeChar v offset
  | truth => writeTruth v offset
  | text => PlainText.write v offset length
  | counted => CountedText.write strictness.counts v offset length

def write (codec : Codec) (strictness : Strictness) (v : Value) (offset length : Int) :
    Edit Unit := do
  writeResolved codec strictness (v.resolve (← get)) offset length

/-- Without a length the text codecs fail, but only when they come to need it. -/
def readUnsized (codec : Codec) (strictness : Strictness) (bs : Bytes) (offset : Int) :
    Except Fault Value :=
  match codec with
  | text => .error (.refused .type .absent)
  | counted => do
    let _ ← Storage.get bs offset
    throw (.refused .type .absent)
  | codec => codec.read strictness bs offset 0

def writeUnsized (codec : Codec) (strictness : Strictness) (v : Value) (offset : Int) :
    Edit Unit := do
  match codec with
  | text =>
    Storage.write offset (← MonadExcept.ofExcept v.rawText)
    throw (.refused .type .absent)
  | counted =>
    let _ ← MonadExcept.ofExcept v.rawText
    throw (.refused .type .absent)
  | codec => codec.write strictness v offset 0

def readGiven (codec? : Option Codec) (strictness : Strictness) (bs : Bytes) (offset : Int)
    (length? : Option Int) : Except Fault Value :=
  match codec?, length? with
  | none, _ => .error (.refused .type .absent)
  | some codec, none => codec.readUnsized strictness bs offset
  | some codec, some length => codec.read strictness bs offset length

def writeGiven (codec? : Option Codec) (strictness : Strictness) (v : Value) (offset : Int)
    (length? : Option Int) : Edit Unit :=
  match codec?, length? with
  | none, _ => throw (.refused .type .absent)
  | some codec, none => codec.writeUnsized strictness v offset
  | some codec, some length => codec.write strictness v offset length

end Codec
end BinaryRecord
