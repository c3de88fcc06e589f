import BinaryRecord.Storage
import BinaryRecord.Machine
import BinaryRecord.Text.Numeral

/-!
Numbers of a fixed width in either byte order: two's complement integers, natural numbers, IEEE 754
singles and doubles. A number is stored as the digits of its pattern in base 256. The pattern of a
value is made by a library outside, and whether it can be stored is looked at here.
-/
namespace BinaryRecord

inductive Number where
  | int (width : Nat)
  | uint (width : Nat)
  | single
  | double
  deriving DecidableEq

namespace Number

-- A power is the core library's, also where an algebraic hierarchy offers another.
attribute [local instance (high)] instPowNat

def width : Number → Nat
  | int width | uint width => width
  | single => 4
  | double => 8

/-- The whole number that a value stands for: one by kind, or one written as text. A float is none,
whatever its value. -/
def whole (v : Value) : Except PlainKind Int :=
  match v.integer?, v with
  | some n, _ => .ok n
  | none, .text s => match Text.integer? s.toList with
    | some n => .ok n
    | none => .error .value
  | none, .none => .error .value
  | none, _ => .error .type

def asciiChars? (bs : Bytes) : Option (List Char) :=
  if bs.all (· < 0x80) then some (bs.map fun b => Char.ofNat b.toNat) else none

def nearestDouble (n : Int) : Except PlainKind (Option Nat) :=
  let bits := FloatShape.double.ofInt n
  if FloatShape.double.isInfinite bits then .error .overflow else .ok (some bits)

/-- The double that a value stands for. Text may write one too; which one is left open, as nothing
looks at it. -/
def real : Value → Except PlainKind (Option Nat)
  | .float bits => .ok (some bits.toNat)
  | .bool b => nearestDouble (if b then 1 else 0)
  | .int n => nearestDouble n
  | .quad x => nearestDouble x.value
  | .text s => if Text.isReal s.toList then .ok none else .error .value
  | .bytes bs | .array bs => if (asciiChars? bs).any Text.isReal then .ok none else .error .value
  | .view w => if (asciiChars? w.bytes).any Text.isReal then .ok none else .error .value
  | .none => .error .value
  | .list _ | .tuple _ | .dict _ | .storage _ | .target => .error .type

/-- The pattern that the library outside makes of a value, below `256 ^ width`. -/
def converted (number : Number) (v : Value) : Except PlainKind (Option Nat) :=
  match number with
  | int width => do
    let n ← whole v
    if -(256 ^ width / 2 : Nat) ≤ n ∧ n < (256 ^ width / 2 : Nat) then
      return some (n % 256 ^ width).toNat
    else throw .value
  | uint width => do
    let n ← whole v
    if 0 ≤ n ∧ n < 256 ^ width then return some n.toNat else throw .value
  | single => do return (← real v).map (FloatShape.double.convert .single)
  | double => do
    return (← real v).map fun bits =>
      if FloatShape.double.isNaN bits then FloatShape.double.quietNaN else bits

def shape? : Number → Option FloatShape
  | single => some .single
  | double => some .double
  | _ => none

def isFinite? : Value → Option Bool
  | .float bits => some (FloatShape.double.isFinite bits.toNat)
  | .bool _ | .int _ | .quad _ => some true
  | _ => none

/-- A pattern, unless it is an infinity that was made of a finite number. -/
def bounded (number : Number) (v : Value) (raw? : Option Nat) : Except Fault Nat :=
  match number.shape?, isFinite? v, raw? with
  | none, _, some raw => .ok raw
  | some shape, some finite, some raw =>
    if finite ∧ shape.isInfinite raw then .error (.plain (.tooLarge v number.width)) else .ok raw
  | _, _, _ => .error (.refused .type (.isFinite v))

/-- The kind and the byte order by which a pattern is asked for; a single byte has no order. -/
def token (number : Number) (order : ByteOrder) : String :=
  let kind := match number with
    | int _ => "int"
    | uint _ => "uint"
    | single | double => "float"
  let suffix := match order with
    | .little => "le"
    | .big => "be"
  if number.width = 1 then kind else kind ++ suffix

def pattern (number : Number) (order : ByteOrder) (v : Value) : Except Fault Nat := do
  let raw? ← (number.converted v).mapError fun kind =>
    .refused kind (.bits (number.token order) (8 * number.width) v)
  number.bounded v raw?

def value : Number → Nat → Value
  | int width, n => .int (Int.bmod n (256 ^ width))
  | uint _, n => .int n
  | single, n => .ofDouble (FloatShape.single.convert .double n)
  | double, n => .ofDouble n

def encode (number : Number) (order : ByteOrder) (pattern : Nat) : Bytes :=
  order.arrange (Bytes.ofNat number.width pattern)

def decode (number : Number) (order : ByteOrder) (bs : Bytes) : Value :=
  number.value (order.arrange bs).toNat

def read (number : Number) (order : ByteOrder) (bs : Bytes) (offset : Int) : Except Fault Value := do
  let window ← Storage.read bs offset number.width
  return number.decode order window

def write (number : Number) (order : ByteOrder) (offset : Int) (v : Value) : Edit Unit := do
  Storage.check offset number.width
  let pattern ← MonadExcept.ofExcept (number.pattern order v)
  Storage.write offset (number.encode order pattern)

end Number
end BinaryRecord
