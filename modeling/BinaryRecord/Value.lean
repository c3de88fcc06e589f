import BinaryRecord.Floating.Shortest
import BinaryRecord.Quadword
import BinaryRecord.Text.Quoted

/-!
The values that records are packed from and unpacked to, and the readings that all codes share:
truth, whole numbers, items, text. A value holds bytes as they stand when it is taken.
-/
namespace BinaryRecord

/-- Bytes seen as items of one size. A length counts the items, where all else takes the bytes. -/
structure View where
  bytes : Bytes
  itemSize : Nat
  /-- Whether an item is a byte string, not a number. -/
  characters : Bool
  positive : 0 < itemSize
  whole : itemSize ∣ bytes.length

namespace View

def ofBytes (bs : Bytes) : View := ⟨bs, 1, false, Nat.one_pos, Nat.one_dvd _⟩

def length (view : View) : Nat := view.bytes.length / view.itemSize

def pieces (view : View) : List Bytes :=
  (List.range view.length).map fun k => view.bytes.window (k * view.itemSize) view.itemSize

end View

inductive Value where
  | none
  | bool (b : Bool)
  | int (n : Int)
  | quad (x : Quadword)
  /-- The pattern of a double; all NaNs are one. -/
  | float (bits : UInt64)
  | text (s : String)
  | bytes (bs : Bytes)
  /-- Bytes that can be changed in place. -/
  | array (bs : Bytes)
  | view (view : View)
  | storage (bs : Bytes)
  | list (vs : List Value)
  | tuple (vs : List Value)
  | dict (entries : List (Value × Value))
  /-- The very array that is being written, as it stands when the value is looked at. -/
  | target

inductive Kind where
  | none
  | bool
  | int
  | float
  | text
  | bytes
  | array
  | view
  | list
  | tuple
  | dict
  | quad
  | storage
  deriving DecidableEq

def Kind.name : Kind → String
  | .none => "NoneType"
  | .bool => "bool"
  | .int => "int"
  | .float => "float"
  | .text => "str"
  | .bytes => "bytes"
  | .array => "bytearray"
  | .view => "memoryview"
  | .list => "list"
  | .tuple => "tuple"
  | .dict => "dict"
  | .quad => "Long"
  | .storage => "Buffer"

namespace Value

def kind : Value → Kind
  | none => .none
  | bool _ => .bool
  | int _ => .int
  | quad _ => .quad
  | float _ => .float
  | text _ => .text
  | bytes _ => .bytes
  | array _ => .array
  | view _ => .view
  | storage _ => .storage
  | list _ => .list
  | tuple _ => .tuple
  | dict _ => .dict
  | target => .array

def ofDouble (bits : Nat) : Value :=
  float (UInt64.ofNat (if FloatShape.double.isNaN bits then FloatShape.double.quietNaN else bits))

def standing (now : Bytes) : Value → Value
  | target => array now
  | v => v

/-- The value with `now` for the array that is being written, also as a member. -/
def resolve (now : Bytes) : Value → Value
  | target => array now
  | list vs => list (vs.map (standing now))
  | tuple vs => tuple (vs.map (standing now))
  | dict entries => dict (entries.map fun entry => (entry.1, entry.2.standing now))
  | v => v

/-- Zeros, nothing and empty values count as false; a NaN counts as true. -/
def isTrue : Value → Bool
  | none => false
  | bool b => b
  | int n => n != 0
  | quad x => x.value != 0
  | float bits => FloatShape.double.unsigned bits.toNat != 0
  | text s => !s.toList.isEmpty
  | bytes bs | array bs | storage bs => !bs.isEmpty
  | view w => w.length != 0
  | list vs | tuple vs => !vs.isEmpty
  | dict entries => !entries.isEmpty
  | target => true

def integer? : Value → Option Int
  | bool b => some (if b then 1 else 0)
  | int n => some n
  | quad x => some x.value
  | _ => Option.none

/-- The items of a view. Its numbers are taken as natural ones, least significant byte first. -/
def viewItems (w : View) : List Value :=
  w.pieces.map fun piece => if w.characters then bytes piece else int piece.toNat

/-- What stepping through a value gives: members, keys, characters, or the numbers of bytes. -/
def parts? : Value → Option (List Value)
  | list vs | tuple vs => some vs
  | dict entries => some (entries.map Prod.fst)
  | text s => some (s.toList.map fun c => text (String.ofList [c]))
  | bytes bs | array bs | storage bs => some (bs.map fun b => int b.toNat)
  | view w => some (viewItems w)
  | _ => Option.none

def toQuad? (v : Value) (unsigned : Bool) : Option Quadword :=
  v.integer?.map fun n => Quadword.ofInt n unsigned

def equals (v : Value) (n : Int) : Bool :=
  match v with
  | float bits => FloatShape.double.hasValue bits.toNat n
  | v => v.integer? == some n

def equalsQuad (v : Value) (x : Quadword) : Bool := v.equals x.value

def shownStorage (bs : Bytes) : String := "<Buffer(" ++ toString bs.length ++ ")>"

mutual

def written : Value → String
  | none => "None"
  | bool b => if b then "True" else "False"
  | int n => toString n
  | quad x => x.shown
  | float bits => FloatShape.double.text .standard bits.toNat
  | text s => Text.quoted s
  | bytes bs => Text.quotedBytes bs
  | array bs => "bytearray(" ++ Text.quotedBytes bs ++ ")"
  | view _ => "<memory>"
  | storage bs => shownStorage bs
  | list vs => "[" ++ ", ".intercalate (writtenAll vs) ++ "]"
  | tuple vs => match writtenAll vs with
    | [one] => "(" ++ one ++ ",)"
    | all => "(" ++ ", ".intercalate all ++ ")"
  | dict entries => "\x7b" ++ ", ".intercalate (writtenEntries entries) ++ "\x7d"
  | target => "<target>"

def writtenAll : List Value → List String
  | [] => []
  | v :: vs => v.written :: writtenAll vs

def writtenEntries : List (Value × Value) → List String
  | [] => []
  | (key, v) :: entries => (key.written ++ ": " ++ v.written) :: writtenEntries entries

end

def shown : Value → String
  | text s => s
  | v => v.written

end Value
end BinaryRecord
