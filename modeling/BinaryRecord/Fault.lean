import BinaryRecord.Value

/-!
What can go wrong, as causes. A plain fault is one of an access or of a conversion; inside of a
field it is reported with the code and the place of the field. The wording is in one function a type.
-/
namespace BinaryRecord

inductive PlainKind where
  | value
  | type
  | index
  | overflow
  | key
  deriving DecidableEq

/-- Whether a field reports the faults of a kind as its own; others pass through it as they are. -/
def PlainKind.isReported : PlainKind → Bool
  | key => false
  | _ => true

/-- What is asked of others: of the library that makes bits of numbers, or of the interpreter. -/
inductive Request where
  /-- The bits of a number, of a width in bits and under a token for its kind and byte order. -/
  | bits (token : String) (width : Nat) (v : Value)
  | isFinite (v : Value)
  | firstItem (v : Value)
  | index (v : Value)
  | item (position : Int)
  | byte (n : Int)
  | bytes (v : Value)
  | zeros (size : Int)
  | members (v : Value)
  /-- A codec where there is none, or a length that was not given. -/
  | absent

inductive PlainFault where
  /-- An access to a window that is not wholly inside of a storage. -/
  | outside (size : Nat) (offset : Int) (length : Nat)
  | notStorage (kind : Kind)
  | notArray (kind : Kind)
  | notText (kind : Kind)
  /-- A finite number that would become an infinity. -/
  | tooLarge (value : Value) (width : Nat)
  | refused (kind : PlainKind) (request : Request)

/-- The texts in which others refuse a request, as far as they are known. -/
abbrev Texts := PlainKind → Request → Option String

namespace PlainFault

def kind : PlainFault → PlainKind
  | outside .. | notStorage _ | notArray _ => .value
  | notText _ => .type
  | tooLarge .. => .overflow
  | refused kind _ => kind

def message? (texts : Texts) : PlainFault → Option String
  | outside size offset length =>
    some ("access of " ++ toString size ++ " bytes at offset " ++ toString offset
      ++ " outside of a buffer of " ++ toString length ++ " bytes")
  | notStorage kind => some ("'" ++ kind.name ++ "' is the wrong kind of object to use as buffer")
  | notArray kind => some ("pack_into() needs a bytearray, not '" ++ kind.name ++ "'")
  | notText kind => some ("a string field needs str or bytes, not '" ++ kind.name ++ "'")
  | tooLarge value width =>
    some (value.written ++ " is too large for a float of " ++ toString width ++ " bytes")
  | refused kind request => texts kind request

end PlainFault

inductive FaultClass where
  | record
  | format
  | unpacking
  | truncated
  | packing
  | insufficient
  deriving DecidableEq

def FaultClass.lineage : FaultClass → List FaultClass
  | record => [record]
  | format => [format, record]
  | unpacking => [unpacking, record]
  | truncated => [truncated, unpacking, record]
  | packing => [packing, record]
  | insufficient => [insufficient, packing, record]

inductive Fault where
  | plain (fault : PlainFault)
  /-- A character of a format that is no type code. -/
  | unknownCode (c : Char) (index : Nat)
  /-- Records of size zero have no number. -/
  | emptyRecord (format : String)
  | truncated (code : Char) (offset : Int)
  | insufficient (code : Char) (offset : Int)
  /-- The count byte of a string names more bytes than its field has. -/
  | countOverflow (offset count length : Int)
  /-- More bytes than a counted string can hold. -/
  | countedTooLong (offset : Int) (size : Nat) (length : Int)
  | unpacking (code : Char) (offset : Int) (fault : PlainFault)
  | packing (code : Char) (offset : Int) (fault : PlainFault)

namespace Fault

def refused (kind : PlainKind) (request : Request) : Fault := plain (.refused kind request)

def class? : Fault → Option FaultClass
  | plain _ => none
  | unknownCode .. | emptyRecord _ => some .format
  | truncated .. => some .truncated
  | insufficient .. => some .insufficient
  | countOverflow .. | unpacking .. => some .unpacking
  | countedTooLong .. | packing .. => some .packing

def place (c : Char) (position : Int) : List Value :=
  [.text (String.ofList [c]), .int position]

def chain : Fault → List Value
  | plain _ => []
  | unknownCode c index => place c index
  | emptyRecord format => [.text format]
  | truncated c offset | insufficient c offset => place c offset
  | countOverflow offset .. | countedTooLong offset .. => place 'p' offset
  | unpacking c offset _ | packing c offset _ => place c offset

def wording? (texts : Texts) : Fault → Option String
  | plain fault | unpacking _ _ fault | packing _ _ fault => fault.message? texts
  | unknownCode c _ => some ("unknown type code " ++ Text.quoted (String.ofList [c]))
  | emptyRecord _ => some "iter_unpack() needs a format of non-zero size"
  | truncated .. => some "reached end of buffer, can't unpack anymore data"
  | insufficient .. => some "reached end of data, no more elements to pack"
  | countOverflow _ count length =>
    some ("pascal length " ++ toString count ++ " overflows a field of " ++ toString length ++ " bytes")
  | countedTooLong _ size length =>
    some (toString size ++ " bytes don't fit a pascal string of " ++ toString length ++ " bytes")

def located (message : String) (chain : List Value) : String :=
  if chain.isEmpty then message
  else
    let place := "[" ++ "@".intercalate (chain.map Value.shown) ++ "]"
    if message.isEmpty then place else message ++ " " ++ place

def describe (message : String) (chain : Value) : Except Fault String :=
  if chain.isTrue then
    match chain.parts? with
    | some parts => .ok (located message parts)
    | none => .error (refused .type (.members chain))
  else .ok message

def message? (texts : Texts) (fault : Fault) : Option String :=
  (fault.wording? texts).map fun wording => located wording fault.chain

/-- A fault reported for the field in which it arose; one that knows its place keeps it. -/
def inField (report : PlainFault → Fault) : Fault → Fault
  | plain fault => if fault.kind.isReported then report fault else plain fault
  | fault => fault

def inUnpacking (code : Char) (offset : Int) : Fault → Fault := inField (unpacking code offset)

def inPacking (code : Char) (offset : Int) : Fault → Fault := inField (packing code offset)

end Fault
end BinaryRecord
