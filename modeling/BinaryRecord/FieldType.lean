import BinaryRecord.Codec

/-!
The types of fields: the letter that stands for each in a format, its size, and how it is read and
written. Only the width of pointers depends on a machine. The first character of a format may choose
a convention for all of its fields; without it the convention of the machine holds.
-/
namespace BinaryRecord

inductive FieldType where
  | truth
  | uint8
  | uint16
  | uint32
  | ulong
  | pointer
  | uint64
  | int8
  | char
  | double
  | single
  | int16
  | int32
  | long
  | counted
  | int64
  | text
  | padding
  deriving DecidableEq

namespace FieldType

def letter : FieldType → Char
  | truth => '?'
  | uint8 => 'B'
  | uint16 => 'H'
  | uint32 => 'I'
  | ulong => 'L'
  | pointer => 'P'
  | uint64 => 'Q'
  | int8 => 'b'
  | char => 'c'
  | double => 'd'
  | single => 'f'
  | int16 => 'h'
  | int32 => 'i'
  | long => 'l'
  | counted => 'p'
  | int64 => 'q'
  | text => 's'
  | padding => 'x'

def all : List FieldType :=
  [truth, uint8, uint16, uint32, ulong, pointer, uint64, int8, char, double, single, int16, int32,
    long, counted, int64, text, padding]

def ofLetter? (c : Char) : Option FieldType := all.find? fun code => code.letter == c

/-- The bytes of one occurrence; of the text codes, of one byte of text. -/
def size (machine : Machine) : FieldType → Nat
  | truth | uint8 | int8 | char | counted | text | padding => 1
  | uint16 | int16 => 2
  | uint32 | ulong | int32 | long | single => 4
  | uint64 | int64 | double => 8
  | pointer => machine.pointerWidth

def codec? (machine : Machine) (order : ByteOrder) : FieldType → Option Codec
  | padding => none
  | char => some .char
  | truth => some .truth
  | text => some .text
  | counted => some .counted
  | int8 => some (.number (.int 1) order)
  | uint8 => some (.number (.uint 1) order)
  | int16 => some (.number (.int 2) order)
  | uint16 => some (.number (.uint 2) order)
  | int32 | long => some (.number (.int 4) order)
  | uint32 | ulong => some (.number (.uint 4) order)
  | single => some (.number .single order)
  | double => some (.number .double order)
  | int64 => some (.quad false order)
  | uint64 => some (.quad true order)
  | pointer =>
    some (if machine.is64Bit then .quad true order else .number (.uint machine.pointerWidth) order)

end FieldType

structure Convention where
  order : ByteOrder
  /-- Whether every field starts at a multiple of its size. -/
  native : Bool
  machine : Machine
  deriving DecidableEq

namespace Convention

def ofMachine (machine : Machine) : Convention := ⟨machine.order, true, machine⟩

def standard (order : ByteOrder) (machine : Machine) : Convention := ⟨order, false, machine⟩

def size (c : Convention) (code : FieldType) : Nat := code.size c.machine

def alignment (c : Convention) (code : FieldType) : Nat := if c.native then c.size code else 1

def codec? (c : Convention) (code : FieldType) : Option Codec := code.codec? c.machine c.order

/-- The convention of a format, and whether its first character does nothing but choose it. -/
def chosen (machine : Machine) : List Char → Convention × Bool
  | '<' :: _ => (standard .little machine, true)
  | '>' :: _ | '!' :: _ => (standard .big machine, true)
  | '=' :: _ => (standard machine.order machine, true)
  | '@' :: _ => (ofMachine machine, true)
  | _ => (ofMachine machine, false)

end Convention
end BinaryRecord
