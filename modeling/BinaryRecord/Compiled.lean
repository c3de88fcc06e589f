import BinaryRecord.Packing
import BinaryRecord.Unpacking
import BinaryRecord.Text.Quoted

/-!
Formats whose layout at position 0 is worked out once. It is reused wherever a record starts at 0;
elsewhere padding depends on the position, so the format is walked anew.
-/
namespace BinaryRecord

structure Compiled where
  format : Format
  /-- The layout at 0, which did not fail. -/
  initial : Layout

namespace Compiled

def ofFormat (format : Format) : Except Fault Compiled := do
  let initial ← (format.layout 0).accepted
  return ⟨format, initial⟩

def size (compiled : Compiled) : Int := compiled.initial.size

def entries (compiled : Compiled) : List (Char × Int × Nat) :=
  compiled.initial.slots.map fun slot => (slot.code.letter, slot.offset, slot.size)

def layout (compiled : Compiled) (start : Int) : Layout :=
  if start = 0 then compiled.initial else compiled.format.layout start

def unpackAt (compiled : Compiled) (data : Value) (checked : Bool) (offset : Int) :
    Except Fault (List Value) := do
  let bs ← Storage.ofData data
  (compiled.layout offset).unpack checked compiled.format.strictness bs

def unpack (compiled : Compiled) (data : Value) (checked : Bool) : Except Fault (List Value) :=
  compiled.unpackAt data checked 0

def records (compiled : Compiled) (data : Value) (checked : Bool) :
    List (List Value) × Option Fault :=
  compiled.format.records data checked

def pack (compiled : Compiled) (arguments : List Value) (checked : Bool) : Except Fault Bytes :=
  let (values, checked) := spread arguments checked
  compiled.initial.packNew checked compiled.format.strictness values

def packAt (compiled : Compiled) (offset : Int) (arguments : List Value) (checked : Bool) :
    EStateM Fault Value Unit :=
  let (values, checked) := spread arguments checked
  (compiled.layout offset).packOnto checked compiled.format.strictness values

def shown (compiled : Compiled) : String :=
  "<Struct(" ++ Text.quoted compiled.format.text ++ ")>"

end Compiled
end BinaryRecord
