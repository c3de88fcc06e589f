import BinaryRecord.Layout

/-!
Records written from values: one value for every field that is not padding. A packing that fails
leaves the fields before the failing one written.
-/
namespace BinaryRecord

/-- The values to pack and whether one may be missing, out of the arguments of a call: one list, or
one list and a flag, or else the values themselves, none of which may then be missing. -/
def spread (arguments : List Value) (checked : Bool) : List Value × Bool :=
  match arguments with
  | [.list vs] | [.tuple vs] => (vs, checked)
  | [.list vs, .bool flag] | [.tuple vs, .bool flag] => (vs, flag)
  | vs => (vs, true)

namespace Slot

def pack (slot : Slot) (codec : Codec) (strictness : Strictness) (v : Value) : Edit Unit :=
  EStateM.adaptExcept (Fault.inPacking slot.code.letter slot.offset)
    (codec.write strictness v slot.offset slot.size)

end Slot

namespace Layout

def packStep (checked : Bool) (strictness : Strictness) (left : List Value) (slot : Slot) :
    Edit (List Value) :=
  match slot.codec?, left with
  | none, left => pure left
  | some codec, v :: left => do
    slot.pack codec strictness v
    return left
  | some _, [] =>
    if checked then throw (.insufficient slot.code.letter slot.offset) else pure []

def pack (layout : Layout) (checked : Bool) (strictness : Strictness) (values : List Value) :
    Edit Unit := do
  let _ ← layout.foldSlots (packStep checked strictness) values

def packNew (layout : Layout) (checked : Bool) (strictness : Strictness) (values : List Value) :
    Except Fault Bytes := do
  let zeros ← Storage.zeros layout.size
  match layout.pack checked strictness values zeros with
  | .ok _ bs => .ok bs
  | .error fault _ => .error fault

def packOnto (layout : Layout) (checked : Bool) (strictness : Strictness) (values : List Value) :
    EStateM Fault Value Unit
  | .array bs =>
    match layout.pack checked strictness values bs with
    | .ok _ after => .ok () (.array after)
    | .error fault after => .error fault (.array after)
  | v => .error (.plain (.notArray v.kind)) v

end Layout

namespace Format

/-- The bytes of a new record. The whole format is read before a value is looked at. -/
def pack (format : Format) (arguments : List Value) (checked : Bool) : Except Fault Bytes := do
  let (values, checked) := spread arguments checked
  let layout ← (format.layout 0).accepted
  layout.packNew checked format.strictness values

/-- Writes a record into an array from `offset` on. The format is read as fields are written. -/
def packAt (format : Format) (offset : Int) (arguments : List Value) (checked : Bool) :
    EStateM Fault Value Unit :=
  let (values, checked) := spread arguments checked
  (format.layout offset).packOnto checked format.strictness values

end Format
end BinaryRecord
