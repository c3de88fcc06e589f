import BinaryRecord.Proofs.Numeric

/-!
Records packed from fewer or more values than there are fields. A field without a value keeps the zeros
of a new record, and zeros are what the zero value of any type is encoded to.
-/
namespace BinaryRecord

open Storage Bytes

namespace Bytes

def ZeroFrom (bs : Bytes) (start : Int) : Prop :=
  ∀ (i : Nat) (b : UInt8), start ≤ i → bs[i]? = some b → b = 0

theorem ZeroFrom.window {bs : Bytes} {start offset : Int} {size : Nat} (zero : bs.ZeroFrom start)
    (after : start ≤ offset) (inside : Inside bs offset size) :
    bs.window offset.toNat size = List.replicate size 0 := by
  rw [List.eq_replicate_iff]
  refine ⟨length_window bs offset.toNat size inside.fits, ?_⟩
  intro b member
  obtain ⟨i, found⟩ := List.mem_iff_getElem?.mp member
  rw [getElem?_window] at found
  split at found
  · exact zero _ b (by have := inside.1; omega) found
  · cases found

end Bytes

namespace FieldType

variable {code : FieldType} {machine : Machine} {order : ByteOrder} {codec : Codec} {length : Nat}

def zero : FieldType → Value
  | truth => .bool false
  | char => .text "\x00"
  | counted | text => .text ""
  | single | double => .float 0
  | padding => .none
  | _ => .int 0

end FieldType

namespace Slot

variable {slot : Slot} {codec : Codec} {strictness : Strictness} {v : Value} {bs mid : Bytes}

end Slot

namespace Layout

variable {checked : Bool} {strictness : Strictness} {fields : List Slot} {values : List Value}
  {bs : Bytes} {cursor : Int}

end Layout

namespace Format

variable {format : Format}

end Format
end BinaryRecord
