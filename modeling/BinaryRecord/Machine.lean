import BinaryRecord.Bytes

/-!
The machine whose conventions the native mode follows: its byte order and the width of its pointers.
Nothing here asks the running machine; a machine is always given as a value.
-/
namespace BinaryRecord

inductive ByteOrder where
  | little
  | big
  deriving DecidableEq

namespace ByteOrder

/-- Bytes given least significant first, in this order; its own inverse. -/
def arrange : ByteOrder → Bytes → Bytes
  | .little, bs => bs
  | .big, bs => bs.reverse

theorem arrange_arrange (order : ByteOrder) (bs : Bytes) :
    order.arrange (order.arrange bs) = bs := by
  cases order <;> simp [arrange]

theorem length_arrange (order : ByteOrder) (bs : Bytes) :
    (order.arrange bs).length = bs.length := by
  cases order <;> simp [arrange]

end ByteOrder

structure Machine where
  order : ByteOrder
  pointerWidth : Nat
  deriving DecidableEq

namespace Machine

def default : Machine := ⟨.little, 8⟩

def is64Bit (machine : Machine) : Bool := machine.pointerWidth == 8

end Machine
end BinaryRecord
