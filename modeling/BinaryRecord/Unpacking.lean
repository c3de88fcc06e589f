import BinaryRecord.Layout

/-!
Records read from bytes: one value for every field that is not padding. Fields are read in the order
of the walk, so a fault of a field comes before one of a later character of the format.
-/
namespace BinaryRecord

namespace Slot

def unpack (slot : Slot) (codec : Codec) (checked : Bool) (strictness : Strictness) (bs : Bytes) :
    Except Fault Value :=
  if checked ∧ bs.length < slot.stop then .error (.truncated slot.code.letter slot.offset)
  else (codec.read strictness bs slot.offset slot.size).mapError
    (Fault.inUnpacking slot.code.letter slot.offset)

end Slot

namespace Layout

def unpackStep (checked : Bool) (strictness : Strictness) (bs : Bytes) (read : List Value)
    (slot : Slot) : Except Fault (List Value) :=
  match slot.codec? with
  | none => .ok read
  | some codec => (slot.unpack codec checked strictness bs).map (· :: read)

def unpack (layout : Layout) (checked : Bool) (strictness : Strictness) (bs : Bytes) :
    Except Fault (List Value) := do
  let read ← layout.foldSlots (unpackStep checked strictness bs) []
  return read.reverse

end Layout

namespace Format

def unpackBytes (format : Format) (bs : Bytes) (checked : Bool) (offset : Int) :
    Except Fault (List Value) :=
  (format.layout offset).unpack checked format.strictness bs

def unpackAt (format : Format) (data : Value) (checked : Bool) (offset : Int) :
    Except Fault (List Value) := do
  let bs ← Storage.ofData data
  format.unpackBytes bs checked offset

def unpack (format : Format) (data : Value) (checked : Bool) : Except Fault (List Value) :=
  format.unpackAt data checked 0

/-- The numbers from 0 on in steps, below a bound. -/
def steps (bound step : Nat) : List Nat := List.range' 0 ((bound + step - 1) / step) step

def recordsAt (format : Format) (bs : Bytes) (checked : Bool) :
    List Nat → List (List Value) × Option Fault
  | [] => ([], none)
  | offset :: offsets =>
    match format.unpackBytes bs checked offset with
    | .error fault => ([], some fault)
    | .ok record =>
      let rest := recordsAt format bs checked offsets
      (record :: rest.1, rest.2)

def recordSize (format : Format) : Except Fault Nat := do
  let size ← format.size
  if size = 0 then throw (.emptyRecord format.text)
  return size.toNat

/-- The records one after the other, as long as a whole one is left, those before the first that
fails, and its fault. -/
def records (format : Format) (data : Value) (checked : Bool) :
    List (List Value) × Option Fault :=
  match format.recordSize with
  | .error fault => ([], some fault)
  | .ok size =>
    match Storage.ofData data with
    | .error fault => ([], some fault)
    | .ok bs => format.recordsAt bs checked (steps (bs.length + 1 - size) size)

end Format
end BinaryRecord
