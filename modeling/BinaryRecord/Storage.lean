import BinaryRecord.Fault

/-!
Storages: bytes of a fixed number that are read and changed in place. Every window is checked before
it is touched. Single bytes, slices and searches take positions counted from either end instead.
-/
namespace BinaryRecord

/-- A change of a storage. The bytes as they then stand are kept also where it fails. -/
abbrev Edit := EStateM Fault Bytes

namespace Storage

-- A power is the core library's, also where an algebraic hierarchy offers another.
attribute [local instance (high)] instPowNat

/-- A storage of zeros; beyond 64 bits its size is not even a number of bytes. -/
def zeros (size : Int) : Except Fault Bytes :=
  if size < -2 ^ (63 : Nat) ∨ 2 ^ (63 : Nat) ≤ size then .error (.refused .overflow (.zeros size))
  else if size < 0 then .error (.refused .value (.zeros size))
  else .ok (List.replicate size.toNat 0)

def ofValue : Value → Except Fault Bytes
  | .int size => zeros size
  | .bytes bs | .array bs => .ok bs
  | .view view => .ok view.bytes
  | v => .error (.plain (.notStorage v.kind))

def ofData : Value → Except Fault Bytes
  | .storage bs => .ok bs
  | v => ofValue v

def Inside (bs : Bytes) (offset : Int) (size : Nat) : Prop := 0 ≤ offset ∧ offset + size ≤ bs.length

instance (bs : Bytes) (offset : Int) (size : Nat) : Decidable (Inside bs offset size) :=
  inferInstanceAs (Decidable (_ ∧ _))

def outside (bs : Bytes) (offset : Int) (size : Nat) : Fault :=
  .plain (.outside size offset bs.length)

def read (bs : Bytes) (offset : Int) (size : Nat) : Except Fault Bytes :=
  if Inside bs offset size then .ok (bs.window offset.toNat size)
  else .error (outside bs offset size)

def check (offset : Int) (size : Nat) : Edit Unit := fun bs =>
  if Inside bs offset size then .ok () bs else .error (outside bs offset size) bs

def write (offset : Int) (new : Bytes) : Edit Unit := fun bs =>
  if Inside bs offset new.length then .ok () (bs.overlay offset.toNat new)
  else .error (outside bs offset new.length) bs

def byte (value : Int) : Except Fault UInt8 :=
  if 0 ≤ value ∧ value < 256 then .ok (UInt8.ofNat value.toNat)
  else .error (.refused .value (.byte value))

def byteOf (v : Value) : Except Fault UInt8 :=
  match v.integer? with
  | some n => byte n
  | none => .error (.refused .type (.index v))

/-- Replaces the bytes from `offset` on by those of a value. Its length is checked first, so a value
that has a length but no bytes is refused only where it would fit. What is checked of a view is the
number of its items, so one of wider items takes the place of fewer bytes than it has. -/
def writeValue (offset : Int) (v : Value) : Edit Unit :=
  match v with
  | .bytes bs | .array bs | .storage bs => write offset bs
  | .view view => do
    check offset view.length
    modify fun bs => bs.splice offset.toNat view.length view.bytes
  | .text s => do
    check offset s.toList.length
    throw (.refused .type (.bytes v))
  | .list vs | .tuple vs => do
    check offset vs.length
    write offset (← MonadExcept.ofExcept (vs.mapM byteOf))
  | .dict entries => do
    check offset entries.length
    write offset (← MonadExcept.ofExcept (entries.mapM fun entry => byteOf entry.1))
  | v => throw (.refused .type (.bytes v))

def fill (offset stop : Int) (value : Int) : Edit Unit := do
  if offset < stop then
    let size := (stop - offset).toNat
    check offset size
    let b ← MonadExcept.ofExcept (byte value)
    write offset (List.replicate size b)

def get (bs : Bytes) (position : Int) : Except Fault UInt8 :=
  match bs.at? position with
  | some b => .ok b
  | none => .error (.refused .index (.item position))

def find (bs : Bytes) (value start stop : Int) : Except Fault (Option Nat) := do
  let b ← byte value
  return bs.find? b start stop

def readSlice (bs : Bytes) (offset size : Int) : Bytes := bs.slice offset (offset + size)

end Storage
end BinaryRecord
