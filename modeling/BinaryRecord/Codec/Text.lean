import BinaryRecord.Storage
import BinaryRecord.Text.Utf8

/-!
Text in a field of fixed size. A plain field is ended by its first zero byte, if any; a counted one
starts with the number of bytes that follow. What is longer than its field is cut by bytes.
-/
namespace BinaryRecord

def Value.rawText : Value → Except Fault Bytes
  | .bytes bs | .array bs => .ok bs
  | .view w => .ok w.bytes
  | .text s => .ok (Utf8.encode s)
  | v => .error (.plain (.notText v.kind))

namespace PlainText

def content (bs : Bytes) (offset length : Int) : Bytes :=
  let stop : Int := ((bs.find? 0 offset (offset + length)).map Int.ofNat).getD (offset + length)
  bs.slice offset stop

def read (bs : Bytes) (offset length : Int) : String := Utf8.decode (content bs offset length)

def write (v : Value) (offset length : Int) : Edit Unit := do
  let raw ← MonadExcept.ofExcept v.rawText
  let kept := raw.slice 0 length
  Storage.write offset kept
  Storage.fill (offset + kept.length) (offset + length) 0

end PlainText

namespace CountedText

def greatestCount : Int := 255

/-- A count byte that names more bytes than the field has is refused, or lowered to their number. -/
def content (strict : Bool) (bs : Bytes) (offset length : Int) : Except Fault Bytes := do
  let count : Int := (← Storage.get bs offset).toNat
  if count < length then return Storage.readSlice bs (offset + 1) count
  else if strict then throw (.countOverflow offset count length)
  else return Storage.readSlice bs (offset + 1) (length - 1)

def read (strict : Bool) (bs : Bytes) (offset length : Int) : Except Fault String := do
  let raw ← content strict bs offset length
  return Utf8.decode raw

def capacity (size : Nat) (length : Int) : Int := min (min size (length - 1)) greatestCount

def write (strict : Bool) (v : Value) (offset length : Int) : Edit Unit := do
  let raw ← MonadExcept.ofExcept v.rawText
  let count := capacity raw.length length
  if count < raw.length ∧ strict then throw (.countedTooLong offset raw.length length)
  let countByte ← MonadExcept.ofExcept (Storage.byte count)
  Storage.write offset [countByte]
  Storage.write (offset + 1) (raw.take count.toNat)
  Storage.fill (offset + 1 + count) (offset + length) 0

end CountedText
end BinaryRecord
