import BinaryRecord.Bytes
import BinaryRecord.Text.Printable

/-!
Texts and byte strings in quotes. The quote is a single one, or a double one where the text holds
single ones only; the quote in use, the backslash and what is not printable are escaped.
-/
namespace BinaryRecord.Text

def hexDigits (width n : Nat) : List Char :=
  let digits := Nat.toDigits 16 n
  List.replicate (width - digits.length) '0' ++ digits

def numericEscape (n : Nat) : List Char :=
  if n < 0x100 then '\\' :: 'x' :: hexDigits 2 n
  else if n < 0x10000 then '\\' :: 'u' :: hexDigits 4 n
  else '\\' :: 'U' :: hexDigits 8 n

def quoteFor (cs : List Char) : Char :=
  if cs.contains '\'' && !cs.contains '"' then '"' else '\''

def escape (quote : Char) (printable : Char → Bool) (c : Char) : List Char :=
  if c == quote || c == '\\' then ['\\', c]
  else if c == '\n' then ['\\', 'n']
  else if c == '\r' then ['\\', 'r']
  else if c == '\t' then ['\\', 't']
  else if printable c then [c]
  else numericEscape c.toNat

def quotedChars (printable : Char → Bool) (cs : List Char) : List Char :=
  let quote := quoteFor cs
  quote :: (cs.flatMap (escape quote printable) ++ [quote])

def quoted (s : String) : String := String.ofList (quotedChars isPrintable s.toList)

/-- Bytes are quoted as the characters of their values, of which only ASCII ones are printable. -/
def quotedBytes (bs : Bytes) : String :=
  String.ofList ('b' :: quotedChars (fun c => 0x20 ≤ c.toNat && c.toNat < 0x7F)
    (bs.map fun b => Char.ofNat b.toNat))

end BinaryRecord.Text
