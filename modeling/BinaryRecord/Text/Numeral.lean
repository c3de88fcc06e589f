/-!
Numbers written as text. Blanks may stand around a number, digits may come from any script, and
between two digits one underscore may stand.
-/
namespace BinaryRecord.Text

/-- The zeros of the Unicode category Nd, in order. Each is followed by its other nine digits. -/
def decimalZeros : List Nat := [
  0x30, 0x660, 0x6F0, 0x7C0, 0x966, 0x9E6, 0xA66, 0xAE6, 0xB66, 0xBE6, 0xC66, 0xCE6, 0xD66, 0xDE6,
  0xE50, 0xED0, 0xF20, 0x1040, 0x1090, 0x17E0, 0x1810, 0x1946, 0x19D0, 0x1A80, 0x1A90, 0x1B50,
  0x1BB0, 0x1C40, 0x1C50, 0xA620, 0xA8D0, 0xA900, 0xA9D0, 0xA9F0, 0xAA50, 0xABF0, 0xFF10, 0x104A0,
  0x10D30, 0x11066, 0x110F0, 0x11136, 0x111D0, 0x112F0, 0x11450, 0x114D0, 0x11650, 0x116C0,
  0x11730, 0x118E0, 0x11950, 0x11C50, 0x11D50, 0x11DA0, 0x16A60, 0x16AC0, 0x16B50, 0x1D7CE,
  0x1D7D8, 0x1D7E2, 0x1D7EC, 0x1D7F6, 0x1E140, 0x1E2F0, 0x1E950, 0x1FBF0]

def digitValue? (c : Char) : Option Nat :=
  (decimalZeros.find? fun z => z ≤ c.toNat ∧ c.toNat < z + 10).map (c.toNat - ·)

def isBlank (c : Char) : Bool :=
  let n := c.toNat
  (9 ≤ n && n ≤ 13) || n == 32 || n == 0x85 || n == 0xA0 || n == 0x1680
    || (0x2000 ≤ n && n ≤ 0x200A) || n == 0x2028 || n == 0x2029 || n == 0x202F || n == 0x205F
    || n == 0x3000

def trim (cs : List Char) : List Char :=
  ((cs.dropWhile isBlank).reverse.dropWhile isBlank).reverse

def splitSign : List Char → Bool × List Char
  | '-' :: cs => (true, cs)
  | '+' :: cs => (false, cs)
  | cs => (false, cs)

def moreDigits (value : Nat) : List Char → Option Nat
  | [] => some value
  | '_' :: c :: cs => match digitValue? c with
    | some d => moreDigits (value * 10 + d) cs
    | none => none
  | c :: cs => match digitValue? c with
    | some d => moreDigits (value * 10 + d) cs
    | none => none

def natural? : List Char → Option Nat
  | [] => none
  | c :: cs => (digitValue? c).bind fun d => moreDigits d cs

def integer? (cs : List Char) : Option Int :=
  let (negative, rest) := splitSign (trim cs)
  (natural? rest).map fun n => if negative then -(n : Int) else n

def plainDigit (c : Char) : Char :=
  match digitValue? c with
  | some d => Char.ofNat (48 + d)
  | none => c

/-- Whether each underscore stands between two digits; `before` tells whether a digit came last. -/
def underscoresApart (before : Bool) : List Char → Bool
  | [] => true
  | '_' :: c :: cs => before && c.isDigit && underscoresApart true cs
  | '_' :: [] => false
  | c :: cs => underscoresApart c.isDigit cs

def isExponent : List Char → Bool
  | [] => true
  | e :: cs =>
    let digits := (splitSign cs).2
    (e == 'e' || e == 'E') && !digits.isEmpty && digits.all Char.isDigit

/-- Whether a text writes a real number: digits around a point, an exponent, or the name of an
infinity or of NaN in any case. -/
def isReal (cs : List Char) : Bool :=
  let marked := (trim cs).map plainDigit
  let body := (splitSign (marked.filter (· != '_'))).2
  let whole := body.takeWhile Char.isDigit
  let afterWhole := body.dropWhile Char.isDigit
  let places := match afterWhole with
    | '.' :: rest => rest.takeWhile Char.isDigit
    | _ => []
  let afterPlaces := match afterWhole with
    | '.' :: rest => rest.dropWhile Char.isDigit
    | rest => rest
  underscoresApart false marked
    && (["inf", "infinity", "nan"].any (fun name => name.toList == body.map Char.toLower)
      || ((!whole.isEmpty || !places.isEmpty) && isExponent afterPlaces))

end BinaryRecord.Text
