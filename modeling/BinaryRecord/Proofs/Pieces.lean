import BinaryRecord.Proofs.Fields

/-!
The characters of a format cut into pieces, each a character that is no digit after the digits
directly before it. Cutting loses nothing and is the inverse of writing pieces one after the other,
so a format can be rewritten by pieces. A walk sees the pieces whose character is a code.
-/
namespace BinaryRecord

/-- A character that is no digit, and the digits directly before it. -/
structure Piece where
  digits : List Char
  mark : Char
  deriving DecidableEq

namespace Piece

def chars (piece : Piece) : List Char := piece.digits ++ [piece.mark]

def count (piece : Piece) : Nat := Nat.ofDigitChars 10 piece.digits 0

def token? (piece : Piece) : Option (FieldType × Nat) :=
  (FieldType.ofLetter? piece.mark).map fun code => (code, piece.count)

structure Proper (piece : Piece) : Prop where
  digits : ∀ d ∈ piece.digits, d.isDigit = true
  mark : piece.mark.isDigit = false

/-- The pieces of some characters that follow digits read before. -/
def split (digits : List Char) : List Char → List Piece
  | [] => []
  | c :: cs => if c.isDigit then split (digits ++ [c]) cs else ⟨digits, c⟩ :: split [] cs

def trailing (digits : List Char) : List Char → List Char
  | [] => digits
  | c :: cs => if c.isDigit then trailing (digits ++ [c]) cs else trailing [] cs

theorem digits_append {digits : List Char} (all : ∀ d ∈ digits, d.isDigit = true) {c : Char}
    (digit : c.isDigit = true) : ∀ d ∈ digits ++ [c], d.isDigit = true := by
  intro d member
  rcases List.mem_append.mp member with before | last
  · exact all d before
  · rw [List.mem_singleton.mp last]
    exact digit

theorem split_proper {digits : List Char} (all : ∀ d ∈ digits, d.isDigit = true) (cs : List Char) :
    ∀ piece ∈ split digits cs, piece.Proper := by
  induction cs generalizing digits with
  | nil => simp [split]
  | cons c cs ih =>
    rw [split]
    by_cases digit : c.isDigit
    · rw [if_pos digit]
      exact ih (digits_append all digit)
    · rw [if_neg digit]
      intro piece member
      rcases List.mem_cons.mp member with rfl | later
      · exact ⟨all, by simpa using digit⟩
      · exact ih (List.forall_mem_nil _) piece later

theorem trailing_digits {digits : List Char} (all : ∀ d ∈ digits, d.isDigit = true)
    (cs : List Char) : ∀ d ∈ trailing digits cs, d.isDigit = true := by
  induction cs generalizing digits with
  | nil => exact all
  | cons c cs ih =>
    rw [trailing]
    by_cases digit : c.isDigit
    · rw [if_pos digit]
      exact ih (digits_append all digit)
    · rw [if_neg digit]
      exact ih (List.forall_mem_nil _)

theorem split_digits {more : List Char} (all : ∀ d ∈ more, d.isDigit = true)
    (digits cs : List Char) : split digits (more ++ cs) = split (digits ++ more) cs := by
  induction more generalizing digits with
  | nil => simp
  | cons d more ih =>
    have rest := ih (fun e member => all e (List.mem_cons_of_mem d member)) (digits ++ [d])
    rw [List.cons_append, split, if_pos (all d List.mem_cons_self), rest, List.append_assoc,
      List.singleton_append]

theorem split_flatMap {pieces : List Piece} (proper : ∀ piece ∈ pieces, piece.Proper)
    (last : List Char) (all : ∀ d ∈ last, d.isDigit = true) :
    split [] (pieces.flatMap chars ++ last) = pieces := by
  induction pieces with
  | nil => rw [List.flatMap_nil, List.nil_append, ← List.append_nil last, split_digits all, split]
  | cons piece pieces ih =>
    obtain ⟨digits, mark⟩ := proper piece List.mem_cons_self
    have rest := ih fun other member => proper other (List.mem_cons_of_mem piece member)
    rw [List.flatMap_cons, chars, List.append_assoc, List.append_assoc, split_digits digits,
      List.nil_append, List.singleton_append, split, if_neg (by simp [mark]), rest]

end Piece

namespace Layout

theorem scan_split {strictness : Strictness} {cs : List Char}
    (accepted : strictness.codes = true →
      ∀ c ∈ cs, c.isDigit = true ∨ FieldType.ofLetter? c ≠ none)
    (digits : List Char) (index : Nat) :
    (scan strictness index (Nat.ofDigitChars 10 digits 0) cs).1 =
      (Piece.split digits cs).filterMap Piece.token? := by
  induction cs generalizing digits index with
  | nil => rfl
  | cons c cs ih =>
    have rest := ih fun strict d member => accepted strict d (List.mem_cons_of_mem c member)
    rw [scan, Piece.split]
    by_cases digit : c.isDigit
    · have value : Nat.ofDigitChars 10 digits 0 * 10 + (c.toNat - 48) =
          Nat.ofDigitChars 10 (digits ++ [c]) 0 := by
        rw [Nat.ofDigitChars_append, Nat.ofDigitChars_cons, Nat.ofDigitChars_nil, Nat.mul_comm]
        rfl
      rw [if_pos digit, if_pos digit, value, rest]
    · rw [if_neg digit, if_neg digit, List.filterMap_cons, Piece.token?]
      have fresh := rest [] (index + 1)
      rw [Nat.ofDigitChars_nil] at fresh
      cases letter : FieldType.ofLetter? c with
      | none =>
        have lenient : ¬ strictness.codes = true := by
          intro strict
          rcases accepted strict c List.mem_cons_self with h | h
          · exact digit h
          · exact h letter
        simp only [lenient]
        exact fresh
      | some code =>
        dsimp only [Option.map]
        rw [fresh]
        rfl

end Layout

namespace Format

def pieces (format : Format) : List Piece := Piece.split [] format.body

theorem tokens_eq {format : Format} (accepted : format.Accepted) :
    format.tokens = format.pieces.filterMap Piece.token? :=
  Layout.scan_split accepted [] _

theorem layout_pieces {format : Format} (accepted : format.Accepted) (start : Int) :
    format.layout start = ⟨Layout.place format.convention.1 start
      (format.pieces.filterMap Piece.token?), none⟩ := by
  have whole := fault_of_accepted accepted start
  rw [layout_eq] at whole
  rw [layout_eq, tokens_eq accepted]
  congr 1

end Format
end BinaryRecord
