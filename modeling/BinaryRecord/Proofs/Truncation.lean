import BinaryRecord.Proofs.TextFields

/-!
What is left of a text that is longer than its field. The field cuts bytes, and the text that is read
from what it keeps is a longest front of the characters, with one replacement where a character was
cut.
-/
namespace BinaryRecord

open Storage Bytes

namespace Utf8

/-- The longest front of some characters whose bytes fit in a number of bytes. -/
structure LongestFront (room : Nat) (cs front : List Char) : Prop where
  begins : front <+: cs
  fits : (encodeChars front).length ≤ room
  longest : ∀ other, other <+: cs → (encodeChars other).length ≤ room → other <+: front

/-- What room for a number of bytes leaves of some characters: all, or the longest front that fits and
one replacement for the bytes behind it, if there is room for any. -/
def Leaves (room : Nat) (cs left : List Char) : Prop :=
  if (encodeChars cs).length ≤ room then left = cs
  else ∃ front, LongestFront room cs front ∧
    left = front ++ if (encodeChars front).length < room then [replacement] else []

def cut : Nat → List Char → List Char
  | _, [] => []
  | room, c :: cs =>
    if (encodeChar c).length ≤ room then c :: cut (room - (encodeChar c).length) cs
    else if room = 0 then [] else [replacement]

theorem length_encodeChars_cons (c : Char) (cs : List Char) :
    (encodeChars (c :: cs)).length = (encodeChar c).length + (encodeChars cs).length := by
  rw [encodeChars_cons, List.length_append]

namespace LongestFront

variable {room : Nat} {c : Char} {cs front : List Char}

theorem nil (short : room < (encodeChar c).length) : LongestFront room (c :: cs) [] := by
  refine ⟨List.nil_prefix, Nat.zero_le room, ?_⟩
  intro other begins fits
  cases other with
  | nil => exact List.nil_prefix
  | cons d other =>
    obtain ⟨rfl, _⟩ := List.cons_prefix_cons.mp begins
    rw [length_encodeChars_cons] at fits
    omega

theorem cons (enough : (encodeChar c).length ≤ room)
    (known : LongestFront (room - (encodeChar c).length) cs front) :
    LongestFront room (c :: cs) (c :: front) := by
  refine ⟨List.cons_prefix_cons.mpr ⟨rfl, known.begins⟩, ?_, ?_⟩
  · have := known.fits
    rw [length_encodeChars_cons]
    omega
  · intro other begins fits
    cases other with
    | nil => exact List.nil_prefix
    | cons d other =>
      obtain ⟨rfl, rest⟩ := List.cons_prefix_cons.mp begins
      rw [length_encodeChars_cons] at fits
      exact List.cons_prefix_cons.mpr ⟨rfl, known.longest other rest (by omega)⟩

end LongestFront

theorem decodeChars_take (room : Nat) (cs : List Char) :
    decodeChars ((encodeChars cs).take room) = cut room cs := by
  unfold decodeChars
  induction cs generalizing room with
  | nil => simp [encodeChars, cut, decodeFrom]
  | cons c cs ih =>
    rw [encodeChars_cons, List.take_append, cut]
    by_cases whole : (encodeChar c).length ≤ room
    · rw [if_pos whole, List.take_of_length_le whole, decodeFrom_encodeChar, ih]
    · have behind : room - (encodeChar c).length = 0 := by omega
      rw [if_neg whole, behind, List.take_zero, List.append_nil]
      by_cases none : room = 0
      · rw [if_pos none, none, List.take_zero]
        rfl
      · rw [if_neg none, decodeFrom_encodeChar_take c (by omega) (by omega)]

theorem leaves_cut (room : Nat) (cs : List Char) : Leaves room cs (cut room cs) := by
  induction cs generalizing room with
  | nil => simp [Leaves, encodeChars, cut]
  | cons c cs ih =>
    unfold Leaves
    rw [length_encodeChars_cons, cut]
    by_cases enough : (encodeChar c).length ≤ room
    · have rest := ih (room - (encodeChar c).length)
      unfold Leaves at rest
      rw [if_pos enough]
      by_cases whole : (encodeChars cs).length ≤ room - (encodeChar c).length
      · rw [if_pos whole] at rest
        rw [if_pos (by omega), rest]
      · rw [if_neg whole] at rest
        obtain ⟨front, longest, left⟩ := rest
        have shorter : (encodeChars front).length < room - (encodeChar c).length ↔
            (encodeChars (c :: front)).length < room := by
          rw [length_encodeChars_cons]
          omega
        rw [if_neg (by omega), left]
        simp only [shorter]
        exact ⟨c :: front, longest.cons enough, rfl⟩
    · rw [if_neg enough, if_neg (by omega)]
      refine ⟨[], LongestFront.nil (Nat.not_le.mp enough), ?_⟩
      cases room <;> rfl

theorem mem_cut {room : Nat} {cs : List Char} {c : Char} (member : c ∈ cut room cs) :
    c ∈ cs ∨ c = replacement := by
  induction cs generalizing room with
  | nil => cases member
  | cons d cs ih =>
    rw [cut] at member
    split at member
    · rcases List.mem_cons.mp member with rfl | later
      · exact Or.inl List.mem_cons_self
      · exact (ih later).imp_left (List.mem_cons_of_mem d)
    · split at member
      · cases member
      · exact Or.inr (List.mem_singleton.mp member)

/-- What was cut once stays as it is: a replacement that is cut is replaced by itself. -/
theorem cut_cut (room : Nat) (cs : List Char) : cut room (cut room cs) = cut room cs := by
  induction cs generalizing room with
  | nil => rfl
  | cons c cs ih =>
    rw [cut]
    by_cases enough : (encodeChar c).length ≤ room
    · rw [if_pos enough, cut, if_pos enough, ih]
    · rw [if_neg enough]
      cases room with
      | zero => rfl
      | succ room => simp [cut]

theorem decode_take (room : Nat) (cs : List Char) :
    decode ((encodeChars cs).take room) = String.ofList (cut room cs) := by
  rw [decode, decodeChars_take]

end Utf8

namespace PlainText

variable {bs : Bytes} {offset : Int} {length : Nat}

def beforeNul (s : String) : List Char := s.toList.takeWhile (· != '\x00')

theorem beforeNul_cut (room : Nat) (s : String) :
    beforeNul (String.ofList (Utf8.cut room (beforeNul s))) = Utf8.cut room (beforeNul s) := by
  rw [beforeNul, String.toList_ofList, List.takeWhile_eq_self_iff]
  intro c member
  rcases Utf8.mem_cut member with kept | rfl
  · exact List.mem_takeWhile_imp (p := (· != '\x00')) kept
  · decide

theorem read_text (s : String) (inside : Inside bs offset length) :
    ∃ after, write (.text s) offset length bs = .ok () after ∧
      read after offset length = String.ofList (Utf8.cut length (beforeNul s)) := by
  have taken : (Value.text s).rawText = .ok (Utf8.encode s) := rfl
  refine ⟨_, write_inside taken inside, ?_⟩
  rw [read_written inside, decode_encode, Utf8.encode, Utf8.takeWhile_encodeChars,
    Utf8.decode_take]
  rfl

theorem read_again (s : String) (inside : Inside bs offset length) :
    ∃ after, write (.text (String.ofList (Utf8.cut length (beforeNul s)))) offset length bs =
        .ok () after ∧
      read after offset length = String.ofList (Utf8.cut length (beforeNul s)) := by
  obtain ⟨after, written, again⟩ :=
    read_text (String.ofList (Utf8.cut length (beforeNul s))) inside
  rw [beforeNul_cut, Utf8.cut_cut] at again
  exact ⟨after, written, again⟩

end PlainText

namespace CountedText

variable {bs : Bytes} {offset : Int} {length : Nat}

theorem read_text (s : String) (positive : 1 ≤ length) (inside : Inside bs offset length) :
    ∃ after, write false (.text s) offset length bs = .ok () after ∧ ∀ strict,
      read strict after offset length = .ok (String.ofList (Utf8.cut (room length) s.toList)) := by
  have taken : (Value.text s).rawText = .ok (Utf8.encode s) := rfl
  refine ⟨_, write_inside taken positive inside nofun, ?_⟩
  intro strict
  rw [read_written positive inside, Utf8.encode, Utf8.decode_take]

theorem read_again (s : String) (positive : 1 ≤ length) (inside : Inside bs offset length) :
    ∃ after, write false (.text (String.ofList (Utf8.cut (room length) s.toList))) offset length bs =
        .ok () after ∧
      ∀ strict, read strict after offset length =
        .ok (String.ofList (Utf8.cut (room length) s.toList)) := by
  obtain ⟨after, written, again⟩ :=
    read_text (String.ofList (Utf8.cut (room length) s.toList)) positive inside
  rw [String.toList_ofList, Utf8.cut_cut] at again
  exact ⟨after, written, again⟩

end CountedText

/-- What is left of a text, read back from a field of either kind, is as much of it as the field has
room for; a plain field ends it at its first U+0000 too. Written again, it stays as it is. -/
theorem text_left (s : String) (length : Nat) {bs : Bytes} {offset : Int}
    (inside : Inside bs offset length) :
    (∃ after left, PlainText.write (.text s) offset length bs = .ok () after ∧
      PlainText.read after offset length = left ∧
      Utf8.Leaves length (s.toList.takeWhile (· != '\x00')) left.toList ∧
      ∀ other place, Inside other place length → ∃ again,
        PlainText.write (.text left) place length other = .ok () again ∧
        PlainText.read again place length = left) ∧
    (1 ≤ length → ∃ after left, CountedText.write false (.text s) offset length bs = .ok () after ∧
      (∀ strict, CountedText.read strict after offset length = .ok left) ∧
      Utf8.Leaves (min (length - 1) 255) s.toList left.toList ∧
      ∀ other place, Inside other place length → ∃ again,
        CountedText.write false (.text left) place length other = .ok () again ∧
        ∀ strict, CountedText.read strict again place length = .ok left) := by
  constructor
  · obtain ⟨after, written, left⟩ := PlainText.read_text s inside
    refine ⟨after, _, written, left, ?_, fun other place => PlainText.read_again s⟩
    rw [String.toList_ofList]
    exact Utf8.leaves_cut length (PlainText.beforeNul s)
  · intro positive
    obtain ⟨after, written, left⟩ := CountedText.read_text s positive inside
    refine ⟨after, _, written, left, ?_, fun other place => CountedText.read_again s positive⟩
    rw [String.toList_ofList]
    exact Utf8.leaves_cut (CountedText.room length) s.toList

/-- Four bytes keep the first of two characters of three bytes, and one byte of the second, which is
read as a replacement. Written again, the replacement is cut and replaced as well. A counted field of
four bytes keeps the first character alone. -/
theorem text_left_cut :
    let bs : Bytes := [9, 9, 9, 9, 9, 9]
    Inside bs 1 4 ∧
      PlainText.write (.text "€€") 1 (4 : Nat) bs = .ok () [9, 0xE2, 0x82, 0xAC, 0xE2, 9] ∧
      PlainText.read [9, 0xE2, 0x82, 0xAC, 0xE2, 9] 1 (4 : Nat) = "€\uFFFD" ∧
      Utf8.Leaves 4 ("€€".toList.takeWhile (· != '\x00')) "€\uFFFD".toList ∧
      PlainText.write (.text "€\uFFFD") 1 (4 : Nat) bs = .ok () [9, 0xE2, 0x82, 0xAC, 0xEF, 9] ∧
      PlainText.read [9, 0xE2, 0x82, 0xAC, 0xEF, 9] 1 (4 : Nat) = "€\uFFFD" ∧
      CountedText.write false (.text "€€") 1 (4 : Nat) bs = .ok () [9, 3, 0xE2, 0x82, 0xAC, 9] ∧
      CountedText.read true [9, 3, 0xE2, 0x82, 0xAC, 9] 1 (4 : Nat) = .ok "€" ∧
      Utf8.Leaves 3 "€€".toList "€".toList := by
  intro bs
  have inside : Inside bs 1 4 := by decide
  have first : PlainText.write (.text "€€") 1 (4 : Nat) bs =
      .ok () [9, 0xE2, 0x82, 0xAC, 0xE2, 9] := rfl
  have second : PlainText.write (.text "€\uFFFD") 1 (4 : Nat) bs =
      .ok () [9, 0xE2, 0x82, 0xAC, 0xEF, 9] := rfl
  have read : PlainText.read [9, 0xE2, 0x82, 0xAC, 0xE2, 9] 1 (4 : Nat) = "€\uFFFD" := rfl
  have counted : CountedText.write false (.text "€€") 1 (4 : Nat) bs =
      .ok () [9, 3, 0xE2, 0x82, 0xAC, 9] := rfl
  have kept : CountedText.read true [9, 3, 0xE2, 0x82, 0xAC, 9] 1 (4 : Nat) = .ok "€" := rfl
  obtain ⟨⟨after, left, written, same, leaves, again⟩, cut⟩ := text_left "€€" 4 inside
  rw [first] at written
  cases written
  rw [read] at same
  subst same
  obtain ⟨after, written, same⟩ := again bs 1 inside
  rw [second] at written
  cases written
  obtain ⟨after, left, written, reads, whole, _⟩ := cut (by decide)
  rw [counted] at written
  cases written
  cases kept.symm.trans (reads true)
  exact ⟨inside, first, read, leaves, second, same, counted, kept, whole⟩

end BinaryRecord
