import BinaryRecord.Text.Utf8
import Mathlib.Data.List.TakeWhile

/-!
Decoding undoes encoding, whatever follows: a character is read back from its own bytes, and the
state of the decoder is the initial one again after them. Where they end too early, what there is of
them is read as one replacement.
-/
namespace BinaryRecord.Utf8

theorem decodeFrom_cons (state : Option Unfinished) (b : UInt8) (bs : Bytes) :
    decodeFrom state (b :: bs) = (step state b).1 ++ decodeFrom (step state b).2 bs := by
  cases state <;> rfl

def continuation (d : Nat) : UInt8 := UInt8.ofNat (0x80 + d % 64)

theorem toNat_continuation (d : Nat) : (continuation d).toNat = 0x80 + d % 64 := by
  rw [continuation, UInt8.toNat_ofNat']
  omega

/-- The bytes that a character still needs after its first ones, and the number they make of it. -/
inductive Finishes : Unfinished → Bytes → Nat → Prop
  | last {u : Unfinished} {b : UInt8} (owed : u.owed = 1) (low : u.least ≤ b.toNat)
      (high : b.toNat ≤ u.greatest) : Finishes u [b] (u.payload * 64 + b.toNat % 64)
  | next {u : Unfinished} {b : UInt8} {bs : Bytes} {n : Nat} (owed : 1 < u.owed)
      (low : u.least ≤ b.toNat) (high : b.toNat ≤ u.greatest)
      (rest : Finishes ⟨u.owed - 1, 0x80, 0xBF, u.payload * 64 + b.toNat % 64⟩ bs n) :
      Finishes u (b :: bs) n

namespace Finishes

variable {u : Unfinished} {bs : Bytes} {n : Nat}

theorem decode (finishes : Finishes u bs n) (more : Bytes) :
    decodeFrom (some u) (bs ++ more) = Char.ofNat n :: decodeFrom none more := by
  induction finishes with
  | last owed low high => simp [decodeFrom_cons, step, owed, low, high]
  | next owed low high rest ih =>
    have owing : ¬ _ ≤ 1 := Nat.not_le.mpr owed
    simp [decodeFrom_cons, step, low, high, owing, ih]

theorem decode_take (finishes : Finishes u bs n) {k : Nat} (short : k < bs.length) :
    decodeFrom (some u) (bs.take k) = [replacement] := by
  induction finishes generalizing k with
  | last owed low high =>
    have early : k = 0 := by simpa using short
    simp [early, decodeFrom]
  | next owed low high rest ih =>
    cases k with
    | zero => simp [decodeFrom]
    | succ k =>
      have owing : ¬ _ ≤ 1 := Nat.not_le.mpr owed
      have later := ih (Nat.lt_of_succ_lt_succ short)
      simp [decodeFrom_cons, step, low, high, owing, later]

section Continuations

variable {owed least greatest payload d : Nat}

theorem of_last {n : Nat} (low : least ≤ 0x80 + d % 64) (high : 0x80 + d % 64 ≤ greatest)
    (whole : payload * 64 + d % 64 = n) :
    Finishes ⟨1, least, greatest, payload⟩ [continuation d] n := by
  have bits : (0x80 + d % 64) % 64 = d % 64 := by omega
  rw [← toNat_continuation] at low high
  have finishes := Finishes.last (u := ⟨1, least, greatest, payload⟩) rfl low high
  rwa [toNat_continuation, bits, whole] at finishes

theorem of_next {bs : Bytes} {n : Nat} (low : least ≤ 0x80 + d % 64)
    (high : 0x80 + d % 64 ≤ greatest)
    (rest : Finishes ⟨owed + 1, 0x80, 0xBF, payload * 64 + d % 64⟩ bs n) :
    Finishes ⟨owed + 2, least, greatest, payload⟩ (continuation d :: bs) n := by
  have bits : (0x80 + d % 64) % 64 = d % 64 := by omega
  have owing : 1 < owed + 2 := by omega
  rw [← bits, ← toNat_continuation] at rest
  rw [← toNat_continuation] at low high
  exact Finishes.next owing low high rest

end Continuations

end Finishes

theorem toNat_char_range (c : Char) :
    c.toNat < 0xD800 ∨ (0xDFFF < c.toNat ∧ c.toNat < 0x110000) := c.valid

theorem lead_two {n : Nat} (low : 0x80 ≤ n) (high : n < 0x800) :
    lead? (0xC0 + n / 64) = some ⟨1, 0x80, 0xBF, n / 64⟩ := by
  rw [lead?, if_neg (by omega), if_pos (by omega), Nat.add_sub_cancel_left]

theorem lead_three {n : Nat} (low : 0x800 ≤ n) (high : n < 0x10000) :
    lead? (0xE0 + n / 4096) = some ⟨2, if 0xE0 + n / 4096 = 0xE0 then 0xA0 else 0x80,
      if 0xE0 + n / 4096 = 0xED then 0x9F else 0xBF, n / 4096⟩ := by
  rw [lead?, if_neg (by omega), if_neg (by omega), if_pos (by omega), Nat.add_sub_cancel_left]

theorem lead_four {n : Nat} (low : 0x10000 ≤ n) (high : n < 0x110000) :
    lead? (0xF0 + n / 262144) = some ⟨3, if 0xF0 + n / 262144 = 0xF0 then 0x90 else 0x80,
      if 0xF0 + n / 262144 = 0xF4 then 0x8F else 0xBF, n / 262144⟩ := by
  rw [lead?, if_neg (by omega), if_neg (by omega), if_neg (by omega), if_pos (by omega),
    Nat.add_sub_cancel_left]

/-- A character has one byte that is its number, or a first byte that announces more and these. -/
theorem encodeChar_shape (c : Char) :
    (∃ b : UInt8, encodeChar c = [b] ∧ b.toNat = c.toNat ∧ b.toNat < 0x80) ∨
      ∃ b u rest, encodeChar c = b :: rest ∧ ¬ b.toNat < 0x80 ∧ lead? b.toNat = some u ∧
        Finishes u rest c.toNat := by
  have valid := toNat_char_range c
  have byte : ∀ m, m < 256 → (UInt8.ofNat m).toNat = m := by
    intro m small
    rw [UInt8.toNat_ofNat', Nat.mod_eq_of_lt small]
  unfold encodeChar
  generalize c.toNat = n at valid
  by_cases one : n < 0x80
  · have first := byte n (by omega)
    exact Or.inl ⟨UInt8.ofNat n, if_pos one, first, by omega⟩
  right
  by_cases two : n < 0x800
  · have first := byte (0xC0 + n / 64) (by omega)
    have lead := (congrArg lead? first).trans (lead_two (by omega) two)
    refine ⟨UInt8.ofNat (0xC0 + n / 64), _, [continuation (n / 1)], ?_, by omega, lead, ?_⟩
    · simp only [one, two, if_true, if_false]
      rfl
    · exact .of_last (by omega) (by omega) (by omega)
  by_cases three : n < 0x10000
  · have first := byte (0xE0 + n / 4096) (by omega)
    have lead := (congrArg lead? first).trans (lead_three (by omega) three)
    refine ⟨UInt8.ofNat (0xE0 + n / 4096), _, [continuation (n / 64), continuation (n / 1)], ?_,
      by omega, lead, ?_⟩
    · simp only [one, two, three, if_true, if_false]
      rfl
    · refine .of_next ?_ ?_ (.of_last (by omega) (by omega) (by omega)) <;> split <;> omega
  · have first := byte (0xF0 + n / 262144) (by omega)
    have lead := (congrArg lead? first).trans (lead_four (by omega) (by omega))
    refine ⟨UInt8.ofNat (0xF0 + n / 262144), _,
      [continuation (n / 4096), continuation (n / 64), continuation (n / 1)], ?_, by omega, lead, ?_⟩
    · simp only [one, two, three, if_false]
      rfl
    · refine .of_next ?_ ?_ (.of_next (by omega) (by omega)
        (.of_last (by omega) (by omega) (by omega))) <;> split <;> omega

theorem decodeFrom_encodeChar (c : Char) (bs : Bytes) :
    decodeFrom none (encodeChar c ++ bs) = c :: decodeFrom none bs := by
  have whole := Char.ofNat_toNat c
  rcases encodeChar_shape c with ⟨b, bytes, number, small⟩ | ⟨b, u, rest, bytes, big, lead, finishes⟩
  · rw [← number] at whole
    simp [bytes, decodeFrom_cons, step, first, small, whole]
  · simp [bytes, decodeFrom_cons, step, first, big, lead, finishes.decode, whole]

/-- The bytes of a character that is cut are read as one replacement. -/
theorem decodeFrom_encodeChar_take (c : Char) {k : Nat} (begun : 0 < k)
    (short : k < (encodeChar c).length) :
    decodeFrom none ((encodeChar c).take k) = [replacement] := by
  obtain ⟨k, rfl⟩ := Nat.exists_eq_add_of_le' begun
  rcases encodeChar_shape c with ⟨b, bytes, _⟩ | ⟨b, u, rest, bytes, big, lead, finishes⟩
  · rw [bytes] at short
    simp at short
  · rw [bytes, List.length_cons] at short
    have cut := finishes.decode_take (Nat.lt_of_succ_lt_succ short)
    simp [bytes, decodeFrom_cons, step, first, big, lead, cut]

theorem encodeChars_cons (c : Char) (cs : List Char) :
    encodeChars (c :: cs) = encodeChar c ++ encodeChars cs := List.flatMap_cons

theorem decodeFrom_encodeChars (cs : List Char) (bs : Bytes) :
    decodeFrom none (encodeChars cs ++ bs) = cs ++ decodeFrom none bs := by
  induction cs with
  | nil => rfl
  | cons c cs ih =>
    rw [encodeChars_cons, List.append_assoc, decodeFrom_encodeChar, ih, List.cons_append]

theorem decodeChars_encodeChars (cs : List Char) : decodeChars (encodeChars cs) = cs := by
  have all := decodeFrom_encodeChars cs []
  simpa [decodeChars, decodeFrom] using all

theorem decode_encode (s : String) : decode (encode s) = s := by
  rw [decode, encode, decodeChars_encodeChars, String.ofList_toList]

theorem encode_decode {bs : Bytes} (wellFormed : WellFormed bs) : encode (decode bs) = bs := by
  obtain ⟨cs, rfl⟩ := wellFormed
  rw [encode, decode, decodeChars_encodeChars, String.toList_ofList]

theorem mem_encodeChar {c : Char} {b : UInt8} (member : b ∈ encodeChar c) :
    b.toNat = c.toNat ∨ 0x80 ≤ b.toNat := by
  have valid := toNat_char_range c
  unfold encodeChar at member
  generalize c.toNat = n at member valid
  dsimp only at member
  split at member
  · simp only [List.mem_singleton] at member
    left
    rw [member, UInt8.toNat_ofNat']
    omega
  · right
    split at member
    · simp only [List.mem_cons, List.not_mem_nil, or_false] at member
      rcases member with rfl | rfl <;> rw [UInt8.toNat_ofNat'] <;> omega
    · split at member
      · simp only [List.mem_cons, List.not_mem_nil, or_false] at member
        rcases member with rfl | rfl | rfl <;> rw [UInt8.toNat_ofNat'] <;> omega
      · simp only [List.mem_cons, List.not_mem_nil, or_false] at member
        rcases member with rfl | rfl | rfl | rfl <;> rw [UInt8.toNat_ofNat'] <;> omega

theorem zero_mem_encodeChar {c : Char} (zero : 0 ∈ encodeChar c) : c = '\x00' := by
  have number : c.toNat = 0 := by
    rcases mem_encodeChar zero with low | high
    · exact low.symm
    · exact absurd high (by decide)
  rw [← Char.ofNat_toNat c, number]

theorem takeWhile_encodeChars (cs : List Char) :
    (encodeChars cs).takeWhile (· != 0) = encodeChars (cs.takeWhile (· != '\x00')) := by
  induction cs with
  | nil => rfl
  | cons c cs ih =>
    rw [encodeChars_cons]
    by_cases zero : c = '\x00'
    · subst zero
      rfl
    · have nonzero : ∀ b ∈ encodeChar c, (b != 0) = true := by
        intro b member
        simp only [bne_iff_ne, ne_eq]
        rintro rfl
        exact zero (zero_mem_encodeChar member)
      have more : (c != '\x00') = true := by simpa using zero
      rw [List.takeWhile_append_of_pos nonzero, ih, List.takeWhile_cons, if_pos more,
        encodeChars_cons]

theorem takeWhile_encode {s : String} (free : '\x00' ∉ s.toList) :
    (encode s).takeWhile (· != 0) = encode s := by
  have whole : s.toList.takeWhile (· != '\x00') = s.toList := by
    rw [List.takeWhile_eq_self_iff]
    intro c member
    simp only [bne_iff_ne, ne_eq]
    rintro rfl
    exact free member
  rw [encode, takeWhile_encodeChars, whole]

end BinaryRecord.Utf8
