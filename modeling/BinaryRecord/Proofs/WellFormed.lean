import BinaryRecord.Codec.Text
import BinaryRecord.Proofs.Utf8

/-!
Well-formed UTF-8, said without the decoder. Decoding keeps exactly the well-formed bytes: all
others leave a replacement, and no bytes become more characters than they are.
-/
namespace BinaryRecord.Utf8

abbrev Continues (b : UInt8) : Prop := 0x80 ≤ b.toNat ∧ b.toNat < 0xC0

/-- A sequence of bytes and the number that it spells. A number has one sequence, the shortest, and
neither a surrogate nor a number above U+10FFFF has any. -/
inductive Spells : Bytes → Nat → Prop
  | one {a : UInt8} {n : Nat} (ascii : a.toNat < 0x80) (number : n = a.toNat) : Spells [a] n
  | two {a b : UInt8} {n : Nat} (lead : 0xC0 ≤ a.toNat ∧ a.toNat < 0xE0) (second : Continues b)
      (number : n = (a.toNat - 0xC0) * 64 + (b.toNat - 0x80)) (shortest : 0x80 ≤ n) :
      Spells [a, b] n
  | three {a b c : UInt8} {n : Nat} (lead : 0xE0 ≤ a.toNat ∧ a.toNat < 0xF0) (second : Continues b)
      (third : Continues c)
      (number : n = ((a.toNat - 0xE0) * 64 + (b.toNat - 0x80)) * 64 + (c.toNat - 0x80))
      (shortest : 0x800 ≤ n) (scalar : ¬ (0xD800 ≤ n ∧ n ≤ 0xDFFF)) : Spells [a, b, c] n
  | four {a b c d : UInt8} {n : Nat} (lead : 0xF0 ≤ a.toNat ∧ a.toNat < 0xF8) (second : Continues b)
      (third : Continues c) (fourth : Continues d)
      (number : n = (((a.toNat - 0xF0) * 64 + (b.toNat - 0x80)) * 64 + (c.toNat - 0x80)) * 64 +
        (d.toNat - 0x80))
      (shortest : 0x10000 ≤ n) (scalar : n ≤ 0x10FFFF) : Spells [a, b, c, d] n

inductive Valid : Bytes → Prop
  | nil : Valid []
  | cons {sequence rest : Bytes} {n : Nat} (spells : Spells sequence n) (valid : Valid rest) :
      Valid (sequence ++ rest)

theorem spells_encodeChar (c : Char) : Spells (encodeChar c) c.toNat := by
  have valid := toNat_char_range c
  have byte : ∀ m, m < 256 → (UInt8.ofNat m).toNat = m := by
    intro m small
    rw [UInt8.toNat_ofNat', Nat.mod_eq_of_lt small]
  have continues : ∀ m, Continues (UInt8.ofNat (0x80 + m % 64)) := by
    intro m
    unfold Continues
    rw [byte _ (by omega)]
    omega
  unfold encodeChar
  generalize c.toNat = n at valid
  dsimp only
  by_cases one : n < 0x80
  · rw [if_pos one]
    refine .one ?_ ?_ <;> rw [byte n (by omega)]
    exact one
  rw [if_neg one]
  by_cases two : n < 0x800
  · rw [if_pos two]
    refine .two ?_ (continues _) ?_ (by omega)
    · rw [byte _ (by omega)]
      omega
    · rw [byte _ (by omega), byte _ (by omega)]
      omega
  rw [if_neg two]
  by_cases three : n < 0x10000
  · rw [if_pos three]
    refine .three ?_ (continues _) (continues _) ?_ (by omega) (by omega)
    · rw [byte _ (by omega)]
      omega
    · rw [byte _ (by omega), byte _ (by omega), byte _ (by omega)]
      omega
  · rw [if_neg three]
    refine .four ?_ (continues _) (continues _) (continues _) ?_ (by omega) (by omega)
    · rw [byte _ (by omega)]
      omega
    · rw [byte _ (by omega), byte _ (by omega), byte _ (by omega), byte _ (by omega)]
      omega

namespace Spells

variable {sequence other : Bytes} {n : Nat}

theorem unique (first : Spells sequence n) (second : Spells other n) : sequence = other := by
  cases first <;> cases second <;>
    simp only [List.cons.injEq, reduceCtorEq, and_true, and_false, ← UInt8.toNat_inj] <;> omega

theorem scalar (spells : Spells sequence n) : n < 0xD800 ∨ (0xDFFF < n ∧ n < 0x110000) := by
  cases spells <;> omega

theorem toNat_ofNat (spells : Spells sequence n) : (Char.ofNat n).toNat = n := by
  have valid : n.isValidChar := spells.scalar
  rw [Char.ofNat, dif_pos valid]
  rfl

theorem encodeChar_eq (spells : Spells sequence n) : encodeChar (Char.ofNat n) = sequence := by
  have own := spells_encodeChar (Char.ofNat n)
  rw [spells.toNat_ofNat] at own
  exact own.unique spells

end Spells

theorem valid_iff_wellFormed (raw : Bytes) : Valid raw ↔ WellFormed raw := by
  constructor
  · intro valid
    induction valid with
    | nil => exact ⟨[], rfl⟩
    | @cons sequence rest n spells valid ih =>
      obtain ⟨cs, rfl⟩ := ih
      exact ⟨Char.ofNat n :: cs, by rw [encodeChars_cons, spells.encodeChar_eq]⟩
  · rintro ⟨cs, rfl⟩
    induction cs with
    | nil => exact .nil
    | cons c cs ih =>
      rw [encodeChars_cons]
      exact .cons (spells_encodeChar c) ih

namespace Finishes

variable {owed least greatest payload n : Nat} {bs : Bytes}

theorem one_owed (finishes : Finishes ⟨1, least, greatest, payload⟩ bs n) :
    ∃ b : UInt8, bs = [b] ∧ least ≤ b.toNat ∧ b.toNat ≤ greatest ∧
      n = payload * 64 + b.toNat % 64 := by
  cases finishes with
  | @last _ b _ low high => exact ⟨b, rfl, low, high, rfl⟩
  | next owing => exact absurd owing (Nat.lt_irrefl 1)

theorem more_owed (finishes : Finishes ⟨owed + 2, least, greatest, payload⟩ bs n) :
    ∃ (b : UInt8) (rest : Bytes), bs = b :: rest ∧ least ≤ b.toNat ∧ b.toNat ≤ greatest ∧
      Finishes ⟨owed + 1, 0x80, 0xBF, payload * 64 + b.toNat % 64⟩ rest n := by
  cases finishes with
  | last owing => exact absurd owing (by simp)
  | @next _ b rest _ _ low high finishes => exact ⟨b, rest, rfl, low, high, finishes⟩

end Finishes

theorem spells_of_finishes {a : UInt8} {u : Unfinished} {rest : Bytes} {n : Nat}
    (lead : lead? a.toNat = some u) (finishes : Finishes u rest n) : Spells (a :: rest) n := by
  unfold lead? at lead
  split at lead
  · cases lead
  split at lead
  · cases lead
    obtain ⟨b, rfl, low, high, rfl⟩ := finishes.one_owed
    exact .two (by omega) (by omega) (by omega) (by omega)
  split at lead
  · cases lead
    obtain ⟨b, _, rfl, low, high, finishes⟩ := finishes.more_owed
    obtain ⟨c, rfl, low', high', rfl⟩ := finishes.one_owed
    -- Which second bytes there are depends on the first byte.
    split at low <;> split at high <;>
      exact .three (by omega) (by omega) (by omega) (by omega) (by omega) (by omega)
  split at lead
  · cases lead
    obtain ⟨b, _, rfl, low, high, finishes⟩ := finishes.more_owed
    obtain ⟨c, _, rfl, low', high', finishes⟩ := finishes.more_owed
    obtain ⟨d, rfl, low'', high'', rfl⟩ := finishes.one_owed
    split at low <;> split at high <;>
      exact .four (by omega) (by omega) (by omega) (by omega) (by omega) (by omega) (by omega)
  · cases lead

theorem owed_of_lead {n : Nat} {u : Unfinished} (lead : lead? n = some u) : 1 ≤ u.owed := by
  unfold lead? at lead
  repeat' split at lead
  all_goals cases lead
  all_goals simp

/-- Unless a replacement is read, the character that was begun is finished. -/
theorem finishes_of_intact {u : Unfinished} {bs : Bytes} (owed : 1 ≤ u.owed)
    (intact : replacement ∉ decodeFrom (some u) bs) :
    ∃ rest more n, bs = rest ++ more ∧ Finishes u rest n := by
  induction bs generalizing u with
  | nil => exact absurd List.mem_cons_self intact
  | cons b bs ih =>
    rw [decodeFrom_cons, step] at intact
    by_cases within : u.least ≤ b.toNat ∧ b.toNat ≤ u.greatest
    · rw [if_pos within] at intact
      by_cases last : u.owed ≤ 1
      · exact ⟨[b], bs, _, rfl, .last (by omega) within.1 within.2⟩
      · dsimp only at intact
        rw [if_neg last] at intact
        obtain ⟨rest, more, n, rfl, finishes⟩ := ih (by dsimp only; omega) intact
        exact ⟨b :: rest, more, n, rfl, .next (by omega) within.1 within.2 finishes⟩
    · rw [if_neg within] at intact
      exact absurd List.mem_cons_self intact

theorem valid_of_intact {raw : Bytes} (intact : replacement ∉ decodeFrom none raw) : Valid raw := by
  induction size : raw.length using Nat.strongRecOn generalizing raw with
  | ind k ih =>
    cases raw with
    | nil => exact .nil
    | cons b bs =>
      rw [List.length_cons] at size
      rw [decodeFrom_cons, step, first] at intact
      by_cases ascii : b.toNat < 0x80
      · rw [if_pos ascii, List.mem_append, not_or] at intact
        exact .cons (.one ascii rfl) (ih bs.length (by omega) intact.2 rfl)
      · rw [if_neg ascii] at intact
        cases lead : lead? b.toNat with
        | none =>
          rw [lead] at intact
          exact absurd List.mem_cons_self intact
        | some u =>
          rw [lead] at intact
          obtain ⟨rest, more, n, rfl, finishes⟩ := finishes_of_intact (owed_of_lead lead) intact
          rw [List.length_append] at size
          rw [finishes.decode, List.nil_append, List.mem_cons, not_or] at intact
          exact .cons (spells_of_finishes lead finishes) (ih more.length (by omega) intact.2 rfl)

theorem length_step (state : Option Unfinished) (b : UInt8) :
    (step state b).1.length + (step state b).2.toList.length ≤ state.toList.length + 1 := by
  have fresh : (first b).1.length + (first b).2.toList.length ≤ 1 := by
    unfold first
    split
    · simp
    · split <;> simp
  cases state with
  | none => simpa [step] using fresh
  | some u =>
    unfold step
    dsimp only
    split
    · split <;> simp
    · simp only [List.length_cons, Option.toList_some, List.length_nil]
      omega

theorem length_decodeFrom (state : Option Unfinished) (bs : Bytes) :
    (decodeFrom state bs).length ≤ state.toList.length + bs.length := by
  induction bs generalizing state with
  | nil => cases state <;> simp [decodeFrom]
  | cons b bs ih =>
    have now := length_step state b
    have later := ih (step state b).2
    rw [decodeFrom_cons, List.length_append, List.length_cons]
    omega

/-- Decoding takes a text off the front of its bytes, keeps well-formed bytes and no others, which
it marks by a replacement, and makes no more characters than there are bytes. -/
theorem text_conversion (s : String) (raw tail : Bytes) :
    ((Value.text s).rawText = .ok (encode s) ∧ decode (encode s ++ tail) = s ++ decode tail ∧
      decode (encode s) = s) ∧
    (encode (decode raw) = raw ↔ Valid raw) ∧
    (¬ Valid raw → replacement ∈ (decode raw).toList) ∧
    (decode raw).length ≤ raw.length := by
  refine ⟨⟨rfl, ?_, decode_encode s⟩, ⟨?_, ?_⟩, ?_, ?_⟩
  · rw [decode, decodeChars, encode, decodeFrom_encodeChars, String.ofList_append,
      String.ofList_toList]
    rfl
  · intro same
    exact (valid_iff_wellFormed raw).mpr ⟨_, same⟩
  · intro valid
    exact encode_decode ((valid_iff_wellFormed raw).mp valid)
  · intro ill
    rw [decode, String.toList_ofList]
    by_contra intact
    exact ill (valid_of_intact intact)
  · have bound := length_decodeFrom none raw
    rw [decode, String.length_ofList]
    simpa [decodeChars] using bound

/-- The three bytes that a surrogate would have are no character, and each of them is replaced. -/
theorem text_conversion_surrogate :
    decode (encode "é" ++ [0xED, 0xA0, 0x80]) = "é" ++ decode [0xED, 0xA0, 0x80] ∧
      decode [0xED, 0xA0, 0x80] = "\uFFFD\uFFFD\uFFFD" ∧ ¬ Valid [0xED, 0xA0, 0x80] ∧
      replacement ∈ (decode [0xED, 0xA0, 0x80]).toList := by
  obtain ⟨⟨_, front, _⟩, kept, marked, _⟩ :=
    text_conversion "é" [0xED, 0xA0, 0x80] [0xED, 0xA0, 0x80]
  have decoded : decode [0xED, 0xA0, 0x80] = "\uFFFD\uFFFD\uFFFD" := rfl
  have ill : ¬ Valid [0xED, 0xA0, 0x80] := by
    rw [← kept, decoded]
    decide
  exact ⟨front, decoded, ill, marked ill⟩

end BinaryRecord.Utf8
