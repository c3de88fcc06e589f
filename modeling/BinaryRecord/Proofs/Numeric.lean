import BinaryRecord.Proofs.Bounds
import BinaryRecord.Proofs.Canonical

/-!
Fields of numbers, which are wider than a byte: they are read only where they lie inside, and a number
that is no NaN is read from no other bytes than its own.
-/
namespace BinaryRecord

open Storage Bytes

namespace FieldType

/-- The types of numbers, which alone are wider than a byte and not cut or filled. -/
def isNumeric : FieldType → Bool
  | truth | char | counted | text | padding => false
  | _ => true

variable {code : FieldType} {machine : Machine} {order : ByteOrder} {codec : Codec} {n : Nat}

theorem alignment_of_not_numeric {convention : Convention} (other : code.isNumeric = false) :
    convention.alignment code = 1 := by
  unfold Convention.alignment
  split
  · cases code <;> first | rfl | cases other
  · rfl

theorem canonical_numeric (numeric : code.isNumeric = true) (raw : Bytes) :
    code.canonical raw = raw := by
  cases code <;> first | rfl | cases numeric

theorem isNumeric_codec (numeric : code.isNumeric = true)
    (found : code.codec? machine order = some codec) :
    (∃ number, codec = .number number order) ∨ ∃ unsigned, codec = .quad unsigned order := by
  cases code with
  | pointer =>
    unfold codec? at found
    by_cases wide : machine.is64Bit
    · rw [if_pos wide] at found
      cases found
      exact Or.inr ⟨_, rfl⟩
    · rw [if_neg wide] at found
      cases found
      exact Or.inl ⟨_, rfl⟩
  | truth | char | counted | text | padding => cases numeric
  | int64 | uint64 =>
    cases found
    exact Or.inr ⟨_, rfl⟩
  | _ =>
    cases found
    exact Or.inl ⟨_, rfl⟩

theorem arrange_replicate (order : ByteOrder) (n : Nat) (b : UInt8) :
    order.arrange (List.replicate n b) = List.replicate n b := by
  cases order with
  | little => rfl
  | big => exact List.reverse_replicate

theorem clean_ones (numeric : code.isNumeric = true)
    (found : code.codec? machine order = some codec) (spans : codec.Spans n) :
    code.Clean order (List.replicate n 1) := by
  cases code with
  | single =>
    cases found
    change n = 4 at spans
    subst spans
    change FloatShape.single.isNaN (order.arrange _).toNat = false
    rw [arrange_replicate]
    decide
  | double =>
    cases found
    change n = 8 at spans
    subst spans
    change FloatShape.double.isNaN (order.arrange _).toNat = false
    rw [arrange_replicate]
    decide
  | truth | char | counted | text | padding => cases numeric
  | _ => trivial

theorem takeWhile_zeros (n : Nat) :
    (List.replicate n (0 : UInt8)).takeWhile (· != 0) = [] := by
  cases n <;> rfl

theorem countedContent_zeros (n : Nat) : countedContent (List.replicate n 0) = [] := by
  cases n <;> rfl

theorem clean_zeros (found : code.codec? machine order = some codec) (spans : codec.Spans n) :
    code.Clean order (List.replicate n 0) := by
  cases code with
  | single =>
    cases found
    change n = 4 at spans
    subst spans
    change FloatShape.single.isNaN (order.arrange _).toNat = false
    rw [arrange_replicate]
    decide
  | double =>
    cases found
    change n = 8 at spans
    subst spans
    change FloatShape.double.isNaN (order.arrange _).toNat = false
    rw [arrange_replicate]
    decide
  | text =>
    change Utf8.WellFormed (List.takeWhile _ _)
    rw [takeWhile_zeros]
    exact ⟨[], rfl⟩
  | counted =>
    change Utf8.WellFormed (countedContent _)
    rw [countedContent_zeros]
    exact ⟨[], rfl⟩
  | _ => trivial

theorem canonical_zeros (found : code.codec? machine order = some codec) (spans : codec.Spans n) :
    code.canonical (List.replicate n 0) = List.replicate n 0 := by
  cases code with
  | truth =>
    change List.map _ _ = _
    rw [List.map_replicate]
    rfl
  | text =>
    change PlainText.encode (List.takeWhile _ _) _ = _
    rw [takeWhile_zeros, List.length_replicate]
    simp [PlainText.encode]
  | counted =>
    cases found
    obtain ⟨m, rfl⟩ := Nat.exists_eq_add_of_le' spans
    change UInt8.ofNat (countedContent _).length :: PlainText.encode (countedContent _) _ = _
    rw [countedContent_zeros, List.length_replicate]
    simp [PlainText.encode, List.replicate_succ]
  | _ => rfl

/-- A NaN is read as the one quiet NaN of doubles, which no clean bytes are read as. -/
theorem decode_unclean {strictness : Strictness} {raw clean : Bytes} {offset : Int} {v : Value}
    (found : code.codec? machine order = some codec) (numeric : code.isNumeric = true)
    (size : clean.length = n) (spans : codec.Spans n) (dirty : ¬ code.Clean order raw)
    (pure : code.Clean order clean) (one : codec.decode strictness raw offset = .ok v) :
    codec.decode strictness clean offset ≠ .ok v := by
  have quiet : FloatShape.double.isNaN
      (UInt64.ofNat FloatShape.double.quietNaN).toNat = true := by decide
  have apart : ∀ bits : UInt64, FloatShape.double.isNaN bits.toNat = false →
      Value.float bits ≠ .float (UInt64.ofNat FloatShape.double.quietNaN) := by
    intro bits real same
    cases same
    rw [quiet] at real
    cases real
  cases code with
  | single =>
    cases found
    have nan : FloatShape.single.isNaN (order.arrange raw).toNat = true :=
      Bool.not_eq_false _ ▸ dirty
    obtain ⟨wide, same⟩ := Number.exists_double pure
    have value : Number.single.decode order clean = .float wide := Number.value_single same
    intro two
    cases one
    have equal : Number.single.decode order clean = Number.single.decode order raw :=
      Except.ok.inj two
    rw [value] at equal
    apply apart _ same.notNaN
    rw [equal]
    change Value.ofDouble (FloatShape.single.convert .double _) = _
    rw [FloatShape.convert, nan]
    rfl
  | double =>
    cases found
    have nan : FloatShape.double.isNaN (order.arrange raw).toNat = true :=
      Bool.not_eq_false _ ▸ dirty
    have small : (order.arrange clean).toNat < 2 ^ 64 :=
      Number.pattern_lt .double order (size.trans spans)
    have bits : (UInt64.ofNat (order.arrange clean).toNat).toNat = (order.arrange clean).toNat := by
      rw [UInt64.toNat_ofNat', Nat.mod_eq_of_lt small]
    have value : Number.double.decode order clean =
        .float (UInt64.ofNat (order.arrange clean).toNat) := Number.ofDouble_number pure
    intro two
    cases one
    have equal : Number.double.decode order clean = Number.double.decode order raw :=
      Except.ok.inj two
    rw [value] at equal
    apply apart (UInt64.ofNat (order.arrange clean).toNat) (by rw [bits]; exact pure)
    rw [equal]
    change Value.ofDouble _ = _
    rw [Value.ofDouble, nan]
    rfl
  | truth | char | counted | text | padding => cases numeric
  | _ => exact absurd trivial dirty

theorem decode_injective {strictness : Strictness} {raw clean : Bytes} {offset : Int} {v : Value}
    (found : code.codec? machine order = some codec) (numeric : code.isNumeric = true)
    (spans : codec.Spans n) (length : raw.length = n) (size : clean.length = n)
    (pure : code.Clean order clean) (one : codec.decode strictness raw offset = .ok v)
    (two : codec.decode strictness clean offset = .ok v) : raw = clean := by
  have uncounted : ∀ bs : Bytes, strictness.counts = true → code = counted →
      (bs.headD 0).toNat < bs.length := by
    rintro bs _ rfl
    cases numeric
  by_cases dirty : code.Clean order raw
  · obtain ⟨v₁, first⟩ := restores found (by rw [length]; exact spans) dirty (uncounted raw)
    obtain ⟨v₂, second⟩ := restores found (by rw [size]; exact spans) pure (uncounted clean)
    cases (first.decoded offset).symm.trans one
    cases (second.decoded offset).symm.trans two
    have left := first.encoded offset
    have right := second.encoded offset
    rw [canonical_numeric numeric, length] at left
    rw [canonical_numeric numeric, size] at right
    exact Except.ok.inj (left.symm.trans right)
  · exact absurd two (decode_unclean found numeric size spans dirty pure one)

end FieldType

theorem Codec.inside_of_read {code : FieldType} {machine : Machine} {order : ByteOrder}
    {codec : Codec} {strictness : Strictness} {bs : Bytes} {offset : Int} {length : Nat} {v : Value}
    (numeric : code.isNumeric = true) (found : code.codec? machine order = some codec)
    (spans : codec.Spans length) (start : 0 ≤ offset)
    (read : codec.read strictness bs offset length = .ok v) : Inside bs offset length := by
  have reached : codec.Reaches bs offset length := by
    by_contra short
    obtain ⟨fault, failed, _⟩ := Codec.read_unreached strictness spans start short
    cases failed.symm.trans read
  rcases FieldType.isNumeric_codec numeric found with ⟨number, rfl⟩ | ⟨unsigned, rfl⟩
  · exact ⟨start, reached⟩
  · exact ⟨start, reached⟩

end BinaryRecord
