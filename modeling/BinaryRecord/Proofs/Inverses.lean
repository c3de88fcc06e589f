import BinaryRecord.Proofs.Decoding
import BinaryRecord.Proofs.Filling
import BinaryRecord.Proofs.Rounding
import BinaryRecord.Proofs.Utf8

/-!
Encoding and decoding of a single field undo each other: values of the range of a type come back as
they are, and the bytes of a field come back in a canonical form.
-/
namespace BinaryRecord

open Bytes

/-- The values are one value, or whole numbers by kind that are equal. -/
def Value.Same (v w : Value) : Prop := v = w ∨ ∃ n, v.integer? = some n ∧ w.integer? = some n

namespace Number

theorem decode_encode (number : Number) (order : ByteOrder) {pattern : Nat}
    (small : pattern < 256 ^ number.width) :
    number.decode order (number.encode order pattern) = number.value pattern := by
  rw [decode, encode, order.arrange_arrange, toNat_ofNat, Nat.mod_eq_of_lt small]

theorem encode_arranged (number : Number) (order : ByteOrder) {raw : Bytes}
    (size : raw.length = number.width) : number.encode order (order.arrange raw).toNat = raw := by
  rw [encode, ← size, ← order.length_arrange raw, ofNat_toNat, order.arrange_arrange]

theorem pattern_lt (number : Number) (order : ByteOrder) {raw : Bytes}
    (size : raw.length = number.width) : (order.arrange raw).toNat < 256 ^ number.width := by
  rw [← size, ← order.length_arrange raw]
  exact toNat_lt _

theorem whole_of_integer {v : Value} {n : Int} (integer : v.integer? = some n) :
    whole v = .ok n := by
  unfold whole
  rw [integer]

theorem pattern_int {width : Nat} {v : Value} {n : Int} (order : ByteOrder)
    (integer : v.integer? = some n) (low : -(256 ^ width / 2 : Nat) ≤ n)
    (high : n < (256 ^ width / 2 : Nat)) :
    (Number.int width).pattern order v = .ok (n % 256 ^ width).toNat := by
  have converted : (Number.int width).converted v = .ok (some (n % 256 ^ width).toNat) := by
    change (whole v).bind _ = _
    rw [whole_of_integer integer]
    exact if_pos ⟨low, high⟩
  rw [pattern_of_converted converted]
  rfl

theorem pattern_natural {width : Nat} {v : Value} {n : Int} (order : ByteOrder)
    (integer : v.integer? = some n) (low : 0 ≤ n) (high : n < 256 ^ width) :
    (Number.uint width).pattern order v = .ok n.toNat := by
  have converted : (Number.uint width).converted v = .ok (some n.toNat) := by
    change (whole v).bind _ = _
    rw [whole_of_integer integer]
    exact if_pos ⟨low, high⟩
  rw [pattern_of_converted converted]
  rfl

theorem value_int {width : Nat} {n : Int} (low : -(256 ^ width / 2 : Nat) ≤ n)
    (high : n < (256 ^ width / 2 : Nat)) :
    (Number.int width).value (n % 256 ^ width).toNat = .int n := by
  have weight : 0 < 256 ^ width := Nat.pow_pos (by decide)
  have power : (256 : Int) ^ width = (256 ^ width : Nat) := by norm_cast
  have reduced : ((n % (256 ^ width : Nat)).toNat : Int) = n % (256 ^ width : Nat) :=
    Int.toNat_of_nonneg (Int.emod_nonneg n (by omega))
  change Value.int (Int.bmod ((n % 256 ^ width).toNat : Int) (256 ^ width)) = _
  rw [power, reduced, Int.emod_bmod, Int.bmod_eq_of_le (by omega) (by omega)]

theorem not_infinite {shape : FloatShape} {bits : Nat} (finite : shape.isFinite bits = true) :
    ¬ shape.isInfinite bits = true := by
  simp only [FloatShape.isFinite, FloatShape.isInfinite, decide_eq_true_eq, beq_iff_eq] at *
  omega

theorem pattern_double {bits : UInt64} (order : ByteOrder)
    (number : FloatShape.double.isNaN bits.toNat = false) :
    Number.double.pattern order (.float bits) = .ok bits.toNat := by
  have converted : Number.double.converted (.float bits) = .ok (some bits.toNat) := by
    change Except.ok (some (if FloatShape.double.isNaN bits.toNat then _ else bits.toNat)) = _
    rw [number]
    rfl
  rw [pattern_of_converted converted]
  exact if_neg fun both => not_infinite both.1 both.2

theorem ofDouble_number {bits : Nat} (number : FloatShape.double.isNaN bits = false) :
    Value.ofDouble bits = .float (UInt64.ofNat bits) := by
  rw [Value.ofDouble, number]
  rfl

theorem exists_double {narrow : Nat} (number : FloatShape.single.isNaN narrow = false) :
    ∃ bits : UInt64, FloatShape.SameValue .double .single bits.toNat narrow := by
  obtain ⟨wide, small, same⟩ := FloatShape.single_is_double number
  change wide < 2 ^ 64 at small
  refine ⟨UInt64.ofNat wide, ?_⟩
  rw [UInt64.toNat_ofNat', Nat.mod_eq_of_lt small]
  exact same.symm

theorem pattern_single {bits : UInt64} {narrow : Nat} (order : ByteOrder) (small : narrow < 2 ^ 32)
    (same : FloatShape.SameValue .double .single bits.toNat narrow) :
    Number.single.pattern order (.float bits) = .ok narrow := by
  have kept : ¬ (FloatShape.double.isFinite bits.toNat = true ∧
      FloatShape.single.isInfinite narrow = true) := by
    rintro ⟨finite, infinite⟩
    rcases same.size with ⟨wide, _⟩ | ⟨_, thin, _⟩
    · exact not_infinite finite wide
    · exact not_infinite thin infinite
  have converted : Number.single.converted (.float bits) =
      .ok (some (FloatShape.double.convert .single bits.toNat)) := rfl
  rw [pattern_of_converted converted, FloatShape.convert_sameValue same small]
  exact if_neg kept

theorem value_single {bits : UInt64} {narrow : Nat}
    (same : FloatShape.SameValue .double .single bits.toNat narrow) :
    Number.single.value narrow = .float bits := by
  have wide : bits.toNat < 2 * FloatShape.double.signWeight := bits.toNat_lt
  change Value.ofDouble (FloatShape.single.convert .double narrow) = _
  rw [FloatShape.convert_sameValue same.symm wide, ofDouble_number same.notNaN, UInt64.ofNat_toNat]

end Number

theorem takeWhile_padded (raw : Bytes) (n : Nat) :
    (raw ++ List.replicate n 0).takeWhile (· != 0) = raw.takeWhile (· != 0) := by
  induction raw with
  | nil => cases n <;> rfl
  | cons b raw ih => simp only [List.cons_append, List.takeWhile_cons, ih]

theorem takeWhile_take (raw : Bytes) (n : Nat) :
    (raw.take n).takeWhile (· != 0) = (raw.takeWhile (· != 0)).take n := by
  induction raw generalizing n with
  | nil => simp
  | cons b raw ih =>
    cases n with
    | zero => rfl
    | succ n =>
      rw [List.take_succ_cons, List.takeWhile_cons, List.takeWhile_cons, ih]
      split <;> rfl

theorem PlainText.decode_encode (raw : Bytes) (length : Nat) :
    decode (encode raw length) = Utf8.decode ((raw.takeWhile (· != 0)).take length) := by
  rw [decode, encode, takeWhile_padded, takeWhile_take]

namespace CountedText

def room (length : Nat) : Nat := min (length - 1) 255

/-- The field of a text: its count, as much of it as there is room for, and zeros. -/
def stored (raw : Bytes) (length : Nat) : Bytes :=
  let kept := raw.take (room length)
  UInt8.ofNat kept.length :: (kept ++ List.replicate (length - 1 - kept.length) 0)

variable {raw : Bytes} {length : Nat}

theorem stored_fitting (fits : raw.length ≤ room length) :
    stored raw length =
      UInt8.ofNat raw.length :: (raw ++ List.replicate (length - 1 - raw.length) 0) := by
  rw [stored, List.take_of_length_le fits]

theorem length_stored (raw : Bytes) (positive : 1 ≤ length) :
    (stored raw length).length = length := by
  simp only [stored, room, List.length_cons, List.length_append, List.length_take,
    List.length_replicate]
  omega

theorem encode_eq (strict : Bool) (raw : Bytes) (offset : Int) (length : Nat) :
    encode strict raw offset length =
      if room length < raw.length ∧ strict then .error (.countedTooLong offset raw.length length)
      else .ok (stored raw length) := by
  have count : min (min raw.length (length - 1)) 255 = (raw.take (room length)).length := by
    simp only [room, List.length_take]
    omega
  have long : (raw.take (room length)).length < raw.length ↔ room length < raw.length := by
    simp only [List.length_take]
    omega
  have kept : raw.take (raw.take (room length)).length = raw.take (room length) := by
    rw [List.length_take, ← List.take_eq_take_min]
  unfold encode stored
  simp only [count, long, kept]

theorem decode_stored (positive : 1 ≤ length) (strict : Bool) (place : Int) :
    decode strict (stored raw length) place = .ok (Utf8.decode (raw.take (room length))) := by
  have size := length_stored raw positive
  have small : (raw.take (room length)).length ≤ room length := List.length_take_le _ _
  have limit : room length ≤ length - 1 ∧ room length ≤ 255 := by unfold room; omega
  have count : (UInt8.ofNat (raw.take (room length)).length).toNat =
      (raw.take (room length)).length := by
    rw [UInt8.toNat_ofNat', Nat.mod_eq_of_lt (by omega)]
  unfold stored at size ⊢
  unfold decode
  simp only [size, count, List.take_left']
  rw [if_pos (by omega)]

end CountedText

namespace Codec

/-- A field of the length gives the value back that was written to it. -/
def Returns (codec : Codec) (strictness : Strictness) (length : Nat) (v : Value) : Prop :=
  ∀ offset : Int, ∃ raw w, codec.encode strictness v offset length = .ok raw ∧
    codec.decode strictness raw offset = .ok w ∧ v.Same w

variable {strictness : Strictness} {length : Nat} {order : ByteOrder} {v : Value} {n : Int}

theorem number_returns {number : Number} {pattern : Nat}
    (found : number.pattern order v = .ok pattern) (small : pattern < 256 ^ number.width)
    (same : v.Same (number.value pattern)) :
    (Codec.number number order).Returns strictness length v := by
  intro offset
  refine ⟨number.encode order pattern, number.value pattern, ?_, ?_, same⟩
  · unfold encode
    dsimp only
    rw [found]
    rfl
  · unfold decode
    dsimp only
    rw [number.decode_encode order small]

theorem int_returns {width : Nat} (integer : v.integer? = some n)
    (low : -(256 ^ width / 2 : Nat) ≤ n) (high : n < (256 ^ width / 2 : Nat)) :
    (number (.int width) order).Returns strictness length v := by
  apply number_returns (Number.pattern_int order integer low high)
  · have power : (256 : Int) ^ width = (256 ^ width : Nat) := by norm_cast
    have weight : 0 < 256 ^ width := Nat.pow_pos (by decide)
    have below := Int.emod_lt_of_pos n (by omega : (0 : Int) < (256 ^ width : Nat))
    rw [power]
    change _ < 256 ^ width
    omega
  · rw [Number.value_int low high]
    exact Or.inr ⟨n, integer, rfl⟩

theorem uint_returns {width : Nat} (integer : v.integer? = some n) (low : 0 ≤ n)
    (high : n < 256 ^ width) : (number (.uint width) order).Returns strictness length v := by
  apply number_returns (Number.pattern_natural order integer low high)
  · have power : (256 : Int) ^ width = (256 ^ width : Nat) := by norm_cast
    change _ < 256 ^ width
    omega
  · refine Or.inr ⟨n, integer, ?_⟩
    change some (n.toNat : Int) = some n
    rw [Int.toNat_of_nonneg low]

theorem double_returns {bits : UInt64} (real : FloatShape.double.isNaN bits.toNat = false) :
    (number .double order).Returns strictness length (.float bits) := by
  apply number_returns (Number.pattern_double order real) bits.toNat_lt
  left
  change _ = Value.ofDouble bits.toNat
  rw [Number.ofDouble_number real, UInt64.ofNat_toNat]

theorem single_returns {bits : UInt64} {narrow : Nat} (small : narrow < 2 ^ 32)
    (same : FloatShape.SameValue .double .single bits.toNat narrow) :
    (number .single order).Returns strictness length (.float bits) := by
  apply number_returns (Number.pattern_single order small same) small
  left
  rw [Number.value_single same]

theorem quad_returns {unsigned : Bool} (integer : v.integer? = some n)
    (range : (Quadword.ofInt n unsigned).value = n) :
    (quad unsigned order).Returns strictness length v := by
  intro offset
  refine ⟨encodeQuad order (Quadword.ofInt n unsigned), .quad (Quadword.ofInt n unsigned), ?_, ?_,
    Or.inr ⟨n, integer, congrArg some range⟩⟩
  · unfold encode Value.toQuad?
    rw [integer]
    rfl
  · have pattern := Quadword.ofInt_pattern (Quadword.ofInt n unsigned)
    unfold decode
    dsimp only
    rw [toNat_encodeQuad]
    exact congrArg (fun x => Except.ok (Value.quad x)) pattern

theorem firstCode_lone {s : String} {c : Char} (lone : s.toList = [c]) :
    firstCode (.text s) = .ok c.toNat := by
  simp only [firstCode, firstItem, Value.parts?, lone, List.map_cons, loneCode?,
    String.toList_ofList]

theorem char_returns {s : String} {c : Char} (lone : s.toList = [c]) (low : c.toNat ≤ 255) :
    char.Returns strictness length (.text s) := by
  intro offset
  refine ⟨[UInt8.ofNat c.toNat], .text s, ?_, ?_, Or.inl rfl⟩
  · unfold encode
    dsimp only
    rw [firstCode_lone lone]
    change Except.ok [UInt8.ofNat (c.toNat % 256)] = _
    rw [Nat.mod_eq_of_lt (by omega)]
  · have number : (UInt8.ofNat c.toNat).toNat = c.toNat := by
      rw [UInt8.toNat_ofNat', Nat.mod_eq_of_lt (by omega)]
    unfold decode
    dsimp only
    rw [List.headD_cons, number, Char.ofNat_toNat, ← lone, String.ofList_toList]

theorem truth_returns (b : Bool) : truth.Returns strictness length (.bool b) := by
  intro offset
  cases b with
  | false => exact ⟨[0], .bool false, rfl, rfl, Or.inl rfl⟩
  | true => exact ⟨[1], .bool true, rfl, rfl, Or.inl rfl⟩

theorem text_returns {s : String} (free : '\x00' ∉ s.toList)
    (fits : (Utf8.encode s).length ≤ length) : text.Returns strictness length (.text s) := by
  intro offset
  refine ⟨PlainText.encode (Utf8.encode s) length, .text s, rfl, ?_, Or.inl rfl⟩
  unfold decode
  dsimp only
  rw [PlainText.decode_encode, Utf8.takeWhile_encode free, List.take_of_length_le fits,
    Utf8.decode_encode]

theorem counted_returns {s : String} (fits : (Utf8.encode s).length ≤ CountedText.room length)
    (positive : 1 ≤ length) : counted.Returns strictness length (.text s) := by
  intro offset
  have encoded := CountedText.encode_eq strictness.counts (Utf8.encode s) offset length
  have short : ¬ (CountedText.room length < (Utf8.encode s).length ∧ strictness.counts = true) :=
    fun long => Nat.not_lt.mpr fits long.1
  refine ⟨_, .text s, encoded.trans (if_neg short), ?_, Or.inl rfl⟩
  unfold decode
  dsimp only
  rw [CountedText.decode_stored positive, List.take_of_length_le fits, Utf8.decode_encode]
  rfl

end Codec

/-- The field holds the bytes `raw` for the value `v`, and they are read as the value `w`. -/
def Slot.Stores (slot : Slot) (strictness : Strictness) (v : Value) (raw : Bytes) (w : Value) :
    Prop :=
  ∃ codec, slot.Uses codec ∧ (∀ now : Bytes, v.resolve now = v) ∧
    codec.encode strictness v slot.offset slot.size = .ok raw ∧
    codec.decode strictness raw slot.offset = .ok w

/-- Fields inside of a storage are filled with values that they can hold, and then hold them. -/
theorem Fills.of_stores {strictness : Strictness} {cursor : Int} {fields : List Slot}
    {values : List Value} {bs : Bytes} {R : Slot → Value → Bytes → Value → Prop}
    (ordered : Ordered cursor fields)
    (stores : List.Forall₂ (fun slot v => ∃ raw w, slot.Stores strictness v raw w ∧ R slot v raw w)
      fields values)
    (inside : ∀ slot ∈ fields, Storage.Inside bs slot.offset slot.size) :
    ∃ after, Fills strictness fields values bs after ∧
      List.Forall₂ (fun slot v => ∃ w, slot.Reads strictness after w ∧
        R slot v (after.window slot.offset.toNat slot.size) w) fields values := by
  have encodes : List.Forall₂ (fun slot v => ∃ codec, slot.Uses codec ∧ ∀ now : Bytes, ∃ raw,
      codec.encode strictness (v.resolve now) slot.offset slot.size = .ok raw) fields values := by
    refine stores.imp ?_
    rintro slot v ⟨raw, w, ⟨codec, uses, plain, encoded, _⟩, _⟩
    refine ⟨codec, uses, ?_⟩
    intro now
    rw [plain]
    exact ⟨raw, encoded⟩
  obtain ⟨after, filled⟩ := Fills.exists_of_encodes encodes inside
  refine ⟨after, filled, ?_⟩
  have held := filled.all_hold ordered
  rw [List.forall₂_iff_zip] at held stores ⊢
  refine ⟨held.1, ?_⟩
  intro slot v member
  obtain ⟨mid, codec, raw, uses, encoded, window⟩ := held.2 member
  obtain ⟨raw', w, ⟨other, used, plain, encoded', decoded⟩, related⟩ := stores.2 member
  cases uses.found.symm.trans used.found
  rw [plain] at encoded
  cases encoded.symm.trans encoded'
  rw [window]
  exact ⟨w, ⟨codec, uses, by rw [window]; exact decoded⟩, related⟩

end BinaryRecord
