import BinaryRecord.Proofs.Conversions
import BinaryRecord.Proofs.Edits
import BinaryRecord.Proofs.Fields
import Mathlib.Tactic.Ring

/-!
The bytes that a codec stores for a value, and that writing a field is nothing but laying these
bytes over it. Values that stand for the array being written are taken as it then stands.
-/
namespace BinaryRecord

namespace Bytes

theorem ofNat_mod (w n : Nat) : ofNat w (n % 256 ^ w) = ofNat w n := by
  induction w generalizing n with
  | zero => rfl
  | succ w ih =>
    have digits : n % 256 ^ (w + 1) = n % 256 + 256 * (n / 256 % 256 ^ w) := by
      rw [Nat.pow_succ', Nat.mod_mul]
    have low : n % 256 ^ (w + 1) % 256 = n % 256 := by omega
    have rest : n % 256 ^ (w + 1) / 256 = n / 256 % 256 ^ w := by omega
    rw [ofNat, ofNat, low, rest, ih]

theorem ofNat_append (w more n : Nat) :
    ofNat (w + more) n = ofNat w n ++ ofNat more (n / 256 ^ w) := by
  induction w generalizing n with
  | zero => simp [ofNat]
  | succ w ih =>
    have step : w + 1 + more = w + more + 1 := by omega
    rw [step, ofNat, ih, ofNat, Nat.pow_succ', Nat.div_div_eq_div_mul]
    rfl

end Bytes

theorem Value.rawText_fault {v : Value} {fault : Fault} (failed : v.rawText = .error fault) :
    fault.IsReported := by
  cases v <;> cases failed <;> exact ⟨_, rfl, rfl⟩

namespace PlainText

def encode (raw : Bytes) (length : Nat) : Bytes :=
  raw.take length ++ List.replicate (length - raw.length) 0

theorem length_encode (raw : Bytes) (length : Nat) : (encode raw length).length = length := by
  simp only [encode, List.length_append, List.length_take, List.length_replicate]
  omega

theorem write_edits (v : Value) (offset : Int) (length : Nat) (bs : Bytes) :
    EditsField (write v offset length) (v.rawText.map (encode · length)) offset length False bs := by
  cases text : v.rawText with
  | error fault =>
    apply EditsField.of_refused
    unfold write
    rw [text]
    exact Edit.bind_error _ Edit.ofExcept_error
  | ok raw =>
    have kept : raw.slice 0 length = raw.take length := by
      have positive : ¬ (length : Int) < 0 := by omega
      simp [Bytes.slice, Bytes.bound, positive, ← List.take_eq_take_min]
    have size : (raw.take length).length + (length - raw.length) = length := by
      rw [List.length_take]
      omega
    have stop : offset + length = offset + (raw.take length).length + (length - raw.length : Nat) := by
      omega
    have one := (EditsField.of_write offset (raw.take length) bs).fill (length - raw.length)
    rw [size, ← stop] at one
    apply one.congr
    unfold write
    rw [text, Edit.bind_ok _ Edit.ofExcept_ok, kept]

end PlainText

namespace CountedText

/-- The count, the bytes that fit, then zeros. -/
def encode (strict : Bool) (raw : Bytes) (offset : Int) (length : Nat) : Except Fault Bytes :=
  let count := min (min raw.length (length - 1)) 255
  if count < raw.length ∧ strict then .error (.countedTooLong offset raw.length length)
  else .ok (UInt8.ofNat count :: (raw.take count ++ List.replicate (length - 1 - count) 0))

theorem length_encode {strict : Bool} {raw bytes : Bytes} {offset : Int} {length : Nat}
    (positive : 1 ≤ length) (encoded : encode strict raw offset length = .ok bytes) :
    bytes.length = length := by
  unfold encode at encoded
  dsimp only at encoded
  split at encoded
  · cases encoded
  · cases encoded
    simp only [List.length_cons, List.length_append, List.length_take, List.length_replicate]
    omega

theorem write_edits (strict : Bool) (v : Value) (offset : Int) {length : Nat} (positive : 1 ≤ length)
    (bs : Bytes) :
    EditsField (write strict v offset length) (v.rawText.bind (encode strict · offset length)) offset
      length False bs := by
  cases text : v.rawText with
  | error fault =>
    apply EditsField.of_refused
    unfold write
    rw [text]
    exact Edit.bind_error _ Edit.ofExcept_error
  | ok raw =>
    change EditsField _ (encode strict raw offset length) offset length False bs
    generalize counted : min (min raw.length (length - 1)) 255 = count
    have capacity : capacity raw.length length = count := by
      unfold CountedText.capacity greatestCount
      omega
    by_cases long : count < raw.length ∧ strict = true
    · have encoded : encode strict raw offset length =
          .error (.countedTooLong offset raw.length length) := by
        unfold encode
        rw [counted]
        exact if_pos long
      rw [encoded]
      apply EditsField.of_refused
      unfold write
      rw [text, Edit.bind_ok _ Edit.ofExcept_ok]
      dsimp only
      rw [capacity, if_pos ⟨by omega, long.2⟩]
      exact Edit.bind_error _ rfl
    · have encoded : encode strict raw offset length = .ok (UInt8.ofNat count ::
          (raw.take count ++ List.replicate (length - 1 - count) 0)) := by
        unfold encode
        rw [counted]
        exact if_neg long
      rw [encoded]
      have taken : (raw.take count).length = count := by
        rw [List.length_take]
        omega
      have byte : Storage.byte count = .ok (UInt8.ofNat count) := by
        rw [Storage.byte, if_pos (by omega), Int.toNat_natCast]
      -- The count byte and the text are one field, after which the zeros follow.
      have head := (EditsField.of_write offset [UInt8.ofNat count] bs).append
        (fun mid => EditsField.of_write (offset + 1) (raw.take count) mid)
      rw [← List.length_append] at head
      have all := head.fill (length - 1 - count)
      have size : ([UInt8.ofNat count] ++ raw.take count).length = count + 1 := by
        simp only [List.length_append, List.length_singleton, taken]
        omega
      have whole : count + 1 + (length - 1 - count) = length := by omega
      have place : offset + (count + 1 : Nat) = offset + 1 + count := by omega
      have stop : offset + 1 + count + (length - 1 - count : Nat) = offset + length := by omega
      rw [size, whole, place, stop, bind_assoc] at all
      have short : ¬ ((count : Int) < raw.length ∧ strict = true) := by
        intro both
        exact long ⟨by omega, both.2⟩
      apply all.congr
      unfold write
      rw [text, Edit.bind_ok _ Edit.ofExcept_ok]
      dsimp only
      rw [capacity, if_neg short, byte]
      rfl

end CountedText

namespace Number

theorem length_encode (n : Number) (order : ByteOrder) (pattern : Nat) :
    (n.encode order pattern).length = n.width := by
  rw [encode, ByteOrder.length_arrange, Bytes.length_ofNat]

section Writing

variable {n : Number} {order : ByteOrder} {offset : Int} {v : Value} {bs : Bytes} {pattern : Nat}
  {fault : Fault}

theorem write_of_pattern (found : n.pattern order v = .ok pattern)
    (inside : Storage.Inside bs offset n.width) :
    n.write order offset v bs = .ok () (bs.overlay offset.toNat (n.encode order pattern)) := by
  unfold write
  rw [Edit.bind_ok _ (Storage.check_inside inside), found, Edit.bind_ok _ Edit.ofExcept_ok]
  exact Storage.write_inside (by rw [length_encode]; exact inside)

theorem write_of_refused (refused : n.pattern order v = .error fault)
    (inside : Storage.Inside bs offset n.width) :
    n.write order offset v bs = .error fault bs := by
  unfold write
  rw [Edit.bind_ok _ (Storage.check_inside inside), refused]
  exact Edit.bind_error _ Edit.ofExcept_error

theorem write_of_outside (beyond : ¬ Storage.Inside bs offset n.width) :
    n.write order offset v bs = .error (Storage.outside bs offset n.width) bs :=
  Edit.bind_error _ (Storage.check_outside beyond)

end Writing

theorem write_edits (n : Number) (order : ByteOrder) (offset : Int) (v : Value) (bs : Bytes) :
    EditsField (n.write order offset v) ((n.pattern order v).map (n.encode order)) offset n.width True
      bs := by
  refine ⟨?_, ?_, ?_⟩
  · intro raw encoded inside
    obtain ⟨pattern, found, rfl⟩ := ok_of_map encoded
    exact write_of_pattern found inside
  · intro fault encoded inside
    exact write_of_refused (error_of_map encoded) inside
  · intro beyond
    exact ⟨_, bs, write_of_outside beyond, Or.inr ⟨_, rfl, rfl⟩, Bytes.SameExcept.refl _ bs,
      fun _ => rfl⟩

theorem whole_reported {v : Value} {kind : PlainKind} (failed : whole v = .error kind) :
    kind.isReported = true := by
  unfold whole at failed
  split at failed
  · cases failed
  · split at failed
    · cases failed
    · cases failed
      rfl
  · cases failed
    rfl
  · cases failed
    rfl

theorem nearestDouble_reported {n : Int} {kind : PlainKind}
    (failed : nearestDouble n = .error kind) : kind.isReported = true := by
  unfold nearestDouble at failed
  dsimp only at failed
  split at failed
  · cases failed
    rfl
  · cases failed

theorem real_reported {v : Value} {kind : PlainKind} (failed : real v = .error kind) :
    kind.isReported = true := by
  unfold real at failed
  split at failed
  · cases failed
  · exact nearestDouble_reported failed
  · exact nearestDouble_reported failed
  · exact nearestDouble_reported failed
  all_goals
    first
      | cases failed
        rfl
      | split at failed <;> cases failed
        rfl

theorem converted_reported {n : Number} {v : Value} {kind : PlainKind}
    (failed : n.converted v = .error kind) : kind.isReported = true := by
  cases n with
  | int width | uint width =>
    rcases error_of_bind failed with refused | ⟨m, _, range⟩
    · exact whole_reported refused
    · split at range
      · cases range
      · cases range
        rfl
  | single | double =>
    rcases error_of_bind failed with refused | ⟨bits, _, done⟩
    · exact real_reported refused
    · cases done

section Patterns

variable {n : Number} {order : ByteOrder} {v : Value} {raw? : Option Nat} {kind : PlainKind}
  {fault : Fault}

theorem pattern_of_converted (found : n.converted v = .ok raw?) :
    n.pattern order v = n.bounded v raw? := by
  unfold pattern
  rw [found]
  rfl

theorem pattern_of_refused (refused : n.converted v = .error kind) :
    n.pattern order v = .error (.refused kind (.bits (n.token order) (8 * n.width) v)) := by
  unfold pattern
  rw [refused]
  rfl

theorem bounded_fault (failed : n.bounded v raw? = .error fault) : fault.IsReported := by
  unfold bounded at failed
  split at failed
  · cases failed
  · split at failed
    · cases failed
      exact ⟨_, rfl, rfl⟩
    · cases failed
  · cases failed
    exact ⟨_, rfl, rfl⟩

theorem pattern_fault (failed : n.pattern order v = .error fault) : fault.IsReported := by
  cases found : n.converted v with
  | error kind =>
    rw [pattern_of_refused found] at failed
    cases failed
    exact ⟨_, converted_reported found, rfl⟩
  | ok raw? =>
    rw [pattern_of_converted found] at failed
    exact bounded_fault failed

end Patterns

theorem pattern_uint {width n : Nat} (order : ByteOrder) (small : n < 256 ^ width) :
    (Number.uint width).pattern order (.int n) = .ok n := by
  have range : (0 : Int) ≤ n ∧ (n : Int) < 256 ^ width := by
    refine ⟨by omega, ?_⟩
    exact_mod_cast small
  have converted : (Number.uint width).converted (.int n) = .ok (some n) := if_pos range
  rw [pattern_of_converted converted]
  rfl

end Number

/-- A dictionary without an entry under zero, so without a first item. -/
def Value.Keyless (v : Value) : Prop := Codec.firstItem v = .error .key

namespace Codec

def encodeQuad (order : ByteOrder) (x : Quadword) : Bytes :=
  order.arrange (Bytes.ofNat 8 x.pattern)

theorem length_encodeQuad (order : ByteOrder) (x : Quadword) : (encodeQuad order x).length = 8 := by
  rw [encodeQuad, ByteOrder.length_arrange, Bytes.length_ofNat]

theorem toNat_encodeQuad (order : ByteOrder) (x : Quadword) :
    (order.arrange (encodeQuad order x)).toNat = x.pattern := by
  have small : x.pattern < 256 ^ 8 := x.pattern_lt
  rw [encodeQuad, order.arrange_arrange, Bytes.toNat_ofNat, Nat.mod_eq_of_lt small]

def encodeWord (order : ByteOrder) (n : Nat) : Bytes := order.arrange (Bytes.ofNat 4 n)

theorem length_encodeWord (order : ByteOrder) (n : Nat) : (encodeWord order n).length = 4 := by
  rw [encodeWord, ByteOrder.length_arrange, Bytes.length_ofNat]

theorem word_write_edits (order : ByteOrder) (offset : Int) {n : Nat} (small : n < 2 ^ 32)
    (bs : Bytes) :
    EditsField (word.write order offset (.int n)) (.ok (encodeWord order n)) offset
      (encodeWord order n).length True bs := by
  have written := Number.write_edits word order offset (.int n) bs
  rw [word, Number.pattern_uint _ (by omega)] at written
  rw [length_encodeWord]
  exact written

theorem words_eq (x : Quadword) :
    Bytes.ofNat 4 x.low ++ Bytes.ofNat 4 x.high = Bytes.ofNat 8 x.pattern := by
  have low : Bytes.ofNat 4 x.low = Bytes.ofNat 4 x.pattern := Bytes.ofNat_mod 4 x.pattern
  have power : 256 ^ 4 = 2 ^ 32 := by decide
  rw [low, Quadword.high, Bytes.ofNat_append 4 4, power]

theorem writeQuad_edits (unsigned : Bool) (order : ByteOrder) (v : Value) (offset : Int)
    (bs : Bytes) :
    EditsField (writeQuad unsigned order v offset)
      (match v.toQuad? unsigned with
        | some x => .ok (encodeQuad order x)
        | none => .error (.refused .type (.index v))) offset 8 False bs := by
  cases found : v.toQuad? unsigned with
  | none =>
    apply EditsField.of_refused
    unfold writeQuad
    rw [found]
    rfl
  | some x =>
    -- The words in the order in which they lie; the less significant one is written first.
    cases order with
    | little =>
      have whole : encodeQuad .little x = encodeWord .little x.low ++ encodeWord .little x.high :=
        (words_eq x).symm
      have both := (word_write_edits .little offset x.low_lt bs).append
        (word_write_edits .little _ x.high_lt)
      simp only [length_encodeWord, ← whole] at both
      apply both.congr
      unfold writeQuad
      rw [found]
      simp only [wordPlaces, Int.add_zero]
      rfl
    | big =>
      have whole : encodeQuad .big x = encodeWord .big x.high ++ encodeWord .big x.low := by
        rw [encodeQuad, ← words_eq]
        exact List.reverse_append
      have both := EditsField.prepend (word_write_edits .big _ x.low_lt bs)
        (word_write_edits .big offset x.high_lt)
      simp only [length_encodeWord, ← whole] at both
      apply both.congr
      unfold writeQuad
      rw [found]
      simp only [wordPlaces, Int.add_zero]
      rfl

theorem byte_write_edits (offset : Int) {n : Nat} (small : n < 256) (bs : Bytes) :
    EditsField (byte.write .little offset (.int n)) (.ok [UInt8.ofNat n]) offset 1 True bs := by
  have written := Number.write_edits byte .little offset (.int n) bs
  have bytes : byte.encode .little n = [UInt8.ofNat n] := by
    change [UInt8.ofNat (n % 256)] = _
    rw [Nat.mod_eq_of_lt small]
  rw [byte, Number.pattern_uint _ (by omega)] at written
  change EditsField _ (.ok (byte.encode .little n)) _ _ _ _ at written
  rw [bytes] at written
  exact written

theorem writeChar_edits (v : Value) (offset : Int) (bs : Bytes) :
    EditsField (writeChar v offset) ((firstCode v).map fun code => [UInt8.ofNat (code % 256)]) offset
      1 True bs := by
  cases found : firstCode v with
  | error fault =>
    apply EditsField.of_refused
    unfold writeChar
    rw [found]
    exact Edit.bind_error _ Edit.ofExcept_error
  | ok code =>
    apply (byte_write_edits offset (Nat.mod_lt code (by decide)) bs).congr
    unfold writeChar
    rw [found]
    exact Edit.bind_ok _ Edit.ofExcept_ok

theorem writeTruth_edits (v : Value) (offset : Int) (bs : Bytes) :
    EditsField (writeTruth v offset) (.ok [if v.isTrue then 1 else 0]) offset 1 True bs := by
  unfold writeTruth
  cases v.isTrue with
  | false => exact byte_write_edits offset (n := 0) (by decide) bs
  | true => exact byte_write_edits offset (n := 1) (by decide) bs

theorem firstCode_fault {v : Value} {fault : Fault} (failed : firstCode v = .error fault) :
    fault.IsReported ∨ (v.Keyless ∧ fault.IsUnreported) := by
  unfold firstCode at failed
  split at failed
  · cases failed
  · cases failed
  · cases item : firstItem v with
    | error kind =>
      rw [item] at failed
      cases failed
      cases kind with
      | key => exact Or.inr ⟨item, v, rfl⟩
      | _ => exact Or.inl ⟨_, rfl, rfl⟩
    | ok first =>
      rw [item] at failed
      dsimp only at failed
      split at failed
      · cases failed
      · cases failed
        exact Or.inl ⟨_, rfl, rfl⟩

/-- The bytes that a field holds for a value. Its place only stands in the fault of a counted text. -/
def encode (codec : Codec) (strictness : Strictness) (v : Value) (offset : Int) (length : Nat) :
    Except Fault Bytes :=
  match codec with
  | number n order => (n.pattern order v).map (n.encode order)
  | quad unsigned order => match v.toQuad? unsigned with
    | some x => .ok (encodeQuad order x)
    | none => .error (.refused .type (.index v))
  | char => (firstCode v).map fun code => [UInt8.ofNat (code % 256)]
  | truth => .ok [if v.isTrue then 1 else 0]
  | text => v.rawText.map (PlainText.encode · length)
  | counted => v.rawText.bind (CountedText.encode strictness.counts · offset length)

/-- The codec writes its field by one step, which succeeds or does nothing. -/
def Single : Codec → Prop
  | number .. | char | truth => True
  | quad .. | text | counted => False

theorem writeResolved_edits {codec : Codec} {length : Nat} (spans : codec.Spans length)
    (strictness : Strictness) (v : Value) (offset : Int) (bs : Bytes) :
    EditsField (codec.writeResolved strictness v offset length)
      (codec.encode strictness v offset length) offset length codec.Single bs := by
  cases codec with
  | number n order =>
    change length = n.width at spans
    subst spans
    exact Number.write_edits n order offset v bs
  | quad unsigned order =>
    change length = 8 at spans
    subst spans
    exact writeQuad_edits unsigned order v offset bs
  | char =>
    change length = 1 at spans
    subst spans
    exact writeChar_edits v offset bs
  | truth =>
    change length = 1 at spans
    subst spans
    exact writeTruth_edits v offset bs
  | text => exact PlainText.write_edits v offset length bs
  | counted => exact CountedText.write_edits strictness.counts v offset spans bs

theorem write_edits {codec : Codec} {length : Nat} (spans : codec.Spans length)
    (strictness : Strictness) (v : Value) (offset : Int) (bs : Bytes) :
    EditsField (codec.write strictness v offset length)
      (codec.encode strictness (v.resolve bs) offset length) offset length codec.Single bs :=
  (writeResolved_edits spans strictness (v.resolve bs) offset bs).congr rfl

theorem length_encode {codec : Codec} {length : Nat} (spans : codec.Spans length)
    {strictness : Strictness} {v : Value} {offset : Int} {raw : Bytes}
    (encoded : codec.encode strictness v offset length = .ok raw) : raw.length = length := by
  cases codec with
  | number n order =>
    obtain ⟨pattern, _, rfl⟩ := ok_of_map encoded
    exact (n.length_encode order pattern).trans spans.symm
  | quad unsigned order =>
    simp only [encode] at encoded
    split at encoded
    · cases encoded
      exact (length_encodeQuad order _).trans spans.symm
    · cases encoded
  | char =>
    obtain ⟨code, _, rfl⟩ := ok_of_map encoded
    exact spans.symm
  | truth =>
    cases encoded
    exact spans.symm
  | text =>
    obtain ⟨text, _, rfl⟩ := ok_of_map encoded
    exact PlainText.length_encode text length
  | counted =>
    obtain ⟨text, _, fitted⟩ := ok_of_bind encoded
    exact CountedText.length_encode spans fitted

theorem encode_fault {codec : Codec} {strictness : Strictness} {v : Value} {offset : Int}
    {length : Nat} {fault : Fault} (failed : codec.encode strictness v offset length = .error fault) :
    fault.IsReported ∨ (codec = .counted ∧ ∃ size, fault = .countedTooLong offset size length) ∨
      (codec = .char ∧ v.Keyless ∧ fault.IsUnreported) := by
  cases codec with
  | number n order => exact Or.inl (Number.pattern_fault (error_of_map failed))
  | quad unsigned order =>
    simp only [encode] at failed
    split at failed
    · cases failed
    · cases failed
      exact Or.inl ⟨_, rfl, rfl⟩
  | char =>
    rcases firstCode_fault (error_of_map failed) with reported | keyless
    · exact Or.inl reported
    · exact Or.inr (Or.inr ⟨rfl, keyless⟩)
  | truth => cases failed
  | text => exact Or.inl (Value.rawText_fault (error_of_map failed))
  | counted =>
    rcases error_of_bind failed with refused | ⟨text, _, long⟩
    · exact Or.inl (Value.rawText_fault refused)
    · right
      left
      unfold CountedText.encode at long
      dsimp only at long
      split at long
      · cases long
        exact ⟨rfl, _, rfl⟩
      · cases long

end Codec
end BinaryRecord
