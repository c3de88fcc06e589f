import BinaryRecord.Proofs.Contents

/-!
Records at any place. A record that starts at a common multiple of its alignments has its fields as
far from its start as a record of its own has them, so packing it there writes the same contents, and
fails for the same reasons, which only name another place.
-/
namespace BinaryRecord

open Storage Bytes

namespace Fault

def shift (distance : Int) : Fault → Fault
  | truncated c offset => truncated c (offset + distance)
  | insufficient c offset => insufficient c (offset + distance)
  | countOverflow offset count length => countOverflow (offset + distance) count length
  | countedTooLong offset size length => countedTooLong (offset + distance) size length
  | unpacking c offset fault => unpacking c (offset + distance) fault
  | packing c offset fault => packing c (offset + distance) fault
  | fault => fault

theorem shift_inField {near far : PlainFault → Fault} {distance : Int}
    (told : ∀ cause, (near cause).shift distance = far cause) (fault : Fault) :
    inField far (fault.shift distance) = (inField near fault).shift distance := by
  cases fault with
  | plain cause =>
    change (if cause.kind.isReported then far cause else plain cause) =
      (if cause.kind.isReported then near cause else plain cause).shift distance
    split
    · exact (told cause).symm
    · rfl
  | _ => rfl

theorem shift_inPacking (c : Char) (offset distance : Int) (fault : Fault) :
    inPacking c (offset + distance) (fault.shift distance) =
      (inPacking c offset fault).shift distance :=
  @shift_inField (packing c offset) (packing c (offset + distance)) distance (fun _ => rfl) fault

/-- The same class and the same wording, the offset greater by a distance. -/
structure Shifted (distance : Int) (fault other : Fault) : Prop where
  class? : other.class? = fault.class?
  wording? : ∀ texts, other.wording? texts = fault.wording? texts
  chain : ∃ c position, fault.chain = place c position ∧ other.chain = place c (position + distance)

theorem shifted_shift (distance : Int) {fault : Fault}
    (packing : fault.class? = some .packing ∨ fault.class? = some .insufficient) :
    Shifted distance fault (fault.shift distance) := by
  cases fault with
  | insufficient c offset | countedTooLong offset size length | packing c offset cause =>
    exact ⟨rfl, fun _ => rfl, _, _, rfl, rfl⟩
  | _ => simp [Fault.class?] at packing

theorem shift_unreported (distance : Int) {fault : Fault} (unreported : fault.IsUnreported) :
    fault.shift distance = fault := by
  obtain ⟨v, rfl⟩ := unreported
  rfl

end Fault

namespace Codec

theorem encode_place {codec : Codec} (other : codec ≠ .counted) (strictness : Strictness) (v : Value)
    (first second : Int) (length : Nat) :
    codec.encode strictness v first length = codec.encode strictness v second length := by
  cases codec <;> simp_all [encode]

theorem encode_shift (codec : Codec) (strictness : Strictness) (v : Value) (offset distance : Int)
    (length : Nat) :
    codec.encode strictness v (offset + distance) length =
      (codec.encode strictness v offset length).mapError (Fault.shift distance) := by
  by_cases counted : codec = .counted
  · subst counted
    simp only [encode]
    cases text : v.rawText with
    | error fault =>
      obtain ⟨plain, _, rfl⟩ := Value.rawText_fault text
      rfl
    | ok raw =>
      change CountedText.encode _ raw (offset + distance) length = Except.mapError _
        (CountedText.encode _ raw offset length)
      simp only [CountedText.encode]
      split <;> rfl
  · rw [encode_place counted strictness v (offset + distance) offset]
    cases encoded : codec.encode strictness v offset length with
    | ok raw => rfl
    | error fault =>
      rcases encode_fault encoded with ⟨plain, _, rfl⟩ | ⟨found, _⟩ | ⟨_, _, v, rfl⟩
      · rfl
      · exact absurd found counted
      · rfl

end Codec

namespace Slot

variable {slot : Slot} {codec : Codec} {strictness : Strictness} {v : Value} {fault : Fault}

theorem content_shift (slot : Slot) (strictness : Strictness) (v : Value) (distance : Int) :
    (slot.shift distance).content strictness v =
      (slot.content strictness v).mapError (Fault.shift distance) := by
  cases found : slot.codec? with
  | none =>
    simp only [content, shift, found]
    rfl
  | some codec =>
    simp only [content, shift, found]
    rw [Codec.encode_shift]
    cases codec.encode strictness v slot.offset slot.size with
    | ok raw => rfl
    | error fault => exact congrArg Except.error (Fault.shift_inPacking _ _ _ _)

theorem content_fault (uses : slot.Uses codec) (failed : slot.content strictness v = .error fault) :
    fault.class? = some .packing ∨ fault.IsUnreported := by
  rw [content_eq uses] at failed
  cases encoded : codec.encode strictness v slot.offset slot.size with
  | ok raw => rw [encoded] at failed; cases failed
  | error cause =>
    rw [encoded] at failed
    cases failed
    exact (fails_inPacking uses (Codec.encode_fault encoded)).kind

end Slot

theorem Fit.shift {fields : List Slot} {raws : List Bytes} (fit : Fit fields raws) (distance : Int) :
    Fit (fields.map (Slot.shift · distance)) raws := by
  induction fit with
  | nil fields => exact Fit.nil _
  | cons size rest ih => exact Fit.cons size ih

namespace Layout

variable {checked : Bool} {strictness : Strictness} {fields : List Slot} {values : List Value}

theorem contents_shift (distance : Int) :
    contents checked strictness (fields.map (Slot.shift · distance)) values =
      ((contents checked strictness fields values).1,
        (contents checked strictness fields values).2.map (Fault.shift distance)) := by
  induction fields generalizing values with
  | nil => rfl
  | cons slot fields ih =>
    cases values with
    | nil => cases checked <;> rfl
    | cons v values =>
      rw [List.map_cons, contents, contents, Slot.content_shift, ih]
      cases slot.content strictness v <;> rfl

theorem contents_fault (checked : Bool) (strictness : Strictness) (values : List Value)
    (uses : ∀ slot ∈ fields, ∃ codec, slot.Uses codec) ⦃fault : Fault⦄
    (failed : (contents checked strictness fields values).2 = some fault) :
    (fault.class? = some .packing ∨ fault.class? = some .insufficient) ∨ fault.IsUnreported := by
  induction fields generalizing values with
  | nil => cases failed
  | cons slot fields ih =>
    obtain ⟨codec, used⟩ := uses slot List.mem_cons_self
    cases values with
    | nil =>
      cases checked with
      | false => cases failed
      | true =>
        cases failed
        exact Or.inl (Or.inr rfl)
    | cons v values =>
      rw [contents] at failed
      cases written : slot.content strictness v with
      | error cause =>
        rw [written] at failed
        cases failed
        exact (Slot.content_fault used written).imp_left Or.inl
      | ok raw =>
        rw [written] at failed
        exact ih values (fun other member => uses other (List.mem_cons_of_mem slot member)) failed

end Layout

/-- `after` is `before` with the fields of a record laid over it from `offset` on. -/
structure Placed (fields : List Slot) (offset : Int) (record before after : Bytes) : Prop where
  outside : SameExcept (Touched (fields.map (Slot.shift · offset))) before after
  field : ∀ slot ∈ fields, after.window (slot.offset + offset).toNat slot.size =
    record.window slot.offset.toNat slot.size

theorem Fit.placed {fields : List Slot} {raws : List Bytes} (fit : Fit fields raws)
    {cursor other offset : Int} {blank bs : Bytes} (ordered : Ordered cursor fields)
    (moved : Ordered other (fields.map (Slot.shift · offset)))
    (inside : ∀ slot ∈ fields, Inside blank slot.offset slot.size)
    (there : ∀ slot ∈ fields.map (Slot.shift · offset), Inside bs slot.offset slot.size) :
    Placed (fields.take raws.length) offset (lay fields raws blank) bs
      (lay (fields.map (Slot.shift · offset)) raws bs) := by
  constructor
  · rw [List.map_take]
    exact (fit.shift offset).sameExcept there
  · intro slot member
    obtain ⟨k, low, rfl⟩ := List.mem_take_iff_getElem.mp member
    have field : fields[k]? = some fields[k] := List.getElem?_eq_getElem (by omega)
    have content : raws[k]? = some raws[k] := List.getElem?_eq_getElem (by omega)
    have elsewhere : (fields.map (Slot.shift · offset))[k]? = some (fields[k].shift offset) := by
      simp [field]
    rw [fit.window ordered inside field content]
    exact (fit.shift offset).window moved there elsewhere content

namespace Format

/-- Packing into an array at a common multiple of the alignments agrees with packing a new record: it
fails for the same reason, or writes the fields of the record and nothing else. A fault that no field
reports has no place. The array is none of the values, and no array has 2 ^ 63 bytes. -/
theorem packAt_placed (format : Format) (accepted : format.Accepted) (arguments : List Value)
    (checked : Bool) (fixed : ∀ v ∈ (spread arguments checked).1, v.Fixed) (offset : Int)
    (start : 0 ≤ offset)
    (aligned : ∀ slot ∈ (format.layout 0).slots,
      (format.convention.1.alignment slot.code : Int) ∣ offset)
    (bs : Bytes) (long : offset + (format.layout 0).size ≤ bs.length)
    (bounded : bs.length < 2 ^ 63) :
    match format.pack arguments checked with
    | .error fault =>
      (Fault.Shifted offset fault (fault.shift offset) ∨
        fault.IsUnreported ∧ fault.shift offset = fault) ∧ ∃ after,
      format.packAt offset arguments checked (.array bs) =
        .error (fault.shift offset) (.array after)
    | .ok record => ∃ after,
      format.packAt offset arguments checked (.array bs) = .ok () (.array after) ∧
        Placed ((format.layout 0).fields.take (spread arguments checked).1.length) offset record bs
          after := by
  have uses : ∀ slot ∈ (format.layout 0).fields, ∃ codec, slot.Uses codec := by
    intro slot member
    exact field_uses member
  have moved : (format.layout offset).fields =
      (format.layout 0).fields.map (Slot.shift · offset) := by
    rw [layout_shift aligned, Layout.fields_shift]
  have there : ∀ slot ∈ (format.layout offset).fields, Inside bs slot.offset slot.size := by
    rw [moved]
    exact shifted_within start long
  have small : (format.layout 0).size < 2 ^ 63 := by omega
  have ordered := format.fields_ordered offset
  rw [pack_contents (fault_of_accepted accepted 0) small fixed,
    packAt_contents (fault_of_accepted accepted offset) fixed there]
  rw [moved] at there ordered ⊢
  have fit := Layout.contents_fit (spread arguments checked).2 format.strictness
    (spread arguments checked).1 uses
  have faults := Layout.contents_fault (spread arguments checked).2 format.strictness
    (spread arguments checked).1 uses
  have lengths := Layout.length_contents (spread arguments checked).2 format.strictness
    (format.layout 0).fields (spread arguments checked).1
  rw [Layout.contents_shift]
  generalize Layout.contents _ _ _ _ = result at fit faults lengths ⊢
  obtain ⟨raws, _ | fault⟩ := result
  · have taken : (format.layout 0).fields.take raws.length =
        (format.layout 0).fields.take (spread arguments checked).1.length := by
      rw [List.take_eq_take_iff, lengths rfl]
      omega
    refine ⟨_, rfl, ?_⟩
    rw [← taken]
    exact fit.placed (format.fields_ordered 0) ordered format.fields_inside_blank there
  · refine ⟨?_, _, rfl⟩
    rcases faults rfl with kind | unreported
    · exact Or.inl (Fault.shifted_shift offset kind)
    · exact Or.inr ⟨unreported, Fault.shift_unreported offset unreported⟩

/-- The gap before the second field keeps what the array held, where the record has zeros. -/
theorem packAt_placed_gap :
    let format : Format := ⟨"@bi", Machine.default, Strictness.lenient⟩
    let before : Bytes := [255, 255, 255, 255, 255, 255, 255, 255, 255, 255, 255, 255, 255]
    let record : Bytes := [7, 0, 0, 0, 2, 1, 0, 0]
    let after : Bytes := [255, 255, 255, 255, 7, 255, 255, 255, 2, 1, 0, 0, 255]
    format.pack [.int 7, .int 258] true = .ok record ∧
      format.packAt 4 [.int 7, .int 258] true (.array before) = .ok () (.array after) ∧
      Placed ((format.layout 0).fields.take 2) 4 record before after := by
  have packed : (Format.mk "@bi" Machine.default Strictness.lenient).pack [.int 7, .int 258] true =
      .ok [7, 0, 0, 0, 2, 1, 0, 0] := rfl
  have written : (Format.mk "@bi" Machine.default Strictness.lenient).packAt 4
      [.int 7, .int 258] true
      (.array [255, 255, 255, 255, 255, 255, 255, 255, 255, 255, 255, 255, 255]) =
      .ok () (.array [255, 255, 255, 255, 7, 255, 255, 255, 2, 1, 0, 0, 255]) := rfl
  have fixed : ∀ v ∈ (spread [.int 7, .int 258] true).1, v.Fixed := by
    simp [spread, Value.Fixed, Value.resolve]
  have placed := packAt_placed ⟨"@bi", Machine.default, Strictness.lenient⟩ (by decide)
    [.int 7, .int 258] true fixed 4 (by decide) (by decide)
    [255, 255, 255, 255, 255, 255, 255, 255, 255, 255, 255, 255, 255] (by decide) (by decide)
  rw [packed] at placed
  obtain ⟨after, same, fields⟩ := placed
  cases written.symm.trans same
  exact ⟨packed, written, fields⟩

/-- An array packed into itself: its second value is taken after the first one was written, where a
new record takes both as they were. -/
theorem packAt_of_itself :
    let format : Format := ⟨"<x1s2s", Machine.default, Strictness.lenient⟩
    let before : Bytes := [97, 98, 99, 100]
    let record : Bytes := [0, 97, 97, 98]
    let after : Bytes := [97, 97, 97, 97]
    format.pack [.list [.array before, .array before]] true = .ok record ∧
      format.packAt 0 [.list [.target, .target]] true (.array before) = .ok () (.array after) ∧
      ¬ Placed ((format.layout 0).fields.take 2) 0 record before after := by
  have packed : (Format.mk "<x1s2s" Machine.default Strictness.lenient).pack
      [.list [.array [97, 98, 99, 100], .array [97, 98, 99, 100]]] true =
      .ok [0, 97, 97, 98] := rfl
  have written : (Format.mk "<x1s2s" Machine.default Strictness.lenient).packAt 0
      [.list [.target, .target]] true (.array [97, 98, 99, 100]) =
      .ok () (.array [97, 97, 97, 97]) := rfl
  have fields : ((Format.mk "<x1s2s" Machine.default Strictness.lenient).layout 0).fields.take 2 =
      [⟨.text, some .text, 1, 1⟩, ⟨.text, some .text, 2, 2⟩] := by
    decide
  intro format before record after
  refine ⟨packed, written, ?_⟩
  intro placed
  have second := placed.field ⟨.text, some .text, 2, 2⟩ (by rw [fields]; simp)
  exact absurd second (by decide)

end Format
end BinaryRecord
