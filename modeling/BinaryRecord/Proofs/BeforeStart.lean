import BinaryRecord.Proofs.Bounds
import BinaryRecord.Proofs.Frame

/-!
Records with fields before the start of the data. Nothing is written there, and no number is read.
But single bytes and slices are taken at positions that count from either end, so the fields of the
codecs that read these are found at the end of the data instead.
-/
namespace BinaryRecord

open Storage Bytes

namespace Bytes

variable {bs : Bytes} {i j : Int}

theorem bound_from_end {length : Nat} {i : Int} (low : 0 ≤ i + length) (before : i < 0) :
    bound length (i + length) = bound length i := by
  simp only [bound, if_pos before, if_neg (Int.not_lt.mpr low)]
  omega

theorem slice_from_end (low : 0 ≤ i + bs.length) (before : i < 0) (lowStop : 0 ≤ j + bs.length)
    (beforeStop : j < 0) : bs.slice (i + bs.length) (j + bs.length) = bs.slice i j := by
  simp only [slice, bound_from_end low before, bound_from_end lowStop beforeStop]

theorem at?_from_end (low : 0 ≤ i + bs.length) (before : i < 0) :
    bs.at? (i + bs.length) = bs.at? i := by
  simp only [at?, if_pos low, if_neg (Int.not_le.mpr before)]

theorem at?_some : (∃ b, bs.at? i = some b) ↔ 0 ≤ i + bs.length ∧ i < bs.length := by
  simp only [at?, ← Option.isSome_iff_exists]
  split
  · simp only [isSome_getElem?]
    omega
  · split
    · simp only [isSome_getElem?]
      omega
    · simp only [Option.isSome_none, Bool.false_eq_true, false_iff]
      omega

end Bytes

namespace Storage

variable {bs : Bytes} {position : Int}

theorem get_ok {b : UInt8} : get bs position = .ok b ↔ bs.at? position = some b := by
  unfold get
  cases bs.at? position <;> simp

theorem get_from_end (low : 0 ≤ position + bs.length) (before : position < 0) {b : UInt8}
    (found : get bs position = .ok b) : get bs (position + bs.length) = .ok b := by
  rw [get_ok] at found ⊢
  rw [at?_from_end low before, found]

theorem readSlice_from_end {size : Int} (low : 0 ≤ position + bs.length) (nonneg : 0 ≤ size)
    (before : position + size < 0) :
    readSlice bs (position + bs.length) size = readSlice bs position size := by
  have stop : position + bs.length + size = position + size + bs.length := by omega
  rw [readSlice, stop, slice_from_end low (by omega) (by omega) before, readSlice]

end Storage

theorem PlainText.content_from_end {bs : Bytes} {offset length : Int} (low : 0 ≤ offset + bs.length)
    (positive : 0 ≤ length) (before : offset + length < 0) :
    content bs (offset + bs.length) length = content bs offset length := by
  have start := bound_from_end low (by omega)
  have stop : bound bs.length (offset + length + bs.length) = bound bs.length (offset + length) :=
    bound_from_end (by omega) before
  have moved : offset + bs.length + length = offset + length + bs.length := by omega
  have found : bs.find? 0 (offset + bs.length) (offset + length + bs.length) =
      bs.find? 0 offset (offset + length) := by
    simp only [find?, slice, start, stop]
  simp only [content, moved, found]
  cases bs.find? 0 offset (offset + length) with
  | none => simp only [Option.map_none, Option.getD_none, slice, start, stop]
  | some k => simp only [Option.map_some, Option.getD_some, slice, start]

namespace CountedText

variable {strict : Bool} {bs : Bytes} {offset : Int} {length : Nat} {raw : Bytes}

theorem content_ok : (∃ raw, content strict bs offset length = .ok raw) ↔
    ∃ b, bs.at? offset = some b ∧ (strict = true → b.toNat < length) := by
  simp only [← get_ok]
  unfold content
  cases get bs offset with
  | error fault =>
    constructor
    · rintro ⟨raw, failed⟩
      cases failed
    · rintro ⟨b, failed, _⟩
      cases failed
  | ok b =>
    change (∃ raw, (if (b.toNat : Int) < length then _ else _) = _) ↔ _
    by_cases short : b.toNat < length
    · rw [if_pos (by omega)]
      exact ⟨fun _ => ⟨b, rfl, fun _ => short⟩, fun _ => ⟨_, rfl⟩⟩
    · rw [if_neg (by omega)]
      cases strict <;> simp [short, pure, Except.pure, throw, throwThe, MonadExceptOf.throw]

theorem content_from_end (positive : 1 ≤ length) (low : 0 ≤ offset + bs.length)
    (before : offset + length < 0) (read : content strict bs offset length = .ok raw) :
    content strict bs (offset + bs.length) length = .ok raw := by
  have next : offset + bs.length + 1 = offset + 1 + bs.length := by omega
  unfold content at read ⊢
  obtain ⟨b, found, read⟩ := ok_of_bind read
  rw [get_from_end low (by omega) found]
  change (if (b.toNat : Int) < length then _ else _) = _
  by_cases short : (b.toNat : Int) < length
  · rw [if_pos short] at read ⊢
    rw [next, readSlice_from_end (by omega) (by omega) (by omega)]
    exact read
  · rw [if_neg short] at read ⊢
    cases strict with
    | true => cases read
    | false =>
      rw [next, readSlice_from_end (by omega) (by omega) (by omega)]
      exact read

end CountedText

namespace Codec

variable {codec : Codec} {strictness : Strictness} {bs : Bytes} {offset : Int} {length : Nat}

/-- The data holds what reading a field of the codec looks at, whether it starts before the data or
not. A single byte is there when its position is one counted from either end. -/
def Finds (codec : Codec) (strictness : Strictness) (bs : Bytes) (offset : Int) (length : Nat) :
    Prop :=
  match codec with
  | text => True
  | char | truth => 0 ≤ offset + bs.length ∧ offset < bs.length
  | counted => ∃ b, bs.at? offset = some b ∧ (strictness.counts = true → b.toNat < length)
  | _ => Inside bs offset length

def FromEnd (codec : Codec) (bs : Bytes) (offset : Int) (length : Nat) : Prop :=
  match codec with
  | char | truth => 0 ≤ offset + bs.length ∧ offset < 0
  | text | counted => 0 ≤ offset + bs.length ∧ offset + length < 0
  | _ => False

theorem read_ok (spans : codec.Spans length) :
    (∃ v, codec.read strictness bs offset length = .ok v) ↔
      codec.Finds strictness bs offset length := by
  cases codec with
  | number n order =>
    by_cases inside : Inside bs offset length
    · exact ⟨fun _ => inside, fun _ => ⟨_, read_of_inside spans strictness inside⟩⟩
    · have missed : n.read order bs offset = .error (outside bs offset n.width) := by
        change length = n.width at spans
        rw [Number.read, read_outside (spans ▸ inside)]
        rfl
      simp [Finds, read, inside, missed]
  | quad unsigned order =>
    by_cases inside : Inside bs offset length
    · exact ⟨fun _ => inside, fun _ => ⟨_, read_of_inside spans strictness inside⟩⟩
    · change length = 8 at spans
      obtain ⟨fault, missed, _⟩ := readQuad_outside unsigned order (spans ▸ inside)
      simp [Finds, read, inside, missed]
  | char | truth =>
    change _ ↔ 0 ≤ offset + bs.length ∧ offset < bs.length
    rw [← at?_some]
    simp only [← get_ok]
    unfold read
    dsimp only
    cases get bs offset with
    | ok b => exact ⟨fun _ => ⟨b, rfl⟩, fun _ => ⟨_, rfl⟩⟩
    | error fault =>
      constructor
      · rintro ⟨v, failed⟩
        cases failed
      · rintro ⟨b, failed⟩
        cases failed
  | text => exact ⟨fun _ => trivial, fun _ => ⟨_, rfl⟩⟩
  | counted =>
    change _ ↔ ∃ b, _
    rw [← CountedText.content_ok]
    constructor
    · rintro ⟨v, done⟩
      obtain ⟨s, done, _⟩ := ok_of_bind done
      obtain ⟨raw, done, _⟩ := ok_of_bind done
      exact ⟨raw, done⟩
    · rintro ⟨raw, done⟩
      unfold read CountedText.read
      rw [done]
      exact ⟨_, rfl⟩

theorem read_from_end (spans : codec.Spans length) (turned : codec.FromEnd bs offset length)
    {v : Value} (done : codec.read strictness bs offset length = .ok v) :
    codec.read strictness bs (offset + bs.length) length = .ok v := by
  cases codec with
  | number n order | quad unsigned order => exact absurd turned id
  | char | truth =>
    obtain ⟨b, found, shown⟩ := ok_of_bind done
    unfold read
    dsimp only
    rw [get_from_end turned.1 turned.2 found, ← shown]
    rfl
  | text =>
    have same := PlainText.content_from_end turned.1 (Int.natCast_nonneg length) turned.2
    unfold read PlainText.read at done ⊢
    dsimp only at done ⊢
    rw [same, done]
  | counted =>
    obtain ⟨s, done, shown⟩ := ok_of_bind done
    obtain ⟨raw, done, decoded⟩ := ok_of_bind done
    have same := CountedText.content_from_end spans turned.1 turned.2 done
    unfold read CountedText.read
    rw [same, ← shown]
    cases decoded
    rfl

end Codec

namespace Slot

variable {slot : Slot} {codec : Codec} {checked : Bool} {strictness : Strictness} {bs : Bytes}

/-- The field can be read: it does not end beyond the data where that is checked, and its codec finds
what it looks at. -/
def Obtainable (slot : Slot) (checked : Bool) (strictness : Strictness) (bs : Bytes) : Prop :=
  (checked = true → slot.stop ≤ bs.length) ∧
    ∃ codec, slot.codec? = some codec ∧ codec.Finds strictness bs slot.offset slot.size

theorem obtainable_iff (uses : slot.Uses codec) : slot.Obtainable checked strictness bs ↔
    ∃ v, slot.unpacked checked strictness bs = .ok v := by
  simp only [unpacked_ok]
  unfold Obtainable unpack
  constructor
  · rintro ⟨ends, codec, found, finds⟩
    cases uses.found.symm.trans found
    obtain ⟨v, read⟩ := (Codec.read_ok uses.spans).mpr finds
    have within : ¬ (checked = true ∧ (bs.length : Int) < slot.stop) := by
      rintro ⟨strict, beyond⟩
      exact Int.not_lt.mpr (ends strict) beyond
    refine ⟨v, codec, found, ?_⟩
    rw [if_neg within, read]
    rfl
  · rintro ⟨v, codec, found, done⟩
    cases uses.found.symm.trans found
    split at done
    · cases done
    · rename_i within
      refine ⟨?_, codec, found, (Codec.read_ok uses.spans).mp ⟨v, mapError_ok.mp done⟩⟩
      intro strict
      exact Int.not_lt.mp fun beyond => within ⟨strict, beyond⟩

theorem reads_from_end (uses : slot.Uses codec) (turned : codec.FromEnd bs slot.offset slot.size)
    {v : Value} (read : codec.read strictness bs slot.offset slot.size = .ok v) :
    (slot.shift bs.length).Reads strictness bs v := by
  have usesThere : (slot.shift bs.length).Uses codec := ⟨uses.found, uses.spans, uses.counted⟩
  have inside : Inside bs (slot.offset + bs.length) slot.size := by
    have spans := uses.spans
    cases codec with
    | number n order | quad unsigned order => exact absurd turned id
    | char | truth =>
      obtain ⟨low, before⟩ := turned
      change slot.size = 1 at spans
      exact ⟨low, by omega⟩
    | text | counted =>
      obtain ⟨low, before⟩ := turned
      exact ⟨low, by omega⟩
  refine ⟨codec, usesThere, ?_⟩
  have there := Codec.read_from_end uses.spans turned read
  rw [Codec.read_of_inside uses.spans strictness inside] at there
  exact there

end Slot

namespace Format

variable {format : Format} {bs : Bytes} {checked : Bool} {offset : Int}

theorem unpack_obtainable (accepted : format.Accepted) :
    (∃ values, (format.layout offset).unpack checked format.strictness bs = .ok values) ↔
      ∀ slot ∈ (format.layout offset).fields, slot.Obtainable checked format.strictness bs := by
  have whole := fault_of_accepted accepted offset
  simp only [Layout.unpack_fields, whole, true_and, ← Slot.unpacked_ok]
  constructor
  · rintro ⟨values, read⟩ slot field
    obtain ⟨codec, uses⟩ := field_uses field
    exact (Slot.obtainable_iff uses).mpr (partner_of_mem read field)
  · intro obtainable
    apply exists_each
    intro slot field
    obtain ⟨codec, uses⟩ := field_uses field
    exact (Slot.obtainable_iff uses).mp (obtainable slot field)

theorem packAt_before {slot : Slot} (field : slot ∈ (format.layout offset).fields)
    (before : slot.offset < 0) {arguments : List Value} (given : (spread arguments checked).1 ≠ [])
    (array : Bytes) :
    ∃ first fault after, (format.layout offset).fields.head? = some first ∧
      format.packAt offset arguments checked (.array array) = .error fault (.array after) ∧
      (fault.class? = some .packing ∧ fault.chain = Fault.place first.code.letter first.offset ∨
        fault.IsUnreported) := by
  rw [packAt_eq, Layout.packOnto_array]
  have ordered := format.fields_ordered offset
  have uses : ∀ slot ∈ (format.layout offset).fields, ∃ codec, slot.Uses codec := by
    intro slot field
    exact field_uses field
  cases fields : (format.layout offset).fields with
  | nil =>
    rw [fields] at field
    cases field
  | cons first rest =>
    rw [fields] at field ordered uses
    obtain ⟨v, left, values⟩ := List.exists_cons_of_ne_nil given
    obtain ⟨codec, used⟩ := uses first List.mem_cons_self
    have early : first.offset < 0 := by
      rcases List.mem_cons.mp field with rfl | later
      · exact before
      · have := (ordered.2.bounds later).1
        have := first.offset_le_stop
        omega
    have refused : ¬ ((∃ raw, codec.encode format.strictness (v.resolve array) first.offset
        first.size = .ok raw) ∧ Inside array first.offset first.size) :=
      fun written => Int.not_le.mpr early written.2.1
    obtain ⟨fault, after, failed, fails, _⟩ := Slot.pack_refused used refused
    rw [values, Layout.packFields_refused used.found failed]
    exact ⟨first, fault, after, rfl, rfl, fails.imp_right fun passed => passed.2.2⟩

/-- A record is read if and only if each of its fields can be read, wherever the record starts.
Numbers before the start of the data are therefore refused, and a fault names a field. The fields that
are looked for at the end of the data have the values of the fields that lie there. Nothing is packed
before the start of an array. -/
theorem unpackAt_before_start (format : Format) (accepted : format.Accepted) (data : Value)
    (bs : Bytes) (taken : Storage.ofData data = .ok bs) (checked : Bool) (offset : Int) :
    let fields := (format.layout offset).fields
    ((∃ values, format.unpackAt data checked offset = .ok values) ↔
      ∀ slot ∈ fields, slot.Obtainable checked format.strictness bs) ∧
    (∀ fault, format.unpackAt data checked offset = .error fault →
      (fault.class? = some .truncated ∨ fault.class? = some .unpacking) ∧
      ∃ slot ∈ fields, fault.chain = Fault.place slot.code.letter slot.offset) ∧
    (∀ values, format.unpackAt data checked offset = .ok values →
      List.Forall₂ (fun slot v => ∃ codec, slot.codec? = some codec ∧
        (codec.FromEnd bs slot.offset slot.size →
          (slot.shift bs.length).Reads format.strictness bs v)) fields values) ∧
    ∀ slot ∈ fields, slot.offset < 0 → ∀ arguments flag, (spread arguments flag).1 ≠ [] → ∀ array,
      ∃ first fault after, fields.head? = some first ∧
        format.packAt offset arguments flag (.array array) = .error fault (.array after) ∧
        (fault.class? = some .packing ∧ fault.chain = Fault.place first.code.letter first.offset ∨
          fault.IsUnreported) := by
  intro fields
  refine ⟨?_, ?_, ?_, ?_⟩
  · rw [unpackAt_eq format taken]
    exact unpack_obtainable accepted
  · intro fault failed
    exact unpackAt_fault accepted taken failed
  · intro values read
    rw [unpackAt_eq format taken] at read
    have decoded := Layout.decodes_of_unpack read
    rw [Layout.Decodes, List.forall₂_iff_zip] at decoded
    refine List.forall₂_iff_zip.mpr ⟨decoded.1, ?_⟩
    intro slot v paired
    obtain ⟨codec, found, value⟩ := decoded.2 paired
    obtain ⟨_, uses⟩ := field_uses (List.of_mem_zip paired).1
    cases uses.found.symm.trans found
    exact ⟨codec, found, fun turned => Slot.reads_from_end uses turned value⟩
  · intro slot field before arguments flag given array
    exact packAt_before field before given array

/-- The last byte is read as the character before the first one, where none is written. -/
theorem unpackAt_before_start_char :
    let format : Format := ⟨"<c", Machine.default, Strictness.lenient⟩
    format.unpackAt (.bytes [97, 98]) true (-1) = .ok [.text "b"] ∧
      (∃ fault after, format.packAt (-1) [.text "b"] true (.array [97, 98]) =
        .error fault (.array after) ∧ fault.class? = some .packing ∧
        fault.chain = [.text "c", .int (-1)]) := by
  have fields : ((Format.mk "<c" Machine.default Strictness.lenient).layout (-1)).fields =
      [⟨.char, some .char, -1, 1⟩] := by decide
  have last : ∀ v, (Slot.shift ⟨.char, some .char, -1, 1⟩ 2).Reads Strictness.lenient [97, 98] v →
      v = .text "b" := by
    rintro v ⟨codec, uses, decoded⟩
    cases uses.found
    cases decoded
    rfl
  have refused : (Format.mk "<c" Machine.default Strictness.lenient).packAt (-1) [.text "b"] true
      (.array [97, 98]) = .error (.packing 'c' (-1) (.outside 1 (-1) 2)) (.array [97, 98]) := rfl
  intro format
  obtain ⟨obtained, _, values, packing⟩ := unpackAt_before_start format (by decide)
    (.bytes [97, 98]) [97, 98] rfl true (-1)
  rw [fields] at obtained values packing
  constructor
  · obtain ⟨vs, read⟩ := obtained.mpr (by
      intro slot field
      cases List.mem_singleton.mp field
      exact ⟨fun _ => by decide, .char, rfl, by decide, by decide⟩)
    rw [read]
    cases values vs read with
    | cons head rest =>
      cases rest
      obtain ⟨codec, found, turned⟩ := head
      cases found
      rw [last _ (turned ⟨by decide, by decide⟩)]
  · obtain ⟨first, fault, after, head, failed, named⟩ := packing _ List.mem_cons_self
      (by decide) [.text "b"] true (by decide) [97, 98]
    cases head
    refine ⟨fault, after, failed, named.resolve_right ?_⟩
    rintro ⟨v, rfl⟩
    cases refused.symm.trans failed

end Format
end BinaryRecord
