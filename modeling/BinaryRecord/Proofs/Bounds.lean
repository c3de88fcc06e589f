import BinaryRecord.Proofs.Decoding

/-!
How much of the data a field needs. A checked reading wants every field to end within the data. An
unchecked one is content with less of a text: a plain one is cut, a counted one needs its count
alone. The first field that lacks bytes ends the reading, and no field fails for another reason
unless counts are refused.
-/
namespace BinaryRecord

open Storage Bytes

namespace Storage

variable {bs : Bytes} {offset : Int} {size : Nat} {fault : Fault}

theorem get_before_end (start : 0 ≤ offset) (before : offset < bs.length) :
    ∃ b, get bs offset = .ok b := by
  have low : offset.toNat < bs.length := by omega
  exact ⟨bs[offset.toNat], get_inside start (List.getElem?_eq_getElem low)⟩

theorem get_after_end (start : 0 ≤ offset) (after : (bs.length : Int) ≤ offset) :
    get bs offset = .error (.refused .index (.item offset)) := by
  have missing : bs.at? offset = none := by
    rw [at?, if_pos start]
    exact List.getElem?_eq_none (by omega)
  rw [get, missing]

theorem read_outside (beyond : ¬ Inside bs offset size) :
    read bs offset size = .error (outside bs offset size) := by
  rw [read, if_neg beyond]

theorem get_fault (failed : get bs offset = .error fault) : fault.IsReported := by
  unfold get at failed
  split at failed
  · cases failed
  · cases failed
    exact ⟨_, rfl, rfl⟩

theorem read_fault (failed : read bs offset size = .error fault) : fault.IsReported := by
  unfold read at failed
  split at failed
  · cases failed
  · cases failed
    exact ⟨_, rfl, rfl⟩

end Storage

theorem CountedText.read_fault {strict : Bool} {bs : Bytes} {offset length : Int} {fault : Fault}
    (failed : CountedText.read strict bs offset length = .error fault) :
    fault.IsReported ∨ ∃ count, fault = .countOverflow offset count length := by
  rcases error_of_bind (error_of_map failed) with byte | ⟨b, _, rest⟩
  · exact Or.inl (get_fault byte)
  · dsimp only at rest
    split at rest
    · cases rest
    · split at rest
      · cases rest
        exact Or.inr ⟨_, rfl⟩
      · cases rest

namespace Codec

variable {codec : Codec} {strictness : Strictness} {bs : Bytes} {offset : Int} {length : Nat}
  {fault : Fault}

def Reaches (codec : Codec) (bs : Bytes) (offset : Int) (length : Nat) : Prop :=
  match codec with
  | text => True
  | counted => offset < bs.length
  | _ => offset + length ≤ bs.length

theorem read_reached (spans : codec.Spans length) (lenient : strictness.counts = false)
    (start : 0 ≤ offset) (reached : codec.Reaches bs offset length) :
    ∃ v, codec.read strictness bs offset length = .ok v := by
  cases codec with
  | text => exact ⟨_, rfl⟩
  | counted =>
    obtain ⟨b, byte⟩ := get_before_end start reached
    unfold read CountedText.read CountedText.content
    rw [byte, lenient]
    change ∃ v, Except.bind (Except.bind (if (b.toNat : Int) < length then _ else _) _) _ = .ok v
    split <;> exact ⟨_, rfl⟩
  | _ =>
    rw [read_of_inside spans strictness ⟨start, reached⟩]
    exact ⟨_, rfl⟩

theorem readWord_outside (order : ByteOrder) (beyond : ¬ Inside bs offset 4) :
    readWord order bs offset = .error (outside bs offset 4) := by
  rw [readWord, Storage.read_outside beyond]
  rfl

theorem readQuad_outside (unsigned : Bool) (order : ByteOrder) (beyond : ¬ Inside bs offset 8) :
    ∃ fault, readQuad unsigned order bs offset = .error fault ∧ fault.IsReported := by
  unfold readQuad
  by_cases low : Inside bs (offset + (wordPlaces order).1) 4
  · have high : ¬ Inside bs (offset + (wordPlaces order).2) 4 := by
      cases order <;> simp only [wordPlaces, Int.add_zero] at low ⊢ <;> unfold Inside at * <;> omega
    rw [readWord_of_inside order low, readWord_outside order high]
    exact ⟨_, rfl, _, rfl, rfl⟩
  · rw [readWord_outside order low]
    exact ⟨_, rfl, _, rfl, rfl⟩

theorem read_unreached (strictness : Strictness) (spans : codec.Spans length) (start : 0 ≤ offset)
    (short : ¬ codec.Reaches bs offset length) :
    ∃ fault, codec.read strictness bs offset length = .error fault ∧ fault.IsReported := by
  cases codec with
  | number n order =>
    change length = n.width at spans
    subst spans
    have beyond : ¬ Inside bs offset n.width := fun inside => short inside.2
    change ∃ fault, (Storage.read bs offset n.width).bind _ = .error fault ∧ _
    rw [read_outside beyond]
    exact ⟨_, rfl, _, rfl, rfl⟩
  | quad unsigned order =>
    change length = 8 at spans
    subst spans
    exact readQuad_outside unsigned order fun inside => short inside.2
  | char | truth =>
    change length = 1 at spans
    subst spans
    change ¬ offset + 1 ≤ bs.length at short
    unfold read
    dsimp only
    rw [get_after_end start (by omega)]
    exact ⟨_, rfl, _, rfl, rfl⟩
  | text => exact absurd trivial short
  | counted =>
    change ¬ offset < bs.length at short
    unfold read CountedText.read CountedText.content
    rw [get_after_end start (by omega)]
    exact ⟨_, rfl, _, rfl, rfl⟩

theorem readWord_fault {order : ByteOrder} (failed : readWord order bs offset = .error fault) :
    fault.IsReported := by
  rcases error_of_bind failed with read | ⟨_, _, done⟩
  · exact Storage.read_fault read
  · cases done

theorem read_fault (failed : codec.read strictness bs offset length = .error fault) :
    fault.IsReported ∨ (codec = .counted ∧ ∃ count, fault = .countOverflow offset count length) := by
  cases codec with
  | number n order =>
    rcases error_of_bind failed with read | ⟨_, _, done⟩
    · exact Or.inl (Storage.read_fault read)
    · cases done
  | quad unsigned order =>
    rcases error_of_bind failed with low | ⟨_, _, rest⟩
    · exact Or.inl (readWord_fault low)
    · rcases error_of_bind rest with high | ⟨_, _, done⟩
      · exact Or.inl (readWord_fault high)
      · cases done
  | char | truth =>
    rcases error_of_bind failed with read | ⟨_, _, done⟩
    · exact Or.inl (get_fault read)
    · cases done
  | text => cases failed
  | counted =>
    rcases CountedText.read_fault (error_of_map failed) with plain | refused
    · exact Or.inl plain
    · exact Or.inr ⟨rfl, refused⟩

end Codec

namespace Slot

variable {slot : Slot} {codec : Codec} {checked : Bool} {strictness : Strictness} {bs : Bytes}
  {fault : Fault}

/-- Of `size` bytes enough are the field's to read it unchecked: all that it has, or the count of a
counted text, and none need be where a plain text is cut. -/
def Readable (slot : Slot) (size : Nat) : Prop :=
  (slot.code ≠ .text → slot.code ≠ .counted → slot.stop ≤ size) ∧
    (slot.code = .counted → slot.offset < size)

instance (slot : Slot) (size : Nat) : Decidable (slot.Readable size) :=
  inferInstanceAs (Decidable (_ ∧ _))

theorem readable_iff_reaches {machine : Machine} {order : ByteOrder}
    (found : slot.code.codec? machine order = some codec) :
    slot.Readable bs.length ↔ codec.Reaches bs slot.offset slot.size := by
  unfold Readable
  cases code : slot.code <;> rw [code] at found <;>
    simp only [FieldType.codec?, Option.some.injEq, reduceCtorEq] at found
  case pointer => split at found <;> subst found <;> simp [Codec.Reaches, stop]
  all_goals
    subst found
    simp [Codec.Reaches, stop]

theorem unpacked_truncated (uses : slot.Uses codec) (beyond : bs.length < slot.stop) :
    slot.unpacked true strictness bs = .error (.truncated slot.code.letter slot.offset) := by
  unfold unpacked unpack
  rw [uses.found]
  dsimp only
  rw [if_pos ⟨rfl, beyond⟩]

theorem unpacked_inside (uses : slot.Uses codec) (lenient : strictness.counts = false)
    (inside : Inside bs slot.offset slot.size) (checked : Bool) :
    ∃ v, slot.unpacked checked strictness bs = .ok v := by
  have reached : codec.Reaches bs slot.offset slot.size := by
    have spans := uses.spans
    have ends := inside.2
    cases codec with
    | text => trivial
    | counted =>
      change 1 ≤ slot.size at spans
      change slot.offset < bs.length
      omega
    | _ => exact ends
  obtain ⟨v, read⟩ := Codec.read_reached uses.spans lenient inside.1 reached
  have within : ¬ (checked = true ∧ (bs.length : Int) < slot.stop) := by
    unfold Inside at inside
    unfold stop
    omega
  refine ⟨v, unpacked_ok.mpr ⟨codec, uses.found, ?_⟩⟩
  rw [unpack, if_neg within, read]
  rfl

theorem unpacked_unchecked (uses : slot.Uses codec) :
    slot.unpacked false strictness bs = (codec.read strictness bs slot.offset slot.size).mapError
      (Fault.inUnpacking slot.code.letter slot.offset) := by
  unfold unpacked unpack
  rw [uses.found]
  dsimp only
  rw [if_neg (by simp)]

theorem unpacked_fault (uses : slot.Uses codec)
    (failed : slot.unpacked checked strictness bs = .error fault) :
    (fault.class? = some .truncated ∨ fault.class? = some .unpacking) ∧
      fault.chain = Fault.place slot.code.letter slot.offset := by
  unfold unpacked unpack at failed
  rw [uses.found] at failed
  dsimp only at failed
  split at failed
  · cases failed
    exact ⟨Or.inl rfl, rfl⟩
  · cases read : codec.read strictness bs slot.offset slot.size with
    | ok v => rw [read] at failed; cases failed
    | error cause =>
      rw [read] at failed
      cases failed
      rcases Codec.read_fault read with ⟨plain, reported, rfl⟩ | ⟨counted, count, rfl⟩
      · rw [Fault.inUnpacking, Fault.inField_reported _ reported]
        exact ⟨Or.inr rfl, rfl⟩
      · rw [uses.counted counted]
        exact ⟨Or.inr rfl, rfl⟩

end Slot

namespace Layout

variable {layout : Layout}

def Decodes (layout : Layout) (strictness : Strictness) (bs : Bytes) (values : List Value) : Prop :=
  List.Forall₂ (fun slot v => ∃ codec, slot.codec? = some codec ∧
    codec.read strictness bs slot.offset slot.size = .ok v) layout.fields values

theorem decodes_of_unpack {checked : Bool} {strictness : Strictness} {bs : Bytes}
    {values : List Value}
    (read : layout.unpack checked strictness bs = .ok values) :
    layout.Decodes strictness bs values := by
  refine ((unpack_fields _ _ _ _ _).mp read).2.imp ?_
  rintro slot v ⟨codec, found, unpacked⟩
  exact ⟨codec, found, Slot.read_of_unpack unpacked⟩

/-- Where all fields but bad ones can be read, the first bad one decides. -/
theorem unpack_first (checked : Bool) (strictness : Strictness) (bs : Bytes) (bad : Slot → Bool)
    (whole : layout.fault? = none)
    (good : ∀ slot ∈ layout.fields, bad slot = false →
      ∃ v, slot.unpacked checked strictness bs = .ok v) :
    match layout.fields.find? bad with
    | none => ∃ values, layout.unpack checked strictness bs = .ok values ∧
        layout.Decodes strictness bs values
    | some slot => ∀ fault, slot.unpacked checked strictness bs = .error fault →
        layout.unpack checked strictness bs = .error fault := by
  cases found : layout.fields.find? bad with
  | none =>
    have all : ∀ slot ∈ layout.fields, ∃ v, slot.unpacked checked strictness bs = .ok v := by
      intro slot member
      exact good slot member (by simpa using List.find?_eq_none.mp found slot member)
    obtain ⟨values, read⟩ := exists_each all
    have unpacked : layout.unpack checked strictness bs = .ok values := by
      rw [unpack_eq, mapM_ok.mpr read, whole]
      rfl
    exact ⟨values, unpacked, decodes_of_unpack unpacked⟩
  | some slot =>
    intro fault failed
    obtain ⟨_, first, rest, split, before⟩ := List.find?_eq_some_iff_append.mp found
    have early : ∀ other ∈ first, ∃ v, other.unpacked checked strictness bs = .ok v := by
      intro other member
      refine good other ?_ (by simpa using before other member)
      rw [split]
      exact List.mem_append_left _ member
    rw [unpack_eq, split, mapM_error early failed]
    rfl

end Layout

namespace Format

section Reading

variable {format : Format} {offset : Int} {slot : Slot}

theorem field_start (start : 0 ≤ offset) (field : slot ∈ (format.layout offset).fields) :
    0 ≤ slot.offset :=
  Int.le_trans start ((format.fields_ordered offset).bounds field).1

theorem unpack_checked (accepted : format.Accepted) (lenient : format.strictness.counts = false)
    (start : 0 ≤ offset) (bs : Bytes) :
    match (format.layout offset).fields.find? (fun slot => (bs.length : Int) < slot.stop) with
    | none => ∃ values, (format.layout offset).unpack true format.strictness bs = .ok values ∧
        (format.layout offset).Decodes format.strictness bs values
    | some slot => (format.layout offset).unpack true format.strictness bs =
        .error (.truncated slot.code.letter slot.offset) := by
  have first := Layout.unpack_first true format.strictness bs
    (fun slot => (bs.length : Int) < slot.stop) (fault_of_accepted accepted offset) (by
      intro slot field ends
      obtain ⟨codec, uses⟩ := field_uses field
      have inside : Inside bs slot.offset slot.size :=
        ⟨field_start start field, Int.not_lt.mp (of_decide_eq_false ends)⟩
      exact Slot.unpacked_inside uses lenient inside true)
  split
  · rename_i none
    rw [none] at first
    exact first
  · rename_i slot found
    rw [found] at first
    obtain ⟨codec, uses⟩ := field_uses (List.mem_of_find?_eq_some found)
    have beyond : (bs.length : Int) < slot.stop := by simpa using List.find?_some found
    exact first _ (Slot.unpacked_truncated uses beyond)

theorem unpack_unchecked (accepted : format.Accepted) (lenient : format.strictness.counts = false)
    (start : 0 ≤ offset) (bs : Bytes) :
    match (format.layout offset).fields.find? (fun slot => ¬ slot.Readable bs.length) with
    | none => ∃ values, (format.layout offset).unpack false format.strictness bs = .ok values ∧
        (format.layout offset).Decodes format.strictness bs values
    | some slot => ∃ fault, (format.layout offset).unpack false format.strictness bs =
        .error (.unpacking slot.code.letter slot.offset fault) := by
  have first := Layout.unpack_first false format.strictness bs
    (fun slot => ¬ slot.Readable bs.length) (fault_of_accepted accepted offset) (by
      intro slot field readable
      obtain ⟨codec, uses⟩ := field_uses field
      have reached := (Slot.readable_iff_reaches (field_found field uses)).mp
        (not_not.mp (of_decide_eq_false readable))
      obtain ⟨v, read⟩ := Codec.read_reached uses.spans lenient (field_start start field) reached
      exact ⟨v, by rw [Slot.unpacked_unchecked uses, read]; rfl⟩)
  split
  · rename_i none
    rw [none] at first
    exact first
  · rename_i slot found
    rw [found] at first
    have field := List.mem_of_find?_eq_some found
    obtain ⟨codec, uses⟩ := field_uses field
    have unreadable : ¬ slot.Readable bs.length := by simpa using List.find?_some found
    rw [Slot.readable_iff_reaches (field_found field uses)] at unreadable
    obtain ⟨_, read, plain, reported, rfl⟩ := Codec.read_unreached format.strictness uses.spans
      (field_start start field) unreadable
    refine ⟨plain, first _ ?_⟩
    rw [Slot.unpacked_unchecked uses, read]
    exact congrArg Except.error (Fault.inField_reported _ reported)

theorem unpack_unchecked_of_checked (accepted : format.Accepted)
    (lenient : format.strictness.counts = false) (start : 0 ≤ offset) {bs : Bytes}
    {values : List Value}
    (read : (format.layout offset).unpack true format.strictness bs = .ok values) :
    (format.layout offset).unpack false format.strictness bs = .ok values := by
  have uses : ∀ slot ∈ (format.layout offset).fields, ∃ codec, slot.Uses codec := by
    intro slot field
    exact field_uses field
  have inside : ∀ slot ∈ (format.layout offset).fields, Inside bs slot.offset slot.size := by
    intro slot field
    have checked := unpack_checked accepted lenient start bs
    split at checked
    · rename_i none
      have ends : slot.stop ≤ bs.length := by simpa using List.find?_eq_none.mp none slot field
      exact ⟨field_start start field, ends⟩
    · cases read.symm.trans checked
  exact (Layout.unpack_ok false _ uses inside values).mpr
    ((Layout.unpack_ok true _ uses inside values).mp read)

end Reading

theorem unpackAt_fault {format : Format} (accepted : format.Accepted) {data : Value} {bs : Bytes}
    (taken : Storage.ofData data = .ok bs) {checked : Bool} {offset : Int} {fault : Fault}
    (failed : format.unpackAt data checked offset = .error fault) :
    (fault.class? = some .truncated ∨ fault.class? = some .unpacking) ∧
      ∃ slot ∈ (format.layout offset).fields,
        fault.chain = Fault.place slot.code.letter slot.offset := by
  rw [unpackAt_eq format taken, Layout.unpack_eq, fault_of_accepted accepted] at failed
  rcases error_of_bind failed with read | ⟨_, _, done⟩
  · obtain ⟨slot, field, refused⟩ := mem_of_mapM_error read
    obtain ⟨codec, uses⟩ := field_uses field
    obtain ⟨kind, chain⟩ := Slot.unpacked_fault uses refused
    exact ⟨kind, slot, field, chain⟩
  · cases done

/-- A checked reading fails at the first field that ends beyond the data, and an unchecked one at the
first that cannot be read. Without such a field there is one value for every field, the same in
both. -/
theorem unpackAt_bounds (format : Format) (accepted : format.Accepted)
    (lenient : format.strictness.counts = false) (data : Value) (bs : Bytes)
    (taken : Storage.ofData data = .ok bs) (offset : Int) (start : 0 ≤ offset) :
    (match (format.layout offset).fields.find? (fun slot => (bs.length : Int) < slot.stop) with
    | none => ∃ values, format.unpackAt data true offset = .ok values ∧
        (format.layout offset).Decodes format.strictness bs values
    | some slot =>
      format.unpackAt data true offset = .error (.truncated slot.code.letter slot.offset)) ∧
    (match (format.layout offset).fields.find? (fun slot => ¬ slot.Readable bs.length) with
    | none => ∃ values, format.unpackAt data false offset = .ok values ∧
        (format.layout offset).Decodes format.strictness bs values
    | some slot => ∃ fault, format.unpackAt data false offset =
        .error (.unpacking slot.code.letter slot.offset fault)) ∧
    ∀ values, format.unpackAt data true offset = .ok values →
      format.unpackAt data false offset = .ok values := by
  rw [unpackAt_eq format taken, unpackAt_eq format taken]
  refine ⟨unpack_checked accepted lenient start bs, unpack_unchecked accepted lenient start bs, ?_⟩
  intro values read
  exact unpack_unchecked_of_checked accepted lenient start read

/-- Five bytes: the text is cut, which only a checked reading minds, and the counted text has none. -/
theorem unpackAt_bounds_cut :
    let format : Format := ⟨"<xh3sp", Machine.default, Strictness.lenient⟩
    format.unpackAt (.bytes [1, 2, 3, 4, 5]) true 0 = .error (.truncated 's' 3) ∧
      ∃ fault, format.unpackAt (.bytes [1, 2, 3, 4, 5]) false 0 = .error (.unpacking 'p' 6 fault) := by
  intro format
  have fields : (format.layout 0).fields = [⟨.int16, some (.number (.int 2) .little), 1, 2⟩,
      ⟨.text, some .text, 3, 3⟩, ⟨.counted, some .counted, 6, 1⟩] := by decide
  obtain ⟨checked, unchecked, _⟩ := unpackAt_bounds format (by decide) rfl (.bytes [1, 2, 3, 4, 5])
    [1, 2, 3, 4, 5] rfl 0 (Int.le_refl 0)
  rw [fields] at checked unchecked
  exact ⟨checked, unchecked⟩

end Format
end BinaryRecord
