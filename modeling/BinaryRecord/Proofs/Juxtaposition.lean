import BinaryRecord.Proofs.Continuation
import BinaryRecord.Proofs.Relocation

/-!
One format written after another, and their records one after the other. Where the first one ends at a
multiple of the alignments of the second, the joined format packs and unpacks the two parts as each
does alone, and a fault of the second part only names a place farther on.
-/
namespace BinaryRecord

open Storage Bytes

def PlainFault.after (n : Nat) : PlainFault → PlainFault
  | outside size offset length => outside size (offset + n) (n + length)
  | refused kind (.item position) => refused kind (.item (position + n))
  | fault => fault

namespace Fault

/-- The fault of the same field where `n` more bytes come first. It differs from the shifted fault only
in the place that an access outside of a storage asks for, and the number of bytes that it reports. -/
def after (n : Nat) : Fault → Fault
  | plain fault => plain (fault.after n)
  | unpacking c offset fault => unpacking c (offset + n) (fault.after n)
  | packing c offset fault => packing c (offset + n) (fault.after n)
  | fault => fault.shift n

theorem kind_after (n : Nat) (fault : PlainFault) : (fault.after n).kind = fault.kind := by
  unfold PlainFault.after
  split <;> rfl

theorem after_inUnpacking (c : Char) (offset : Int) (n : Nat) (fault : Fault) :
    inUnpacking c (offset + n) (fault.after n) = (inUnpacking c offset fault).after n := by
  cases fault with
  | plain cause =>
    change (if (cause.after n).kind.isReported then _ else _) =
      (if cause.kind.isReported then _ else _ : Fault).after n
    rw [kind_after]
    split <;> rfl
  | _ => rfl

end Fault

section Reads

variable {first second : Bytes} {offset : Int}

namespace Bytes

theorem bound_append {i : Int} (start : 0 ≤ i) (n m : Nat) :
    bound (n + m) (i + n) = n + bound m i := by
  unfold bound
  rw [if_neg (by omega), if_neg (by omega)]
  omega

theorem slice_append {start stop : Int} (low : 0 ≤ start) (high : 0 ≤ stop) :
    (first ++ second).slice (start + first.length) (stop + first.length) =
      second.slice start stop := by
  rw [slice, slice, List.length_append, bound_append high, bound_append low,
    List.take_length_add_append, List.drop_length_add_append]

theorem find_append {start stop : Int} (low : 0 ≤ start) (high : 0 ≤ stop) (b : UInt8) :
    (first ++ second).find? b (start + first.length) (stop + first.length) =
      (second.find? b start stop).map (first.length + ·) := by
  rw [find?, find?, slice_append low high, List.length_append, bound_append low, Option.map_map]
  congr 1
  funext k
  exact Nat.add_assoc _ _ _

end Bytes

namespace Storage

theorem read_append (start : 0 ≤ offset) (size : Nat) :
    read (first ++ second) (offset + first.length) size =
      (read second offset size).mapError (Fault.after first.length) := by
  have lengths : (first ++ second).length = first.length + second.length := List.length_append
  by_cases inside : Inside second offset size
  · have there : Inside (first ++ second) (offset + first.length) size := by
      unfold Inside at *
      omega
    have place : (offset + first.length).toNat = first.length + offset.toNat := by omega
    rw [read, if_pos there, place, window_append_right, read, if_pos inside]
    rfl
  · have beyond : ¬ Inside (first ++ second) (offset + first.length) size := by
      unfold Inside at *
      omega
    rw [read, if_neg beyond, read, if_neg inside, outside, lengths]
    rfl

theorem get_append (start : 0 ≤ offset) :
    get (first ++ second) (offset + first.length) =
      (get second offset).mapError (Fault.after first.length) := by
  have place : (offset + first.length).toNat = first.length + offset.toNat := by omega
  have byte : (first ++ second).at? (offset + first.length) = second.at? offset := by
    rw [at?, at?, if_pos (by omega), if_pos start, place, List.getElem?_append_right (by omega),
      Nat.add_sub_cancel_left]
  rw [get, get, byte]
  cases second.at? offset <;> rfl

end Storage

namespace PlainText

theorem read_append (start : 0 ≤ offset) (length : Nat) :
    read (first ++ second) (offset + first.length) length = read second offset length := by
  have stop : offset + first.length + length = offset + length + first.length := by omega
  have found : (first ++ second).find? 0 (offset + first.length) (offset + length + first.length) =
      (second.find? 0 offset (offset + length)).map (first.length + ·) :=
    find_append start (by omega) 0
  unfold read content
  rw [stop, found]
  cases second.find? 0 offset (offset + length) with
  | none => exact congrArg _ (slice_append start (by omega))
  | some k =>
    have place : Int.ofNat (first.length + k) = Int.ofNat k + first.length := by
      simp only [Int.ofNat_eq_natCast]
      omega
    simp only [Option.map_some, Option.getD_some, place]
    exact congrArg _ (slice_append start (Int.natCast_nonneg k))

end PlainText

namespace CountedText

theorem read_append (strict : Bool) (start : 0 ≤ offset) {length : Nat} (positive : 1 ≤ length) :
    read strict (first ++ second) (offset + first.length) length =
      (read strict second offset length).mapError (Fault.after first.length) := by
  have slice : ∀ size : Int, 0 ≤ size →
      readSlice (first ++ second) (offset + first.length + 1) size =
        readSlice second (offset + 1) size := by
    intro size low
    have next : offset + first.length + 1 = offset + 1 + first.length := by omega
    have stop : offset + 1 + first.length + size = offset + 1 + size + first.length := by omega
    rw [readSlice, readSlice, next, stop]
    exact slice_append (by omega) (by omega)
  unfold read content
  rw [get_append start]
  cases Storage.get second offset with
  | error fault => rfl
  | ok b =>
    change Except.bind (if (b.toNat : Int) < length then _ else _) _ = Except.mapError _
      (Except.bind (if (b.toNat : Int) < length then _ else _) _)
    by_cases short : (b.toNat : Int) < length
    · rw [if_pos short, if_pos short, slice _ (by omega)]
      rfl
    · rw [if_neg short, if_neg short, slice _ (by omega)]
      cases strict <;> rfl

end CountedText

namespace Codec

theorem readWord_append (order : ByteOrder) (start : 0 ≤ offset) :
    readWord order (first ++ second) (offset + first.length) =
      (readWord order second offset).mapError (Fault.after first.length) := by
  unfold readWord
  rw [Storage.read_append start]
  cases Storage.read second offset 4 <;> rfl

theorem readQuad_append (unsigned : Bool) (order : ByteOrder) (start : 0 ≤ offset) :
    readQuad unsigned order (first ++ second) (offset + first.length) =
      (readQuad unsigned order second offset).mapError (Fault.after first.length) := by
  have word : ∀ distance : Int, 0 ≤ distance →
      readWord order (first ++ second) (offset + first.length + distance) =
        (readWord order second (offset + distance)).mapError (Fault.after first.length) := by
    intro distance forward
    have place : offset + first.length + distance = offset + distance + first.length := by omega
    rw [place]
    exact readWord_append order (by omega)
  have places : 0 ≤ (wordPlaces order).1 ∧ 0 ≤ (wordPlaces order).2 := by
    cases order <;> decide
  unfold readQuad
  rw [word _ places.1, word _ places.2]
  cases readWord order second (offset + (wordPlaces order).1) with
  | error fault => rfl
  | ok low => cases readWord order second (offset + (wordPlaces order).2) <;> rfl

/-- No codec reads what comes before its field, also where the field is not wholly there. -/
theorem read_append {codec : Codec} {length : Nat} (spans : codec.Spans length)
    (strictness : Strictness) (start : 0 ≤ offset) :
    codec.read strictness (first ++ second) (offset + first.length) length =
      (codec.read strictness second offset length).mapError (Fault.after first.length) := by
  cases codec with
  | number n order =>
    simp only [read, Number.read]
    rw [Storage.read_append start]
    cases Storage.read second offset n.width <;> rfl
  | quad unsigned order => exact readQuad_append unsigned order start
  | char | truth =>
    simp only [read]
    rw [get_append start]
    cases Storage.get second offset <;> rfl
  | text =>
    simp only [read]
    rw [PlainText.read_append start]
    rfl
  | counted =>
    simp only [read]
    rw [CountedText.read_append _ start spans]
    cases CountedText.read strictness.counts second offset length <;> rfl

end Codec
end Reads

namespace Slot

variable {slot : Slot} {codec : Codec} {first second : Bytes}

theorem unpacked_before (uses : slot.Uses codec) (checked : Bool) (strictness : Strictness)
    (inside : Inside first slot.offset slot.size) :
    slot.unpacked checked strictness (first ++ second) = slot.unpacked checked strictness first := by
  have longer : Inside (first ++ second) slot.offset slot.size := by
    unfold Inside at *
    rw [List.length_append]
    omega
  rw [unpacked_eq uses checked strictness longer, unpacked_eq uses checked strictness inside,
    window_append_left inside.fits]

theorem unpacked_after (uses : slot.Uses codec) (checked : Bool) (strictness : Strictness)
    (start : 0 ≤ slot.offset) :
    (slot.shift first.length).unpacked checked strictness (first ++ second) =
      (slot.unpacked checked strictness second).mapError (Fault.after first.length) := by
  have ends : ((first ++ second).length : Int) < (slot.shift first.length).stop ↔
      (second.length : Int) < slot.stop := by
    simp only [stop, shift, List.length_append]
    omega
  simp only [unpacked, unpack, shift, uses.found] at ends ⊢
  by_cases beyond : checked = true ∧ (second.length : Int) < slot.stop
  · rw [if_pos beyond, if_pos ⟨beyond.1, ends.mpr beyond.2⟩]
    rfl
  · rw [if_neg beyond, if_neg fun both => beyond ⟨both.1, ends.mp both.2⟩,
      Codec.read_append uses.spans strictness start]
    cases codec.read strictness second slot.offset slot.size with
    | ok v => rfl
    | error fault => exact congrArg Except.error (Fault.after_inUnpacking _ _ _ fault)

end Slot

section Laying

variable {fields : List Slot} {raws : List Bytes} {first : Bytes}

theorem lay_before (fit : Fit fields raws)
    (inside : ∀ slot ∈ fields, Inside first slot.offset slot.size) (second : Bytes) :
    lay fields raws (first ++ second) = lay fields raws first ++ second := by
  induction fit generalizing first with
  | nil fields => simp only [lay_nil]
  | @cons slot raw fields raws size rest ih =>
    have here := (inside slot List.mem_cons_self).fits
    rw [← size] at here
    rw [lay, lay, overlay_append_left here]
    exact ih (Slot.inside_rest size inside)

theorem lay_after (starts : ∀ slot ∈ fields, 0 ≤ slot.offset) (raws : List Bytes)
    (second : Bytes) :
    lay (fields.map (Slot.shift · first.length)) raws (first ++ second) =
      first ++ lay fields raws second := by
  induction fields generalizing raws second with
  | nil => rfl
  | cons slot fields ih =>
    cases raws with
    | nil => rfl
    | cons raw raws =>
      have start := starts slot List.mem_cons_self
      have place : (slot.offset + first.length).toNat = first.length + slot.offset.toNat := by
        omega
      change lay _ raws ((first ++ second).overlay (slot.offset + first.length).toNat raw) = _
      rw [place, overlay_append_right]
      exact ih (fun other member => starts other (List.mem_cons_of_mem slot member)) raws _

end Laying

namespace Format

/-- The records of `whole` are those of `left` with those of `right` after them. -/
structure Joined (left right whole : Format) : Prop where
  wholes : (left.layout 0).fault? = none ∧ (right.layout 0).fault? = none ∧
    (whole.layout 0).fault? = none
  strictness : left.strictness = whole.strictness ∧ right.strictness = whole.strictness
  size : (whole.layout 0).size = (left.layout 0).size + (right.layout 0).size
  fields : (whole.layout 0).fields = (left.layout 0).fields ++
    (right.layout 0).fields.map (Slot.shift · (left.layout 0).size)

namespace Joined

variable {left right whole : Format} {checked : Bool}

theorem blank (joined : Joined left right whole) : whole.blank = left.blank ++ right.blank := by
  have low := left.size_nonneg
  have high := right.size_nonneg
  rw [Format.blank, joined.size, Int.toNat_add low high, List.replicate_add]
  rfl

theorem pack (joined : Joined left right whole) (small : (whole.layout 0).size < 2 ^ 63)
    {u v : List Value} (each : u.length = (left.layout 0).fields.length)
    (fixed : ∀ w ∈ u ++ v, w.Fixed) :
    whole.pack [.list (u ++ v)] checked = (do
      let first ← left.pack [.list u] checked
      let second ← (right.pack [.list v] checked).mapError (Fault.shift (left.layout 0).size)
      return first ++ second) := by
  have sizes := joined.size
  have low := left.size_nonneg
  have high := right.size_nonneg
  have fixedLeft : ∀ w ∈ u, w.Fixed := fun w member => fixed w (List.mem_append_left v member)
  have fixedRight : ∀ w ∈ v, w.Fixed := fun w member => fixed w (List.mem_append_right u member)
  have inside := left.fields_inside_blank
  have fit := Layout.contents_fit checked whole.strictness u
    fun slot (member : slot ∈ (left.layout 0).fields) => field_uses member
  have lengths := Layout.length_contents checked whole.strictness (left.layout 0).fields u
  rw [pack_list joined.wholes.2.2 small fixed, pack_list joined.wholes.1 (by omega) fixedLeft,
    pack_list joined.wholes.2.1 (by omega) fixedRight, joined.strictness.1, joined.strictness.2,
    joined.fields, Layout.contents_append each, Layout.contents_shift, joined.blank]
  generalize Layout.contents checked whole.strictness (left.layout 0).fields u = one
    at fit lengths ⊢
  generalize Layout.contents checked whole.strictness (right.layout 0).fields v = two
  obtain ⟨raws, _ | fault⟩ := one
  · have all : raws.length = (left.layout 0).fields.length := by
      rw [lengths rfl]
      omega
    have record : (left.layout 0).size = (lay (left.layout 0).fields raws left.blank).length := by
      rw [fit.length_lay inside, left.length_blank]
    obtain ⟨more, _ | fault⟩ := two
    · refine congrArg Except.ok ?_
      rw [lay_append all, lay_before fit inside, record]
      exact lay_after (fun slot member => (field_inside member).1) more right.blank
    · rfl
  · rfl

theorem unpack (joined : Joined left right whole) {data other both : Value} {first second : Bytes}
    (taken : Storage.ofData data = .ok first) (takenOther : Storage.ofData other = .ok second)
    (takenBoth : Storage.ofData both = .ok (first ++ second))
    (length : (first.length : Int) = (left.layout 0).size) :
    whole.unpack both checked = (do
      let values ← left.unpack data checked
      let more ← (right.unpack other checked).mapError (Fault.after first.length)
      return values ++ more) := by
  have before : ∀ slot ∈ (left.layout 0).fields,
      slot.unpacked checked whole.strictness (first ++ second) =
        slot.unpacked checked whole.strictness first := by
    intro slot member
    obtain ⟨codec, uses⟩ := field_uses member
    exact Slot.unpacked_before uses checked _ (field_within member (Int.le_of_eq length.symm))
  have after : ∀ slot ∈ (right.layout 0).fields,
      (slot.shift first.length).unpacked checked whole.strictness (first ++ second) =
        (slot.unpacked checked whole.strictness second).mapError (Fault.after first.length) := by
    intro slot member
    obtain ⟨codec, uses⟩ := field_uses member
    exact Slot.unpacked_after uses checked _ (field_inside member).1
  unfold Format.unpack
  rw [unpackAt_eq whole takenBoth, unpackAt_eq left taken, unpackAt_eq right takenOther,
    Layout.unpack_eq, Layout.unpack_eq, Layout.unpack_eq, joined.wholes.1, joined.wholes.2.1,
    joined.wholes.2.2, joined.strictness.1, joined.strictness.2, joined.fields, ← length,
    List.mapM_append, mapM_congr before, List.mapM_map,
    mapM_congr (f := Slot.unpacked checked whole.strictness (first ++ second) ∘
      (Slot.shift · first.length)) after, mapM_mapError]
  cases (left.layout 0).fields.mapM (Slot.unpacked checked whole.strictness first) with
  | error fault => rfl
  | ok values =>
    cases (right.layout 0).fields.mapM (Slot.unpacked checked whole.strictness second) <;> rfl

end Joined

section Marks

variable {machine : Machine} {strictness : Strictness} {mark : Char}

theorem joined_append (known : mark ∈ ['<', '>', '!', '=', '@']) {f g : String}
    (last : ∀ c ∈ f.toList.getLast?, c.isDigit = false)
    (accepted : (marked machine strictness mark (f ++ g)).Accepted)
    (aligned : ∀ slot ∈ ((marked machine strictness mark g).layout 0).slots,
      ((marked machine strictness mark g).convention.1.alignment slot.code : Int) ∣
        ((marked machine strictness mark f).layout 0).size) :
    Joined (marked machine strictness mark f) (marked machine strictness mark g)
      (marked machine strictness mark (f ++ g)) := by
  have characters : ∀ c ∈ (marked machine strictness mark (f ++ g)).body,
      strictness.codes = true → c.isDigit = true ∨ FieldType.ofLetter? c ≠ none := by
    intro c member strict
    exact accepted strict c member
  rw [body_marked known, String.toList_append] at characters
  have acceptedLeft : (marked machine strictness mark f).Accepted := by
    intro strict c member
    rw [body_marked known] at member
    exact characters c (List.mem_append_left _ member) strict
  have acceptedRight : (marked machine strictness mark g).Accepted := by
    intro strict c member
    rw [body_marked known] at member
    exact characters c (List.mem_append_right _ member) strict
  have slots : ((marked machine strictness mark (f ++ g)).layout 0).slots =
      ((marked machine strictness mark f).layout 0).slots ++
        ((marked machine strictness mark g).layout
          ((marked machine strictness mark f).layout 0).size).slots := by
    rw [layout_append known last g 0, ← size_eq_finish]
    exact (Layout.continued_whole (fault_of_accepted acceptedLeft 0) _ _).1
  have moved := layout_shift aligned
  refine ⟨⟨fault_of_accepted acceptedLeft 0, fault_of_accepted acceptedRight 0,
    fault_of_accepted accepted 0⟩, ⟨rfl, rfl⟩, ?_, ?_⟩
  · rw [size_eq_finish, slots, finish_append, ← size_eq_finish, moved, Layout.slots_shift]
    have ends := finish_shift 0 ((marked machine strictness mark f).layout 0).size
      ((marked machine strictness mark g).layout 0).slots
    rw [Int.zero_add, ← size_eq_finish] at ends
    rw [ends, Int.add_comm]
  · rw [← Layout.fields_shift, ← moved, Layout.fields, slots, List.filter_append]
    rfl

end Marks

/-- Formats that are written one after the other pack and unpack the records of both parts in turn.
Only a record of 2 ^ 63 bytes or more cannot be made, whatever its parts; and no value can be the array
of a new record. -/
theorem pack_unpack_append (machine : Machine) (strictness : Strictness) (mark : Char)
    (known : mark ∈ ['<', '>', '!', '=', '@']) (f g : String)
    (last : ∀ c ∈ f.toList.getLast?, c.isDigit = false)
    (accepted : (marked machine strictness mark (f ++ g)).Accepted)
    (aligned : ∀ slot ∈ ((marked machine strictness mark g).layout 0).slots,
      ((marked machine strictness mark g).convention.1.alignment slot.code : Int) ∣
        ((marked machine strictness mark f).layout 0).size) :
    let left := marked machine strictness mark f
    let right := marked machine strictness mark g
    let whole := marked machine strictness mark (f ++ g)
    ((whole.layout 0).size < 2 ^ 63 → ∀ u v checked,
      u.length = (left.layout 0).fields.length → (∀ w ∈ u ++ v, w.Fixed) →
      whole.pack [.list (u ++ v)] checked = (do
        let first ← left.pack [.list u] checked
        let second ← (right.pack [.list v] checked).mapError (Fault.shift (left.layout 0).size)
        return first ++ second)) ∧
    (2 ^ 63 ≤ (whole.layout 0).size → ∀ arguments checked,
      whole.pack arguments checked = .error (.refused .overflow (.zeros (whole.layout 0).size))) ∧
    ∀ data other both first second checked, Storage.ofData data = .ok first →
      Storage.ofData other = .ok second → Storage.ofData both = .ok (first ++ second) →
      (first.length : Int) = (left.layout 0).size →
      whole.unpack both checked = (do
        let values ← left.unpack data checked
        let more ← (right.unpack other checked).mapError (Fault.after first.length)
        return values ++ more) := by
  intro left right whole
  have joined : Joined left right whole := joined_append known last accepted aligned
  refine ⟨?_, ?_, ?_⟩
  · intro small u v checked each fixed
    exact joined.pack small each fixed
  · intro large arguments checked
    exact pack_of_large joined.wholes.2.2 large arguments checked
  · intro data other both first second checked taken takenOther takenBoth length
    exact joined.unpack taken takenOther takenBoth length

/-- The second part starts at 4, where its integer of four bytes is aligned. One value of it is too
large, and then its bytes are too few. -/
theorem pack_unpack_append_native :
    let whole := marked Machine.default Strictness.lenient '@' ("Hxx" ++ "iB")
    whole.pack [.list ([.int 258] ++ [.int 7, .int 9])] true = .ok [2, 1, 0, 0, 7, 0, 0, 0, 9] ∧
      whole.pack [.list ([.int 258] ++ [.int 7, .int 300])] true =
        .error (.packing 'B' 8 (.refused .value (.bits "uint" 8 (.int 300)))) ∧
      whole.unpack (.bytes ([2, 1, 0, 0] ++ [7, 0, 0])) false =
        .error (.unpacking 'i' 4 (.outside 4 4 7)) := by
  have joined : ((marked Machine.default Strictness.lenient '@' "Hxx").pack
        [.list [.int 258]] true = .ok [2, 1, 0, 0] ∧
      (marked Machine.default Strictness.lenient '@' "iB").pack [.list [.int 7, .int 9]] true =
        .ok [7, 0, 0, 0, 9] ∧
      (marked Machine.default Strictness.lenient '@' "iB").pack [.list [.int 7, .int 300]] true =
        .error (.packing 'B' 4 (.refused .value (.bits "uint" 8 (.int 300))))) ∧
      (marked Machine.default Strictness.lenient '@' "Hxx").unpack (.bytes [2, 1, 0, 0]) false =
        .ok [.int 258] ∧
      (marked Machine.default Strictness.lenient '@' "iB").unpack (.bytes [7, 0, 0]) false =
        .error (.unpacking 'i' 0 (.outside 4 0 3)) := ⟨⟨rfl, rfl, rfl⟩, rfl, rfl⟩
  obtain ⟨⟨first, second, large⟩, read, short⟩ := joined
  have size : ((marked Machine.default Strictness.lenient '@' "Hxx").layout 0).size = 4 := by
    decide
  obtain ⟨packing, _, unpacking⟩ := pack_unpack_append Machine.default Strictness.lenient '@'
    (by decide) "Hxx" "iB" (by simp) (accepted_of_lenient rfl) (by decide)
  have fixed : ∀ n : Int, ∀ w ∈ [Value.int 258] ++ [.int 7, .int n], w.Fixed := by
    simp [Value.Fixed, Value.resolve]
  have whole := packing (by decide) [.int 258] [.int 7, .int 9] true (by decide) (fixed 9)
  have refused := packing (by decide) [.int 258] [.int 7, .int 300] true (by decide) (fixed 300)
  have missed := unpacking (.bytes [2, 1, 0, 0]) (.bytes [7, 0, 0]) (.bytes ([2, 1, 0, 0] ++ [7, 0, 0]))
    [2, 1, 0, 0] [7, 0, 0] false rfl rfl rfl (by decide)
  rw [first, second] at whole
  rw [first, large, size] at refused
  rw [read, short] at missed
  exact ⟨whole, refused, missed⟩

/-- No record of more than 2 ^ 63 bytes is begun, so its first value is not looked at, which a record
of the first part alone refuses. -/
theorem pack_append_huge :
    let left := marked Machine.default Strictness.lenient '<' "B"
    let whole := marked Machine.default Strictness.lenient '<' ("B" ++ "9223372036854775808s")
    left.pack [.list [.int 300]] true =
        .error (.packing 'B' 0 (.refused .value (.bits "uint" 8 (.int 300)))) ∧
      whole.pack [.list ([.int 300] ++ [.text ""])] true =
        .error (.refused .overflow (.zeros 9223372036854775809)) :=
  ⟨rfl, rfl⟩

end Format
end BinaryRecord
