import BinaryRecord.Proofs.Bounds
import BinaryRecord.Proofs.Relocation
import Mathlib.Order.Bounds.Defs

/-!
One format at different starts. A later start moves no occurrence to an earlier place, and a common
multiple of the alignments moves all of them alike. So a record needs no more room at any start than
it needs at the next such multiple, where it lies as it does at 0.
-/
namespace BinaryRecord

open Storage Bytes

theorem alignUp_isLeast (position : Int) {alignment : Nat} (positive : 0 < alignment) :
    IsLeast {m : Int | (alignment : Int) ∣ m ∧ position ≤ m} (alignUp position alignment) := by
  constructor
  · exact ⟨(dvd_alignUp position alignment).resolve_left (by omega), le_alignUp position alignment⟩
  · rintro m ⟨aligned, after⟩
    exact alignUp_least after aligned

/-- The same occurrence, and not farther on. -/
structure Slot.NotAfter (slot other : Slot) : Prop where
  shape : slot.shape = other.shape
  offset : slot.offset ≤ other.offset

theorem Slot.NotAfter.stop {slot other : Slot} (before : slot.NotAfter other) :
    slot.stop ≤ other.stop := by
  have size : slot.size = other.size := congrArg (fun shape => shape.2.2) before.shape
  have := before.offset
  unfold Slot.stop
  omega

theorem Slot.eq_shift {slot other : Slot} (same : slot.shape = other.shape) :
    other = slot.shift (other.offset - slot.offset) := by
  obtain ⟨code, codec, offset, size⟩ := slot
  obtain ⟨_, _, place, _⟩ := other
  cases same
  simp [shift]

theorem finish_mono {first second : List Slot} (before : List.Forall₂ Slot.NotAfter first second)
    {cursor other : Int} (start : cursor ≤ other) : finish cursor first ≤ finish other second := by
  induction before generalizing cursor other with
  | nil => exact start
  | cons head _ ih => exact ih head.stop

namespace Run

theorem slotsFrom_notAfter {run other : Run} (shape : ∀ position,
    (run.slotAt position).shape = (other.slotAt position).shape) (n : Nat) {position later : Int}
    (before : position ≤ later) :
    List.Forall₂ Slot.NotAfter (run.slotsFrom n position) (other.slotsFrom n later) := by
  have size : run.size = other.size := congrArg (fun shape => shape.2.2) (shape 0)
  induction n generalizing position later with
  | zero => exact List.Forall₂.nil
  | succ n ih => exact List.Forall₂.cons ⟨shape position, before⟩ (ih (by omega))

end Run

namespace Layout

theorem runAt_notAfter (convention : Convention) (code : FieldType) (count : Nat)
    {cursor later : Int} (before : cursor ≤ later) :
    List.Forall₂ Slot.NotAfter (runAt convention code cursor count).slots
      (runAt convention code later count).slots := by
  have counts : (runAt convention code cursor count).count =
      (runAt convention code later count).count := by
    cases code <;> rfl
  have start : (runAt convention code cursor count).start ≤
      (runAt convention code later count).start := by
    rw [runAt_start, runAt_start]
    exact alignUp_mono before _
  unfold Run.slots
  rw [counts]
  refine Run.slotsFrom_notAfter ?_ _ start
  intro position
  cases code <;> rfl

theorem place_notAfter (convention : Convention) (tokens : List (FieldType × Nat))
    {cursor later : Int} (before : cursor ≤ later) :
    List.Forall₂ Slot.NotAfter ((place convention cursor tokens).flatMap Run.slots)
      ((place convention later tokens).flatMap Run.slots) := by
  induction tokens generalizing cursor later with
  | nil => exact List.Forall₂.nil
  | cons token tokens ih =>
    obtain ⟨code, count⟩ := token
    have head := runAt_notAfter convention code count before
    have stop := finish_mono head before
    rw [Run.finish_slots _ (runAt_count convention code cursor count),
      Run.finish_slots _ (runAt_count convention code later count)] at stop
    simp only [place, List.flatMap_cons]
    exact List.rel_append head (ih stop)

theorem contents_shapes (checked : Bool) (strictness : Strictness) (values : List Value)
    {first second : List Slot} (same : first.map Slot.shape = second.map Slot.shape) :
    (contents checked strictness first values).2 = none ↔
      (contents checked strictness second values).2 = none := by
  induction first generalizing values second with
  | nil => rw [List.map_eq_nil_iff.mp same.symm]
  | cons slot first ih =>
    cases second with
    | nil => cases same
    | cons other second =>
      obtain ⟨head, tail⟩ := List.cons_eq_cons.mp same
      cases values with
      | nil => cases checked <;> simp [contents]
      | cons v values =>
        rw [contents, contents, Slot.eq_shift head, Slot.content_shift]
        cases slot.content strictness v with
        | error fault => simp [Except.mapError]
        | ok raw => exact ih values tail

end Layout

namespace Format

variable {format : Format} {start : Int} {bs : Bytes}

theorem fault_start (format : Format) (start : Int) :
    (format.layout start).fault? = (format.layout 0).fault? := by
  rw [layout_eq, layout_eq]

theorem slots_notAfter (format : Format) {first second : Int} (before : first ≤ second) :
    List.Forall₂ Slot.NotAfter (format.layout first).slots (format.layout second).slots := by
  rw [layout_eq, layout_eq]
  exact Layout.place_notAfter _ _ before

theorem finish_le {multiple : Int}
    (aligned : ∀ slot ∈ (format.layout 0).slots,
      (format.convention.1.alignment slot.code : Int) ∣ multiple) (before : start ≤ multiple) :
    finish start (format.layout start).slots ≤ multiple + (format.layout 0).size := by
  have later := finish_mono (format.slots_notAfter before) before
  have moved := finish_shift 0 multiple (format.layout 0).slots
  rw [Int.zero_add, ← size_eq_finish] at moved
  rw [layout_shift aligned, Layout.slots_shift, moved] at later
  omega

theorem pack_iff_packAt (small : (format.layout 0).size < 2 ^ 63)
    (inside : ∀ slot ∈ (format.layout start).fields, Inside bs slot.offset slot.size)
    {arguments : List Value} {checked : Bool}
    (fixed : ∀ v ∈ (spread arguments checked).1, v.Fixed) :
    (∃ record, format.pack arguments checked = .ok record) ↔
      ∃ after, format.packAt start arguments checked (.array bs) = .ok () after := by
  cases whole : (format.layout 0).fault? with
  | some fault =>
    have broken := (format.fault_start start).trans whole
    rw [pack_of_broken whole, packAt_eq, Layout.packOnto_array, broken]
    cases Layout.packFields (spread arguments checked).2 format.strictness
      (format.layout start).fields (spread arguments checked).1 bs <;> simp
  | none =>
    have ends := Layout.contents_shapes (spread arguments checked).2 format.strictness
      (spread arguments checked).1 (format.fields_shapes 0 start)
    rw [pack_contents whole small fixed,
      packAt_contents ((format.fault_start start).trans whole) fixed inside]
    generalize Layout.contents _ _ (format.layout 0).fields _ = one at ends ⊢
    generalize Layout.contents _ _ (format.layout start).fields _ = other at ends ⊢
    obtain ⟨raws, _ | fault⟩ := one <;> obtain ⟨others, _ | cause⟩ := other <;> simp_all

/-- There is room for a record at a start: its fields are inside, so no packing and no unpacking fails
for want of bytes. -/
structure Room (format : Format) (start : Int) (bs : Bytes) : Prop where
  inside : ∀ slot ∈ (format.layout start).slots, Inside bs slot.offset slot.size
  pack : ∀ arguments checked, (∀ v ∈ (spread arguments checked).1, v.Fixed) →
    ((∃ record, format.pack arguments checked = .ok record) ↔
      ∃ after, format.packAt start arguments checked (.array bs) = .ok () after)
  unpack : ∀ data, Storage.ofData data = .ok bs →
    format.unpackAt data true start = format.unpackAt data false start ∧
    (format.Accepted → format.strictness.counts = false →
      ∃ values, format.unpackAt data true start = .ok values ∧
        (format.layout start).Decodes format.strictness bs values)

theorem room_of_inside (small : (format.layout 0).size < 2 ^ 63)
    (inside : ∀ slot ∈ (format.layout start).slots, Inside bs slot.offset slot.size) :
    format.Room start bs := by
  have fields : ∀ slot ∈ (format.layout start).fields, Inside bs slot.offset slot.size := by
    intro slot field
    exact inside slot (Layout.mem_fields.mp field).1
  refine ⟨inside, fun _ _ fixed => pack_iff_packAt small fields fixed, ?_⟩
  intro data taken
  rw [unpackAt_eq format taken, unpackAt_eq format taken]
  constructor
  · have same : ∀ slot ∈ (format.layout start).fields,
        slot.unpacked true format.strictness bs = slot.unpacked false format.strictness bs := by
      intro slot field
      obtain ⟨codec, uses⟩ := field_uses field
      rw [Slot.unpacked_eq uses true _ (fields slot field),
        Slot.unpacked_eq uses false _ (fields slot field)]
    rw [Layout.unpack_eq, Layout.unpack_eq, mapM_congr same]
  · intro accepted lenient
    have each : ∀ slot ∈ (format.layout start).fields,
        ∃ v, slot.unpacked true format.strictness bs = .ok v := by
      intro slot field
      obtain ⟨codec, uses⟩ := field_uses field
      exact Slot.unpacked_inside uses lenient (fields slot field) true
    obtain ⟨values, read⟩ := exists_each each
    have unpacked : (format.layout start).unpack true format.strictness bs = .ok values := by
      rw [Layout.unpack_eq, mapM_ok.mpr read, fault_of_accepted accepted]
      rfl
    exact ⟨values, unpacked, Layout.decodes_of_unpack unpacked⟩

theorem standard_alignment {mark : Char} (standard : mark ∈ ['<', '>', '!', '='])
    (first : format.text.toList.head? = some mark) (code : FieldType) :
    format.convention.1.alignment code = 1 := by
  obtain ⟨body, text⟩ := List.head?_eq_some_iff.mp first
  rw [convention_of_text text]
  simp only [List.mem_cons, List.not_mem_nil, or_false] at standard
  rcases standard with rfl | rfl | rfl | rfl <;> rfl

/-- A common multiple of the alignments moves the layout as a whole, and any later start moves each
occurrence to no earlier place. So from any start there is room for a record in as many bytes as it
needs from the next such multiple on. Standard conventions have one layout, which moves with its
start; and no storage has 2 ^ 63 bytes. -/
theorem layout_translated (format : Format) (period : Nat) (positive : 0 < period)
    (common : ∀ slot ∈ (format.layout 0).slots, format.convention.1.alignment slot.code ∣ period) :
    (∀ start k : Int,
      (format.layout (start + k * period)).slots =
        (format.layout start).slots.map (Slot.shift · (k * period)) ∧
      (format.layout (start + k * period)).fault? = (format.layout start).fault?) ∧
    (∀ first second : Int, first ≤ second →
      List.Forall₂ Slot.NotAfter (format.layout first).slots (format.layout second).slots) ∧
    (∀ start : Int,
      let next := alignUp start period
      IsLeast {m : Int | (period : Int) ∣ m ∧ start ≤ m} next ∧
      finish start (format.layout start).slots ≤ next + (format.layout 0).size ∧
      ∀ bs : Bytes, 0 ≤ start → bs.length < 2 ^ 63 → next + (format.layout 0).size ≤ bs.length →
        format.Room start bs) ∧
    (format.Accepted → format.size = .ok (format.layout 0).size) ∧
    ∀ mark ∈ ['<', '>', '!', '='], format.text.toList.head? = some mark → ∀ start : Int,
      (format.layout start).slots = (format.layout 0).slots.map (Slot.shift · start) := by
  have aligned : ∀ m : Int, (period : Int) ∣ m → ∀ slot ∈ (format.layout 0).slots,
      (format.convention.1.alignment slot.code : Int) ∣ m := by
    intro m multiple slot member
    exact Int.dvd_trans (Int.natCast_dvd_natCast.mpr (common slot member)) multiple
  refine ⟨?_, ?_, ?_, ?_, ?_⟩
  · intro start k
    rw [layout_add (aligned _ (Int.dvd_mul_left _ _)) start]
    exact ⟨Layout.slots_shift _ _, rfl⟩
  · intro first second before
    exact format.slots_notAfter before
  · intro start next
    have least := alignUp_isLeast start positive
    have ends := finish_le (aligned _ least.1.1) least.1.2
    refine ⟨least, ends, ?_⟩
    intro bs low bounded long
    apply room_of_inside
    · have := least.1.2
      omega
    · intro slot member
      have bounds := (format.slots_ordered start).bounds member
      unfold Inside
      unfold Slot.stop at bounds
      omega
  · intro accepted
    exact size_whole (fault_of_accepted accepted 0)
  · intro mark standard first start
    have unaligned : ∀ slot ∈ (format.layout 0).slots,
        (format.convention.1.alignment slot.code : Int) ∣ start := by
      intro slot _
      rw [standard_alignment standard first slot.code]
      exact Int.one_dvd start
    rw [layout_shift unaligned]
    exact Layout.slots_shift _ _

/-- From 5 the short integer needs no gap, and from 6 it needs one. Eight bytes after 5 the record lies
as it does at 5, and 24 bytes are enough for it. -/
theorem layout_translated_odd :
    let format : Format := ⟨"@bhq", Machine.default, Strictness.lenient⟩
    (format.layout 5).slots.map Slot.offset = [5, 6, 8] ∧
      (format.layout 6).slots.map Slot.offset = [6, 8, 16] ∧
      List.Forall₂ Slot.NotAfter (format.layout 5).slots (format.layout 6).slots ∧
      (format.layout (5 + 1 * (8 : Nat))).slots =
        (format.layout 5).slots.map (Slot.shift · (1 * (8 : Nat))) ∧
      alignUp 5 (8 : Nat) + (format.layout 0).size = 24 ∧
      format.Room 5 (List.replicate 24 0) := by
  intro format
  obtain ⟨moved, before, room, _, _⟩ := layout_translated format 8 (by decide) (by decide)
  refine ⟨by decide, by decide, before 5 6 (by decide), (moved 5 1).1, by decide, ?_⟩
  exact (room 5).2.2 (List.replicate 24 0) (by decide) (by decide) (by decide)

end Format
end BinaryRecord
