import BinaryRecord.Compiled
import BinaryRecord.Proofs.Fields

/-!
The gaps that alignment leaves. Every occurrence starts at the least aligned position that is not
before the end of the one before it. The occurrences of one count, and all those of a standard
convention, follow each other without a gap, and a record needs no more than the sizes of its
occurrences and these gaps.
-/
namespace BinaryRecord

theorem FieldType.size_pos {machine : Machine} (pointers : 0 < machine.pointerWidth)
    (code : FieldType) : 0 < code.size machine := by
  cases code <;> simp [size, pointers]

theorem Convention.alignment_pos {convention : Convention}
    (pointers : 0 < convention.machine.pointerWidth) (code : FieldType) :
    0 < convention.alignment code := by
  unfold alignment
  split
  · exact FieldType.size_pos pointers code
  · exact Nat.one_pos

theorem alignUp_lt (position : Int) {alignment : Nat} (positive : 0 < alignment) :
    alignUp position alignment < position + alignment := by
  by_cases large : 1 < alignment
  · have next := Int.lt_ediv_add_one_mul_self (-position) (b := alignment) (by omega)
    rw [alignUp_of_large position large, Int.neg_mul]
    rw [Int.add_mul] at next
    omega
  · rw [alignUp_of_small position (by omega)]
    omega

/-- The occurrence starts at the least aligned position that is not before the cursor. -/
structure Slot.Snug (slot : Slot) (convention : Convention) (cursor : Int) : Prop where
  aligned : (convention.alignment slot.code : Int) ∣ slot.offset
  after : cursor ≤ slot.offset
  gap : slot.offset - cursor < convention.alignment slot.code
  least : ∀ position, cursor ≤ position → (convention.alignment slot.code : Int) ∣ position →
    slot.offset ≤ position
  standard : convention.native = false → slot.offset = cursor

theorem Slot.Snug.of_gap {slot : Slot} {convention : Convention} {cursor : Int}
    (aligned : (convention.alignment slot.code : Int) ∣ slot.offset) (after : cursor ≤ slot.offset)
    (gap : slot.offset - cursor < convention.alignment slot.code) : slot.Snug convention cursor := by
  refine ⟨aligned, after, gap, ?_, ?_⟩
  · intro position low multiple
    by_contra early
    have distance := Int.le_of_dvd (by omega) (Int.dvd_sub aligned multiple)
    omega
  · intro standard
    simp only [Convention.alignment, standard] at gap
    simp at gap
    omega

def Settled (convention : Convention) : Int → List Slot → Prop
  | _, [] => True
  | cursor, slot :: slots => slot.Snug convention cursor ∧ Settled convention slot.stop slots

theorem Settled.append {convention : Convention} {cursor : Int} {first second : List Slot}
    (left : Settled convention cursor first)
    (right : Settled convention (finish cursor first) second) :
    Settled convention cursor (first ++ second) := by
  induction first generalizing cursor with
  | nil => exact right
  | cons slot first ih => exact ⟨left.1, ih left.2 right⟩

def gaps : Int → List Slot → List Int
  | _, [] => []
  | cursor, slot :: slots => (slot.offset - cursor) :: gaps slot.stop slots

theorem finish_eq_sum (cursor : Int) (slots : List Slot) :
    finish cursor slots =
      cursor + (slots.map fun slot => (slot.size : Int)).sum + (gaps cursor slots).sum := by
  induction slots generalizing cursor with
  | nil => simp [finish, gaps]
  | cons slot slots ih =>
    simp only [finish_cons, ih, gaps, List.map_cons, List.sum_cons, Slot.stop]
    omega

theorem finish_eq_getLast (cursor : Int) (slots : List Slot) :
    finish cursor slots = (slots.getLast?.map Slot.stop).getD cursor := by
  induction slots generalizing cursor with
  | nil => rfl
  | cons slot slots ih =>
    rw [finish_cons, ih, List.getLast?_cons]
    cases slots.getLast? <;> simp

theorem Ordered.pairwise {cursor : Int} {slots : List Slot} (ordered : Ordered cursor slots) :
    slots.Pairwise fun first second => first.stop ≤ second.offset := by
  induction slots generalizing cursor with
  | nil => simp
  | cons slot slots ih =>
    constructor
    · intro other later
      exact (ordered.2.bounds later).1
    · exact ih ordered.2

namespace Run

/-- Once the first occurrence is aligned the others are, as its size is a multiple of the alignment. -/
theorem slotsFrom_settled {convention : Convention} {run : Run}
    (positive : 0 < convention.alignment run.code)
    (divides : convention.alignment run.code ∣ run.size) (n : Nat) {cursor position : Int}
    (first : (run.slotAt position).Snug convention cursor) :
    Settled convention cursor (run.slotsFrom n position) := by
  induction n generalizing cursor position with
  | zero => trivial
  | succ n ih =>
    constructor
    · exact first
    · apply ih
      apply Slot.Snug.of_gap
      · exact Int.dvd_add first.aligned (Int.natCast_dvd_natCast.mpr divides)
      · simp [slotAt, Slot.stop]
      · simpa [slotAt, Slot.stop] using positive

theorem slotsFrom_chain (run : Run) (n : Nat) (position : Int) :
    (run.slotsFrom n position).IsChain fun first second => second.offset = first.stop := by
  induction n generalizing position with
  | zero => simp [slotsFrom]
  | succ n ih =>
    cases n with
    | zero => simp [slotsFrom]
    | succ n => exact List.IsChain.cons_cons rfl (ih (position + run.size))

end Run

namespace Layout

variable {convention : Convention}

theorem runAt_settled (pointers : 0 < convention.machine.pointerWidth) (code : FieldType)
    (cursor : Int) (count : Nat) :
    Settled convention cursor (runAt convention code cursor count).slots := by
  have same := runAt_code convention code cursor count
  have start := runAt_start convention code cursor count
  have positive := convention.alignment_pos pointers code
  have divides := alignment_dvd_size convention code cursor count
  have after := le_alignUp cursor (convention.alignment code)
  have gap := alignUp_lt cursor positive
  have aligned := (dvd_alignUp cursor (convention.alignment code)).resolve_left (by omega)
  apply Run.slotsFrom_settled
  · simpa [same] using positive
  · simpa [same] using divides
  · apply Slot.Snug.of_gap
    · simpa [Run.slotAt, same, start] using aligned
    · simpa [Run.slotAt, start] using after
    · simp only [Run.slotAt, same, start]
      omega

theorem place_settled (pointers : 0 < convention.machine.pointerWidth) (cursor : Int)
    (tokens : List (FieldType × Nat)) :
    Settled convention cursor ((place convention cursor tokens).flatMap Run.slots) := by
  induction tokens generalizing cursor with
  | nil => trivial
  | cons token tokens ih =>
    obtain ⟨code, count⟩ := token
    simp only [place, List.flatMap_cons]
    apply Settled.append
    · exact runAt_settled pointers code cursor count
    · rw [Run.finish_slots _ (runAt_count convention code cursor count)]
      exact ih _

end Layout

namespace Format

def extent (entries : List (Char × Int × Nat)) : Int :=
  (entries.getLast?.map fun entry => entry.2.1 + (entry.2.2 : Int)).getD 0

theorem size_eq_extent (format : Format) : format.size = format.entries.map extent := by
  unfold size entries Layout.accepted
  cases (format.layout 0).fault? with
  | some fault => rfl
  | none =>
    refine congrArg Except.ok ?_
    rw [size_eq_finish, finish_eq_getLast, extent, List.getLast?_map, Option.map_map]
    rfl

theorem size_eq_compiled (format : Format) :
    format.size = (Compiled.ofFormat format).map Compiled.size := by
  unfold size Compiled.ofFormat Layout.accepted
  cases (format.layout 0).fault? <;> rfl

/-- From any start the occurrences are aligned and in order, with the least gaps between them. The size
of a record, however it is asked for, is the end of the last occurrence, which none exceeds: it is the
sizes and the gaps together. -/
theorem layout_snug (format : Format) (pointers : 0 < format.machine.pointerWidth) :
    (∀ start : Int,
      Settled format.convention.1 start (format.layout start).slots ∧
      ((format.layout start).slots.Pairwise fun first second => first.stop ≤ second.offset) ∧
      ∀ run ∈ (format.layout start).runs,
        run.slots.IsChain fun first second => second.offset = first.stop) ∧
    (format.size = format.entries.map extent ∧
      format.size = (Compiled.ofFormat format).map Compiled.size) ∧
    (format.Accepted → ∃ total, format.size = .ok total) ∧
    ∀ total, format.size = .ok total →
      total = ((format.layout 0).slots.map fun slot => (slot.size : Int)).sum +
        (gaps 0 (format.layout 0).slots).sum ∧
      ∀ slot ∈ (format.layout 0).slots, slot.stop ≤ total := by
  have machine : format.convention.1.machine = format.machine :=
    Convention.chosen_machine format.machine format.text.toList
  refine ⟨?_, ⟨format.size_eq_extent, format.size_eq_compiled⟩, ?_, ?_⟩
  · intro start
    refine ⟨?_, (format.slots_ordered start).pairwise, ?_⟩
    · rw [layout_eq]
      exact Layout.place_settled (by simpa [machine] using pointers) start format.tokens
    · intro run _
      exact run.slotsFrom_chain run.count run.start
  · intro accepted
    exact ⟨_, size_whole (fault_of_accepted accepted 0)⟩
  · intro total sized
    have ends := format.size_eq_finish
    rw [← eq_of_size sized] at ends
    constructor
    · simpa [finish_eq_sum] using ends
    · intro slot member
      rw [ends]
      exact ((format.slots_ordered 0).bounds member).2

/-- Before position 0 too: the integer of eight bytes is put off to 0, and from there it is put off by
two bytes again. -/
theorem layout_snug_negative :
    let format : Format := ⟨"@c2hq", ⟨.big, 4⟩, Strictness.lenient⟩
    (format.layout (-7)).slots.map Slot.offset = [-7, -6, -4, 0] ∧
      gaps (-7) (format.layout (-7)).slots = [0, 0, 0, 2] ∧
      Settled format.convention.1 (-7) (format.layout (-7)).slots ∧
      gaps 0 (format.layout 0).slots = [0, 1, 0, 2] ∧ format.size = .ok 16 ∧
      (16 : Int) = ((format.layout 0).slots.map fun slot => (slot.size : Int)).sum +
        (gaps 0 (format.layout 0).slots).sum := by
  intro format
  have total : (format.layout 0).size = 16 := by decide
  have sized : format.size = .ok 16 := by
    rw [← total]
    exact size_whole (by decide)
  obtain ⟨settled, _, _, whole⟩ := layout_snug format (by decide)
  exact ⟨by decide, by decide, (settled (-7)).1, by decide, sized, (whole 16 sized).1⟩

end Format
end BinaryRecord
