import BinaryRecord.Layout
import Mathlib.Tactic.Ring

/-!
Where the walk places the occurrences of a format: in order, none over another, each aligned. Only
the offsets depend on the start, and they move with it by common multiples of the alignments.
-/
namespace BinaryRecord

theorem alignUp_of_small (position : Int) {alignment : Nat} (small : alignment ≤ 1) :
    alignUp position alignment = position := by
  rw [alignUp, if_neg (by omega)]

theorem alignUp_of_large (position : Int) {alignment : Nat} (large : 1 < alignment) :
    alignUp position alignment = -(-position / alignment) * alignment := by
  rw [alignUp, if_pos (by omega), Int.fdiv_eq_ediv_of_nonneg _ (by omega)]

theorem le_alignUp (position : Int) (alignment : Nat) : position ≤ alignUp position alignment := by
  by_cases large : 1 < alignment
  · rw [alignUp_of_large position large, Int.neg_mul]
    have := Int.ediv_mul_le (-position) (b := alignment) (by omega)
    omega
  · rw [alignUp_of_small position (by omega)]

theorem dvd_alignUp (position : Int) (alignment : Nat) :
    alignment = 0 ∨ (alignment : Int) ∣ alignUp position alignment := by
  by_cases large : 1 < alignment
  · right
    rw [alignUp_of_large position large]
    exact Int.dvd_mul_left _ _
  · rcases Nat.le_one_iff_eq_zero_or_eq_one.mp (Nat.le_of_not_lt large) with zero | one
    · exact Or.inl zero
    · right
      simp [one]

theorem alignUp_add (position : Int) {alignment : Nat} {distance : Int}
    (multiple : (alignment : Int) ∣ distance) :
    alignUp (position + distance) alignment = alignUp position alignment + distance := by
  by_cases large : 1 < alignment
  · obtain ⟨k, rfl⟩ := multiple
    have moved : -(position + alignment * k) = -position + -k * alignment := by ring
    rw [alignUp_of_large _ large, alignUp_of_large _ large, moved,
      Int.add_mul_ediv_right _ _ (by omega)]
    ring
  · rw [alignUp_of_small _ (by omega), alignUp_of_small _ (by omega)]

theorem alignUp_least {position multiple : Int} {alignment : Nat} (after : position ≤ multiple)
    (aligned : (alignment : Int) ∣ multiple) : alignUp position alignment ≤ multiple := by
  by_cases large : 1 < alignment
  · obtain ⟨k, rfl⟩ := aligned
    have quotient : -k ≤ -position / alignment := by
      apply Int.le_ediv_of_mul_le (by omega)
      rw [Int.neg_mul, Int.mul_comm]
      omega
    rw [alignUp_of_large position large, Int.mul_comm (alignment : Int)]
    exact Int.mul_le_mul_of_nonneg_right (by omega) (by omega)
  · rw [alignUp_of_small position (by omega)]
    exact after

theorem alignUp_mono {first second : Int} (before : first ≤ second) (alignment : Nat) :
    alignUp first alignment ≤ alignUp second alignment := by
  rcases dvd_alignUp second alignment with zero | aligned
  · rw [alignUp_of_small _ (by omega), alignUp_of_small _ (by omega)]
    exact before
  · exact alignUp_least (Int.le_trans before (le_alignUp second alignment)) aligned

theorem alignUp_alignUp (position : Int) (alignment : Nat) :
    alignUp (alignUp position alignment) alignment = alignUp position alignment := by
  by_cases large : 1 < alignment
  · have multiple := (dvd_alignUp position alignment).resolve_left (by omega)
    have moved := alignUp_add 0 multiple
    have zero : alignUp 0 alignment = 0 := by
      rw [alignUp_of_large 0 large]
      simp
    rwa [Int.zero_add, zero, Int.zero_add] at moved
  · rw [alignUp_of_small _ (by omega), alignUp_of_small _ (by omega)]

namespace Slot

/-- The places of a storage that belong to the field. -/
def Covers (slot : Slot) (i : Nat) : Prop := slot.offset ≤ i ∧ (i : Int) < slot.stop

/-- What the occurrence is, wherever it lies. -/
def shape (slot : Slot) : FieldType × Option Codec × Nat := (slot.code, slot.codec?, slot.size)

/-- The occurrence is one that a walk under the convention makes. -/
structure Follows (slot : Slot) (convention : Convention) : Prop where
  codec : slot.codec? = convention.codec? slot.code
  size : match slot.code with
    | .text => True
    | .counted => 1 ≤ slot.size
    | code => slot.size = convention.size code
  aligned : convention.alignment slot.code = 0 ∨
    (convention.alignment slot.code : Int) ∣ slot.offset

theorem offset_le_stop (slot : Slot) : slot.offset ≤ slot.stop := by
  simp only [stop]
  omega

end Slot

/-- Occurrences one after the other, the first one not before the cursor. -/
def Ordered : Int → List Slot → Prop
  | _, [] => True
  | cursor, slot :: slots => cursor ≤ slot.offset ∧ Ordered slot.stop slots

def finish (cursor : Int) (slots : List Slot) : Int := slots.foldl (fun _ slot => slot.stop) cursor

theorem finish_cons (cursor : Int) (slot : Slot) (slots : List Slot) :
    finish cursor (slot :: slots) = finish slot.stop slots := rfl

theorem finish_append (cursor : Int) (first second : List Slot) :
    finish cursor (first ++ second) = finish (finish cursor first) second := by
  simp [finish, List.foldl_append]

theorem finish_shift (cursor distance : Int) (slots : List Slot) :
    finish (cursor + distance) (slots.map (Slot.shift · distance)) =
      finish cursor slots + distance := by
  induction slots generalizing cursor with
  | nil => rfl
  | cons slot slots ih =>
    have moved : (slot.shift distance).stop = slot.stop + distance := by
      simp only [Slot.stop, Slot.shift]
      omega
    rw [List.map_cons, finish_cons, finish_cons, moved, ih]

namespace Ordered

theorem weaken {low high : Int} {slots : List Slot} (ordered : Ordered high slots)
    (before : low ≤ high) : Ordered low slots := by
  cases slots with
  | nil => trivial
  | cons slot slots => exact ⟨Int.le_trans before ordered.1, ordered.2⟩

theorem append {cursor : Int} {first second : List Slot} (left : Ordered cursor first)
    (right : Ordered (finish cursor first) second) : Ordered cursor (first ++ second) := by
  induction first generalizing cursor with
  | nil => exact right
  | cons slot first ih => exact ⟨left.1, ih left.2 right⟩

theorem filter {cursor : Int} {slots : List Slot} (keep : Slot → Bool)
    (ordered : Ordered cursor slots) : Ordered cursor (slots.filter keep) := by
  induction slots generalizing cursor with
  | nil => trivial
  | cons slot slots ih =>
    have rest := ih ordered.2
    by_cases kept : keep slot
    · rw [List.filter_cons_of_pos kept]
      exact ⟨ordered.1, rest⟩
    · rw [List.filter_cons_of_neg kept]
      have := slot.offset_le_stop
      have := ordered.1
      exact rest.weaken (by omega)

theorem take {cursor : Int} {slots : List Slot} (ordered : Ordered cursor slots) (n : Nat) :
    Ordered cursor (slots.take n) := by
  induction slots generalizing cursor n with
  | nil => simpa using ordered
  | cons slot slots ih =>
    cases n with
    | zero => trivial
    | succ n => exact ⟨ordered.1, ih ordered.2 n⟩

theorem le_finish {cursor : Int} {slots : List Slot} (ordered : Ordered cursor slots) :
    cursor ≤ finish cursor slots := by
  induction slots generalizing cursor with
  | nil => exact Int.le_refl cursor
  | cons slot slots ih =>
    have := ih ordered.2
    have := slot.offset_le_stop
    have := ordered.1
    rw [finish_cons]
    omega

theorem bounds {cursor : Int} {slots : List Slot} (ordered : Ordered cursor slots) {slot : Slot}
    (member : slot ∈ slots) : cursor ≤ slot.offset ∧ slot.stop ≤ finish cursor slots := by
  induction slots generalizing cursor with
  | nil => simp at member
  | cons first slots ih =>
    rw [finish_cons]
    rcases List.mem_cons.mp member with rfl | later
    · exact ⟨ordered.1, ordered.2.le_finish⟩
    · have := ih ordered.2 later
      have := first.offset_le_stop
      have := ordered.1
      omega

theorem precedes {cursor : Int} {slots : List Slot} (ordered : Ordered cursor slots) {j k : Nat}
    (before : j < k) {first second : Slot} (early : slots[j]? = some first)
    (late : slots[k]? = some second) : first.stop ≤ second.offset := by
  induction slots generalizing cursor j k with
  | nil => simp at early
  | cons slot slots ih =>
    obtain ⟨k, rfl⟩ := Nat.exists_eq_add_one_of_ne_zero (Nat.ne_of_gt (Nat.zero_lt_of_lt before))
    rw [List.getElem?_cons_succ] at late
    cases j with
    | zero =>
      simp only [List.getElem?_cons_zero, Option.some.injEq] at early
      subst early
      exact (ordered.2.bounds (List.mem_of_getElem? late)).1
    | succ j => exact ih ordered.2 (by omega) early late

end Ordered

namespace Run

theorem slotsFrom_ordered (run : Run) (n : Nat) (position : Int) :
    Ordered position (run.slotsFrom n position) := by
  induction n generalizing position with
  | zero => trivial
  | succ n ih => exact ⟨Int.le_refl position, ih (position + run.size)⟩

theorem finish_slotsFrom (run : Run) (n : Nat) (position : Int) :
    finish position (run.slotsFrom n position) = position + n * run.size := by
  induction n generalizing position with
  | zero => simp [slotsFrom, finish]
  | succ n ih =>
    rw [slotsFrom, finish_cons]
    change finish (position + run.size) _ = _
    rw [ih, Int.natCast_succ]
    ring

theorem slots_ordered (run : Run) : Ordered run.start run.slots :=
  run.slotsFrom_ordered run.count run.start

theorem finish_slots (run : Run) (positive : 0 < run.count) (cursor : Int) :
    finish cursor run.slots = run.stop := by
  have last := run.finish_slotsFrom run.count run.start
  unfold slots stop
  rw [← last]
  obtain ⟨n, more⟩ := Nat.exists_eq_succ_of_ne_zero (Nat.pos_iff_ne_zero.mp positive)
  rw [more]
  rfl

theorem mem_slotsFrom {run : Run} {n : Nat} {position : Int} {slot : Slot}
    (member : slot ∈ run.slotsFrom n position) :
    ∃ k : Nat, slot = run.slotAt (position + k * run.size) := by
  induction n generalizing position with
  | zero => simp [slotsFrom] at member
  | succ n ih =>
    rcases List.mem_cons.mp member with rfl | later
    · exact ⟨0, by simp⟩
    · obtain ⟨k, rfl⟩ := ih later
      refine ⟨k + 1, ?_⟩
      congr 1
      rw [Int.natCast_succ]
      ring

def shift (run : Run) (distance : Int) : Run := { run with start := run.start + distance }

theorem slotsFrom_shift (run : Run) (distance : Int) (n : Nat) (position : Int) :
    (run.shift distance).slotsFrom n (position + distance) =
      (run.slotsFrom n position).map (Slot.shift · distance) := by
  induction n generalizing position with
  | zero => rfl
  | succ n ih =>
    have moved : position + distance + run.size = position + run.size + distance := by omega
    have rest := ih (position + run.size)
    simp only [slotsFrom, List.map_cons]
    change _ :: (run.shift distance).slotsFrom n (position + distance + run.size) = _
    rw [moved, rest]
    rfl

theorem stop_shift (run : Run) (distance : Int) :
    (run.shift distance).stop = run.stop + distance := by
  simp only [stop, shift]
  omega

theorem slotsFrom_shapes (run : Run) (n : Nat) (position : Int) :
    (run.slotsFrom n position).map Slot.shape = List.replicate n (run.code, run.codec?, run.size) := by
  induction n generalizing position with
  | zero => rfl
  | succ n ih => simp [slotsFrom, ih, Slot.shape, slotAt, List.replicate_succ]

end Run
end BinaryRecord
