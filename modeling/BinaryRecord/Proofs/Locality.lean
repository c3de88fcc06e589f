import BinaryRecord.Proofs.Bounds
import BinaryRecord.Proofs.Filling

/-!
Unpacking reads the bytes of its fields and no others: padding, the bytes before the record and those
after it may be anything, and a text does not reach beyond its field whatever it holds.
-/
namespace BinaryRecord

open Storage Bytes

namespace Layout

theorem unpack_local {layout : Layout} {one two : Bytes}
    (uses : ∀ slot ∈ layout.fields, ∃ codec, slot.Uses codec)
    (inside : ∀ slot ∈ layout.fields,
      Inside one slot.offset slot.size ∧ Inside two slot.offset slot.size)
    (same : ∀ i, Touched layout.fields i → one[i]? = two[i]?) (checked : Bool)
    (strictness : Strictness) :
    layout.unpack checked strictness one = layout.unpack checked strictness two := by
  have each : ∀ slot ∈ layout.fields,
      slot.unpacked checked strictness one = slot.unpacked checked strictness two := by
    intro slot field
    obtain ⟨codec, used⟩ := uses slot field
    obtain ⟨first, second⟩ := inside slot field
    have window : one.window slot.offset.toNat slot.size =
        two.window slot.offset.toNat slot.size := by
      apply window_congr
      intro i low high
      have start := first.1
      refine same i ⟨slot, field, ?_⟩
      unfold Slot.Covers Slot.stop
      omega
    rw [Slot.unpacked_eq used checked strictness first, window,
      Slot.unpacked_eq used checked strictness second]
  rw [unpack_eq, unpack_eq, mapM_congr each]

end Layout

namespace Format

/-- Data that hold every field of the record at `offset`, and agree on the bytes of the fields, give
the same values or the same fault. -/
theorem unpackAt_local (format : Format) (offset : Int) (start : 0 ≤ offset) (data other : Value)
    (one two : Bytes) (taken : Storage.ofData data = .ok one)
    (takenOther : Storage.ofData other = .ok two)
    (ends : ∀ slot ∈ (format.layout offset).fields,
      slot.stop ≤ one.length ∧ slot.stop ≤ two.length)
    (same : ∀ i, Touched (format.layout offset).fields i → one[i]? = two[i]?) (checked : Bool) :
    format.unpackAt data checked offset = format.unpackAt other checked offset := by
  have inside : ∀ slot ∈ (format.layout offset).fields,
      Inside one slot.offset slot.size ∧ Inside two slot.offset slot.size := by
    intro slot field
    have low := field_start start field
    exact ⟨⟨low, (ends slot field).1⟩, ⟨low, (ends slot field).2⟩⟩
  rw [unpackAt_eq format taken, unpackAt_eq format takenOther]
  exact Layout.unpack_local (fun slot field => field_uses field) inside same checked _

/-- The byte before the record, its padding and the byte after it differ; the count is beyond its
field. -/
theorem unpackAt_local_refused :
    let format : Format := ⟨"<xH3p", Machine.default, ⟨false, true⟩⟩
    let one : Bytes := [0, 0, 2, 1, 255, 65, 66]
    let two : Bytes := [7, 8, 2, 1, 255, 65, 66, 9]
    format.unpackAt (.bytes one) true 1 = .error (.countOverflow 4 255 3) ∧
      format.unpackAt (.bytes one) true 1 = format.unpackAt (.view (.ofBytes two)) true 1 := by
  have fields : ((Format.mk "<xH3p" Machine.default ⟨false, true⟩).layout 1).fields =
      [⟨.uint16, some (.number (.uint 2) .little), 2, 2⟩, ⟨.counted, some .counted, 4, 3⟩] := by
    decide
  have refused : (Format.mk "<xH3p" Machine.default ⟨false, true⟩).unpackAt
      (.bytes [0, 0, 2, 1, 255, 65, 66]) true 1 = .error (.countOverflow 4 255 3) := rfl
  intro format one two
  have ends : ∀ slot ∈ (format.layout 1).fields,
      slot.stop ≤ one.length ∧ slot.stop ≤ two.length := by
    rw [fields]
    decide
  have same : ∀ i, Touched (format.layout 1).fields i → one[i]? = two[i]? := by
    rw [fields]
    rintro i ⟨slot, member, low, high⟩
    simp only [List.mem_cons, List.not_mem_nil, or_false] at member
    rcases member with rfl | rfl <;> simp only [Slot.stop] at low high
    · obtain rfl | rfl : i = 2 ∨ i = 3 := by omega
      all_goals rfl
    · obtain rfl | rfl | rfl : i = 4 ∨ i = 5 ∨ i = 6 := by omega
      all_goals rfl
  exact ⟨refused, unpackAt_local format 1 (by decide) (.bytes one) (.view (.ofBytes two)) one two
    rfl rfl ends same true⟩

end Format
end BinaryRecord
