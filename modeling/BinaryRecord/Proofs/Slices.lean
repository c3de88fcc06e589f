import BinaryRecord.Proofs.Concatenation
import BinaryRecord.Proofs.Gaps
import BinaryRecord.Proofs.Refusal
import BinaryRecord.Proofs.Relocation

/-!
A series of records taken as slices. Where every alignment of a format divides its size, each record is
read as it is from the bytes of its slice alone, whatever these are. A record that fails, which only a
refused count can do, ends the series, and its fault names a place as much farther on as the record
lies.
-/
namespace BinaryRecord

open Storage Bytes

/-- What some results come to one after the other: the values before the first fault, and that fault. -/
def upToFault {α : Type} : List (Except Fault α) → List α × Option Fault
  | [] => ([], none)
  | .error fault :: _ => ([], some fault)
  | .ok a :: results => (a :: (upToFault results).1, (upToFault results).2)

theorem mem_of_upToFault {α : Type} {results : List (Except Fault α)} {fault : Fault}
    (ended : (upToFault results).2 = some fault) : .error fault ∈ results := by
  induction results with
  | nil => simp [upToFault] at ended
  | cons result results ih =>
    cases result with
    | error other =>
      simp only [upToFault, Option.some.injEq] at ended
      simp [ended]
    | ok a => exact List.mem_cons_of_mem _ (ih ended)

namespace Bytes

theorem window_window (bs : Bytes) {start size i n : Nat} (short : i + n ≤ size) :
    (bs.window start size).window i n = bs.window (start + i) n := by
  have enough : min n (size - i) = n := by omega
  simp [window, List.drop_take, List.take_take, List.drop_drop, enough]

theorem window_of_take (bs : Bytes) {start size n : Nat} (short : start + size ≤ n) :
    window (bs.take n) start size = bs.window start size := by
  have enough : min size (n - start) = size := by omega
  simp [window, List.drop_take, List.take_take, enough]

theorem fits_of_whole {bs : Bytes} {size k : Nat} (within : k < bs.length / size) :
    k * size + size ≤ bs.length := by
  have whole := Nat.div_mul_le_self bs.length size
  have more := Nat.mul_le_mul_right size (Nat.succ_le_of_lt within)
  rw [Nat.succ_mul] at more
  omega

theorem slice_whole {bs : Bytes} {size k : Nat} (within : k < bs.length / size) :
    bs.slice (k * size : Nat) ((k + 1) * size : Nat) = bs.window (k * size) size := by
  have fits := fits_of_whole within
  have inside : Inside bs (k * size : Nat) size := by
    unfold Inside
    omega
  have stop : (((k + 1) * size : Nat) : Int) = (k * size : Nat) + size := by
    simp [Nat.succ_mul]
  rw [stop, slice_inside inside, Int.toNat_natCast]

end Bytes

namespace Fault

theorem shift_inUnpacking (c : Char) (offset distance : Int) (fault : Fault) :
    inUnpacking c (offset + distance) (fault.shift distance) =
      (inUnpacking c offset fault).shift distance :=
  @shift_inField (unpacking c offset) (unpacking c (offset + distance)) distance (fun _ => rfl) fault

theorem shifted_unpacking (distance : Int) {fault : Fault} (kind : fault.class? = some .unpacking) :
    Shifted distance fault (fault.shift distance) := by
  cases fault with
  | countOverflow offset count length | unpacking c offset cause => exact ⟨rfl, fun _ => rfl, _, _, rfl, rfl⟩
  | _ => simp [Fault.class?] at kind

theorem class_shift (distance : Int) (fault : Fault) :
    (fault.shift distance).class? = fault.class? := by
  cases fault <;> rfl

end Fault

theorem Codec.decode_shift (codec : Codec) (strictness : Strictness) (raw : Bytes)
    (offset distance : Int) :
    codec.decode strictness raw (offset + distance) =
      (codec.decode strictness raw offset).mapError (Fault.shift distance) := by
  cases codec with
  | counted =>
    cases raw with
    | nil => rfl
    | cons b rest =>
      simp only [decode, CountedText.decode]
      split
      · rfl
      · split <;> rfl
  | _ => rfl

namespace Slot

variable {slot : Slot} {codec : Codec} {checked : Bool} {strictness : Strictness} {bs : Bytes}

theorem unpacked_slice (uses : slot.Uses codec) {start size : Nat} (fits : start + size ≤ bs.length)
    (inside : Inside (bs.window start size) slot.offset slot.size) :
    (slot.shift start).unpacked checked strictness bs =
      (slot.unpacked checked strictness (bs.window start size)).mapError (Fault.shift start) := by
  have length := length_window bs start size fits
  have low := inside.1
  have high := inside.fits
  have usesThere : (slot.shift start).Uses codec := ⟨uses.found, uses.spans, uses.counted⟩
  have there : Inside bs (slot.shift start).offset (slot.shift start).size := by
    simp only [Inside, Slot.shift]
    omega
  have place : (slot.offset + start).toNat = start + slot.offset.toNat := by omega
  rw [unpacked_eq usesThere checked strictness there, unpacked_eq uses checked strictness inside,
    window_window bs (by omega)]
  simp only [Slot.shift, place, Codec.decode_shift]
  cases codec.decode strictness (bs.window (start + slot.offset.toNat) slot.size) slot.offset with
  | ok v => rfl
  | error fault => exact congrArg Except.error (Fault.shift_inUnpacking _ _ _ fault)

theorem unpacked_inside_fault (uses : slot.Uses codec) (inside : Inside bs slot.offset slot.size)
    {fault : Fault} (failed : slot.unpacked checked strictness bs = .error fault) :
    fault.class? = some .unpacking := by
  rw [unpacked_eq uses checked strictness inside, ← unpacked_eq uses false strictness inside,
    unpacked_unchecked uses] at failed
  cases read : codec.read strictness bs slot.offset slot.size with
  | ok v =>
    rw [read] at failed
    cases failed
  | error cause =>
    rw [read] at failed
    cases failed
    rcases Codec.read_fault read with ⟨plain, reported, rfl⟩ | ⟨_, count, rfl⟩
    · rw [Fault.inUnpacking, Fault.inField_reported _ reported]
      rfl
    · rfl

end Slot

namespace Format

variable {format : Format} {bs : Bytes} {size start : Nat} {checked : Bool}

/-- A record at a multiple of the size is read as one that starts its own slice. -/
theorem unpack_slice (accepted : format.Accepted) (seamless : format.Seamless)
    (sized : (format.layout 0).size = size) (multiple : size ∣ start)
    (fits : start + size ≤ bs.length) (checked : Bool) :
    format.unpackBytes bs checked start =
      (format.unpack (.bytes (bs.window start size)) checked).mapError (Fault.shift start) := by
  have length := length_window bs start size fits
  have inside : ∀ slot ∈ (format.layout 0).fields,
      Inside (bs.window start size) slot.offset slot.size := by
    intro slot member
    exact field_within member (by omega)
  have each : ∀ slot ∈ (format.layout 0).fields,
      (slot.shift start).unpacked checked format.strictness bs =
        (slot.unpacked checked format.strictness (bs.window start size)).mapError
          (Fault.shift start) := by
    intro slot member
    obtain ⟨codec, uses⟩ := field_uses member
    exact Slot.unpacked_slice uses fits (inside slot member)
  have moved : (format.layout start).fields =
      (format.layout 0).fields.map (Slot.shift · start) := by
    rw [layout_after seamless (by rw [sized]; exact Int.natCast_dvd_natCast.mpr multiple),
      Layout.fields_shift]
  have taken : Storage.ofData (.bytes (bs.window start size)) = .ok (bs.window start size) := rfl
  unfold unpackBytes unpack
  rw [unpackAt_eq format taken, Layout.unpack_eq, Layout.unpack_eq, fault_of_accepted accepted,
    fault_of_accepted accepted, moved, List.mapM_map,
    mapM_congr (f := Slot.unpacked checked format.strictness bs ∘ (Slot.shift · start)) each,
    mapM_mapError]
  cases (format.layout 0).fields.mapM
    (Slot.unpacked checked format.strictness (bs.window start size)) <;> rfl

theorem unpack_slice_fault (accepted : format.Accepted)
    (enough : (format.layout 0).size ≤ bs.length) {fault : Fault}
    (failed : format.unpack (.bytes bs) checked = .error fault) :
    fault.class? = some .unpacking := by
  have taken : Storage.ofData (.bytes bs) = .ok bs := rfl
  unfold unpack at failed
  rw [unpackAt_eq format taken, Layout.unpack_eq, fault_of_accepted accepted] at failed
  rcases error_of_bind failed with read | ⟨_, _, done⟩
  · obtain ⟨slot, field, refused⟩ := mem_of_mapM_error read
    obtain ⟨codec, uses⟩ := field_uses field
    exact Slot.unpacked_inside_fault uses (field_within field enough) refused
  · cases done

theorem recordsAt_upToFault (format : Format) (bs : Bytes) (checked : Bool) (places : List Nat) :
    format.recordsAt bs checked places =
      upToFault (places.map fun place : Nat => format.unpackBytes bs checked place) := by
  induction places with
  | nil => rfl
  | cons place places ih =>
    rw [recordsAt, List.map_cons]
    cases format.unpackBytes bs checked place with
    | error fault => rfl
    | ok record => simp only [upToFault, ih]

theorem records_upToFault (accepted : format.Accepted) (seamless : format.Seamless)
    (sized : (format.layout 0).size = size) (nonempty : size ≠ 0) {data : Value}
    (taken : Storage.ofData data = .ok bs) (checked : Bool) :
    format.records data checked = upToFault ((List.range (bs.length / size)).map fun k =>
      (format.unpack (.bytes (bs.window (k * size) size)) checked).mapError
        (Fault.shift (k * size : Nat))) := by
  have recordSize : format.recordSize = .ok size := by
    rw [recordSize_eq accepted (by omega), sized, Int.toNat_natCast]
  unfold records
  simp only [recordSize, taken]
  rw [steps_whole (Nat.pos_of_ne_zero nonempty), recordsAt_upToFault, List.map_map]
  refine congrArg upToFault (List.map_congr_left ?_)
  intro k member
  exact unpack_slice accepted seamless sized (Nat.dvd_mul_left size k)
    (fits_of_whole (List.mem_range.mp member)) checked

theorem records_trailing (accepted : format.Accepted) (seamless : format.Seamless)
    (sized : (format.layout 0).size = size) (nonempty : size ≠ 0) {data : Value}
    (taken : Storage.ofData data = .ok bs) (checked : Bool) :
    format.records (.bytes (bs.take (bs.length / size * size))) checked =
      format.records data checked := by
  have whole := Nat.div_mul_le_self bs.length size
  have length : (bs.take (bs.length / size * size)).length / size = bs.length / size := by
    rw [List.length_take, Nat.min_eq_left whole, Nat.mul_div_cancel _ (by omega)]
  have takenWhole : Storage.ofData (.bytes (bs.take (bs.length / size * size))) =
      .ok (bs.take (bs.length / size * size)) := rfl
  rw [records_upToFault accepted seamless sized nonempty takenWhole,
    records_upToFault accepted seamless sized nonempty taken, length]
  refine congrArg upToFault (List.map_congr_left ?_)
  intro k member
  have short := Nat.mul_le_mul_right size (Nat.succ_le_of_lt (List.mem_range.mp member))
  rw [Nat.succ_mul] at short
  rw [window_of_take bs short]

/-- Reading a series gives the values of its slices up to the first that fails, as many as the data has
whole records. The fault is that of the slice at a place farther on, and never one of missing bytes.
What follows the last whole record is ignored. -/
theorem records_sliced (format : Format) (size : Nat) (sized : format.size = .ok (size : Int))
    (nonempty : size ≠ 0) (seamless : format.Seamless) (data : Value) (bs : Bytes)
    (taken : Storage.ofData data = .ok bs) (checked : Bool) :
    let part : Nat → Except Fault (List Value) := fun k =>
      format.unpack (.bytes (bs.slice (k * size : Nat) ((k + 1) * size : Nat))) checked
    let count := bs.length / size
    format.records data checked = upToFault ((List.range count).map fun k =>
      (part k).mapError (Fault.shift (k * size : Nat))) ∧
    (∀ k < count, ∀ fault, part k = .error fault →
      fault.class? = some .unpacking ∧
        Fault.Shifted (k * size : Nat) fault (fault.shift (k * size : Nat))) ∧
    (∀ fault, (format.records data checked).2 = some fault → fault.class? = some .unpacking) ∧
    format.records (.bytes (bs.take (count * size))) checked = format.records data checked := by
  intro part count
  have accepted := accepted_of_size sized
  have total := (eq_of_size sized).symm
  have same : ∀ k < count, part k = format.unpack (.bytes (bs.window (k * size) size)) checked := by
    intro k within
    simp only [part, slice_whole within]
  have slices : format.records data checked = upToFault ((List.range count).map fun k =>
      (part k).mapError (Fault.shift (k * size : Nat))) := by
    rw [records_upToFault accepted seamless total nonempty taken]
    refine congrArg upToFault (List.map_congr_left ?_)
    intro k member
    rw [same k (List.mem_range.mp member)]
  have kind : ∀ k < count, ∀ fault, part k = .error fault → fault.class? = some .unpacking := by
    intro k within fault failed
    rw [same k within] at failed
    have length := length_window bs (k * size) size (fits_of_whole within)
    exact unpack_slice_fault accepted (by omega) failed
  refine ⟨slices, ?_, ?_, ?_⟩
  · intro k within fault failed
    have unpacking := kind k within fault failed
    exact ⟨unpacking, Fault.shifted_unpacking _ unpacking⟩
  · intro fault ended
    rw [slices] at ended
    obtain ⟨k, member, failed⟩ := List.mem_map.mp (mem_of_upToFault ended)
    have within := List.mem_range.mp member
    cases read : part k with
    | ok values =>
      rw [read] at failed
      cases failed
    | error cause =>
      rw [read] at failed
      cases failed
      rw [Fault.class_shift]
      exact kind k within cause read
  · exact records_trailing accepted seamless total nonempty taken checked

/-- The count of the second record is refused, and two bytes are left over. -/
theorem records_sliced_refused :
    let format : Format := ⟨"@H4p", Machine.default, ⟨false, true⟩⟩
    let bs : Bytes := [1, 0, 2, 65, 66, 0, 2, 0, 9, 65, 66, 67, 1, 2]
    format.size = .ok 6 ∧ format.Seamless ∧
      format.unpack (.bytes (bs.slice 0 6)) true = .ok [.int 1, .text "AB"] ∧
      format.unpack (.bytes (bs.slice 6 12)) true = .error (.countOverflow 2 9 4) ∧
      format.records (.view (.ofBytes bs)) true =
        ([[.int 1, .text "AB"]], some (.countOverflow 8 9 4)) := by
  have total : ((Format.mk "@H4p" Machine.default ⟨false, true⟩).layout 0).size = 6 := by decide
  have sized : (Format.mk "@H4p" Machine.default ⟨false, true⟩).size = .ok 6 := by
    rw [← total]
    exact size_whole (by decide)
  have seamless : (Format.mk "@H4p" Machine.default ⟨false, true⟩).Seamless := by
    unfold Seamless
    decide
  have first : (Format.mk "@H4p" Machine.default ⟨false, true⟩).unpack
      (.bytes (Bytes.slice [1, 0, 2, 65, 66, 0, 2, 0, 9, 65, 66, 67, 1, 2] 0 6)) true =
      .ok [.int 1, .text "AB"] := rfl
  have second : (Format.mk "@H4p" Machine.default ⟨false, true⟩).unpack
      (.bytes (Bytes.slice [1, 0, 2, 65, 66, 0, 2, 0, 9, 65, 66, 67, 1, 2] 6 12)) true =
      .error (.countOverflow 2 9 4) := rfl
  intro format bs
  obtain ⟨slices, _⟩ := records_sliced format 6 sized (by decide) seamless (.view (.ofBytes bs)) bs rfl
    true
  have results : (List.range (bs.length / 6)).map (fun k =>
      (format.unpack (.bytes (bs.slice (k * 6 : Nat) ((k + 1) * 6 : Nat))) true).mapError
        (Fault.shift (k * 6 : Nat))) =
      [.ok [.int 1, .text "AB"], .error (.countOverflow 8 9 4)] := by
    have count : List.range (bs.length / 6) = [0, 1] := by decide
    rw [count]
    exact congrArg₂ (fun a b => [a.mapError (Fault.shift 0), b.mapError (Fault.shift 6)]) first second
  refine ⟨sized, seamless, first, second, ?_⟩
  rw [slices, results]
  rfl

end Format
end BinaryRecord
