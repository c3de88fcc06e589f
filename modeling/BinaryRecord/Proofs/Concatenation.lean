import BinaryRecord.Proofs.Numeric

/-!
Records that follow each other without a gap. Fields are aligned to the start of the data and not to
the start of their record, so the records are read back if and only if every alignment of the format
divides the size of a record.
-/
namespace BinaryRecord

open Storage Bytes

namespace Bytes

theorem window_embedded (before record after : Bytes) (start size : Nat)
    (fits : start + size ≤ record.length) :
    (before ++ (record ++ after)).window (before.length + start) size = record.window start size := by
  rw [window_append_right, window_append_left fits]

end Bytes

namespace Format

/-- Every alignment of the format divides the size of a record. -/
def Seamless (format : Format) : Prop :=
  ∀ slot ∈ (format.layout 0).slots,
    (format.convention.1.alignment slot.code : Int) ∣ (format.layout 0).size

theorem layout_after {format : Format} (seamless : format.Seamless) {distance : Int}
    (multiple : (format.layout 0).size ∣ distance) :
    format.layout distance = (format.layout 0).shift distance := by
  apply layout_shift
  intro slot member
  exact Int.dvd_trans (seamless slot member) multiple

theorem unpack_embedded {format : Format} (accepted : format.Accepted) (seamless : format.Seamless)
    {before record : Bytes} {restored : List Value} {read : Bool}
    (length : (record.length : Int) = (format.layout 0).size)
    (multiple : (format.layout 0).size ∣ before.length)
    (unpacked : format.unpack (.bytes record) read = .ok restored) (checked : Bool)
    (after : Bytes) :
    format.unpackBytes (before ++ (record ++ after)) checked before.length = .ok restored := by
  have inside : ∀ slot ∈ (format.layout 0).fields, Inside record slot.offset slot.size := by
    intro slot member
    exact field_within member (Int.le_of_eq length.symm)
  have alone := (Layout.unpack_ok read format.strictness (fun slot member => field_uses member)
    inside restored).mp unpacked
  have fields : (format.layout before.length).fields =
      (format.layout 0).fields.map (Slot.shift · before.length) := by
    rw [layout_after seamless multiple, Layout.fields_shift]
  apply (Layout.unpack_ok checked format.strictness (fun slot member => field_uses member) ?_
    restored).mpr
  · refine ⟨fault_of_accepted accepted _, ?_⟩
    have reads := alone.2
    rw [fields, List.forall₂_map_left_iff]
    rw [List.forall₂_iff_zip] at reads ⊢
    refine ⟨reads.1, ?_⟩
    intro slot v member
    obtain ⟨codec, uses, decoded⟩ := reads.2 member
    have here := inside slot (List.of_mem_zip member).1
    refine ⟨codec, ⟨uses.found, uses.spans, uses.counted⟩, ?_⟩
    change codec.decode format.strictness ((before ++ (record ++ after)).window
      (slot.offset + before.length).toNat slot.size) _ = _
    have place : (slot.offset + before.length).toNat = before.length + slot.offset.toNat := by
      have := here.1
      omega
    rw [place, window_embedded _ _ _ _ _ here.fits]
    exact Codec.decode_place decoded _
  · rw [fields]
    apply shifted_within (Int.natCast_nonneg _)
    simp only [List.length_append]
    omega

/-- Values that were packed to a record of their own, and were then unpacked from it. -/
structure Trip (format : Format) where
  arguments : List Value
  checked : Bool
  record : Bytes
  read : Bool
  restored : List Value
  packed : format.pack arguments checked = .ok record
  unpacked : format.unpack (.bytes record) read = .ok restored
  same : List.Forall₂ Value.Same (spread arguments checked).1 restored

theorem recordsAt_trips {format : Format} (accepted : format.Accepted)
    (seamless : format.Seamless) {size : Nat} (sized : (size : Int) = (format.layout 0).size)
    (trips : List format.Trip) (checked : Bool) {before : Bytes} {first : Nat}
    (place : before.length = first * size) :
    format.recordsAt (before ++ trips.flatMap Trip.record) checked
      ((List.range' first trips.length).map (· * size)) = (trips.map Trip.restored, none) := by
  induction trips generalizing before first with
  | nil => rfl
  | cons trip trips ih =>
    have length := length_record trip.packed
    have divides : (format.layout 0).size ∣ (before.length : Int) := by
      rw [← sized, place]
      exact Int.natCast_dvd_natCast.mpr (Nat.dvd_mul_left size first)
    have unpacked := unpack_embedded accepted seamless length divides trip.unpacked checked
      (trips.flatMap Trip.record)
    have rest := @ih (before ++ trip.record) (first + 1) (by
      rw [List.length_append, place, Nat.succ_mul]
      omega)
    rw [List.append_assoc] at rest
    rw [place] at unpacked
    rw [List.flatMap_cons, List.length_cons, List.range'_succ, List.map_cons, recordsAt, unpacked]
    dsimp only
    rw [rest]
    rfl

theorem recordSize_eq {format : Format} (accepted : format.Accepted)
    (nonempty : (format.layout 0).size ≠ 0) :
    format.recordSize = .ok (format.layout 0).size.toNat := by
  have known := size_whole (fault_of_accepted accepted 0)
  change format.size.bind _ = _
  rw [known]
  change (do
    if (format.layout 0).size = 0 then throw (Fault.emptyRecord format.text)
    return (format.layout 0).size.toNat : Except Fault Nat) = _
  rw [if_neg nonempty]
  rfl

theorem length_trips {format : Format} {size : Nat} (sized : (size : Int) = (format.layout 0).size)
    (trips : List format.Trip) : (trips.flatMap Trip.record).length = trips.length * size := by
  induction trips with
  | nil => simp
  | cons trip trips ih =>
    have length := length_record trip.packed
    rw [List.flatMap_cons, List.length_append, ih, List.length_cons, Nat.succ_mul]
    omega

/-- There are as many places for records as whole records fit. -/
theorem steps_whole {size : Nat} (positive : 0 < size) (length : Nat) :
    steps (length + 1 - size) size = (List.range (length / size)).map (· * size) := by
  have count : (length + 1 - size + size - 1) / size = length / size := by
    by_cases short : length < size
    · rw [Nat.div_eq_of_lt short, Nat.div_eq_of_lt (by omega)]
    · congr 1
      omega
  rw [steps, count]
  apply List.ext_getElem
  · simp
  · intro k _ _
    simp [Nat.mul_comm]

theorem records_eq {format : Format} (accepted : format.Accepted)
    (nonempty : (format.layout 0).size ≠ 0) {size : Nat}
    (sized : (size : Int) = (format.layout 0).size) (trips : List format.Trip) (checked : Bool) :
    format.records (.bytes (trips.flatMap Trip.record)) checked =
      format.recordsAt (trips.flatMap Trip.record) checked
        ((List.range trips.length).map (· * size)) := by
  have taken : Storage.ofData (.bytes (trips.flatMap Trip.record)) =
      .ok (trips.flatMap Trip.record) := rfl
  unfold records
  rw [recordSize_eq accepted nonempty, ← sized, Int.toNat_natCast]
  dsimp only
  rw [taken]
  dsimp only
  rw [steps_whole (by omega), length_trips sized, Nat.mul_div_cancel _ (by omega)]

def markedRaw (slot other : Slot) : Bytes :=
  List.replicate other.size (if other = slot then 1 else 0)

theorem length_markedRaw (slot other : Slot) : (markedRaw slot other).length = other.size :=
  List.length_replicate

theorem markedRaw_self (slot : Slot) : markedRaw slot slot = List.replicate slot.size 1 := by
  rw [markedRaw, if_pos rfl]

theorem markedRaw_other {slot other : Slot} (apart : other ≠ slot) :
    markedRaw slot other = List.replicate other.size 0 := by
  rw [markedRaw, if_neg apart]

theorem clean_marked {format : Format} {slot : Slot} (numeric : slot.code.isNumeric = true) :
    format.Clean (markedRaw slot) := by
  intro other field
  obtain ⟨codec, uses⟩ := field_uses field
  have found := field_found field uses
  by_cases same : other = slot
  · subst same
    rw [markedRaw_self]
    exact FieldType.clean_ones numeric found uses.spans
  · rw [markedRaw_other same]
    exact FieldType.clean_zeros found uses.spans

theorem counts_marked {format : Format} {slot other : Slot} (numeric : slot.code.isNumeric = true)
    (field : other ∈ (format.layout 0).fields) (counted : other.code = .counted) :
    ((markedRaw slot other).headD 0).toNat < other.size := by
  have apart : other ≠ slot := by
    rintro rfl
    rw [counted] at numeric
    cases numeric
  have size := (field_follows field).size
  rw [counted] at size
  obtain ⟨n, same⟩ := Nat.exists_eq_add_of_le' size
  rw [markedRaw_other apart, same]
  exact Nat.succ_pos n

theorem covers_of_one {format : Format} {slot : Slot} {record : Bytes}
    (canonical : format.Canonical (markedRaw slot) record) {i : Nat} (one : record[i]? = some 1) :
    slot.Covers i := by
  have low : i < record.length := (List.getElem?_eq_some_iff.mp one).1
  by_cases touched : Touched (format.layout 0).fields i
  · obtain ⟨other, field, covers⟩ := touched
    by_cases same : other = slot
    · rw [← same]
      exact covers
    · exfalso
      obtain ⟨codec, uses⟩ := field_uses field
      have window := canonical.fields other field
      rw [markedRaw_other same, FieldType.canonical_zeros (field_found field uses) uses.spans]
        at window
      have start := (field_inside field).1
      have here := covers.1
      have there := covers.2
      unfold Slot.stop at there
      have zero : (record.window other.offset.toNat other.size)[i - other.offset.toNat]? =
          (List.replicate other.size 0)[i - other.offset.toNat]? := by
        rw [window]
      rw [getElem?_window, if_pos (by omega), List.getElem?_replicate, if_pos (by omega)] at zero
      have place : other.offset.toNat + (i - other.offset.toNat) = i := by omega
      rw [place, one] at zero
      cases zero
  · rw [canonical.gaps i low touched] at one
    cases one

/-- A trip whose record is zero but for the bytes of one number. -/
structure Marks {format : Format} (trip : format.Trip) (slot : Slot) : Prop where
  field : trip.record.window slot.offset.toNat slot.size = List.replicate slot.size 1
  only : ∀ i, trip.record[i]? = some 1 → slot.Covers i

theorem exists_marked {format : Format} (accepted : format.Accepted)
    (small : (format.layout 0).size < 2 ^ 63) {slot : Slot}
    (member : slot ∈ (format.layout 0).fields) (numeric : slot.code.isNumeric = true) :
    ∃ trip : format.Trip, Marks trip slot := by
  obtain ⟨values, record, _, packed, canonical, unpacked⟩ :=
    canonical_record accepted small (fun other _ => length_markedRaw slot other) (clean_marked numeric)
      (fun _ other field counted => counts_marked numeric field counted)
  refine ⟨⟨[.list values], true, record, true, values, packed _ _ rfl, unpacked true,
    List.forall₂_same.mpr fun v _ => Or.inl rfl⟩, ?_, ?_⟩
  · change record.window slot.offset.toNat slot.size = _
    rw [canonical.fields slot member, FieldType.canonical_numeric numeric, markedRaw_self]
  · intro i one
    exact covers_of_one canonical one

theorem recordsAt_cons {format : Format} {bs : Bytes} {checked : Bool} {place : Nat}
    {places : List Nat} {record : List Value} {rest : List (List Value)} {fault? : Option Fault}
    (read : format.recordsAt bs checked (place :: places) = (record :: rest, fault?)) :
    format.unpackBytes bs checked place = .ok record ∧
      format.recordsAt bs checked places = (rest, fault?) := by
  rw [recordsAt] at read
  split at read
  · cases read
  · rename_i unpacked
    cases read
    exact ⟨unpacked, rfl⟩

theorem field_at {format : Format} {first : Int} {k : Nat} {slot : Slot}
    (field : (format.layout first).fields[k]? = some slot) (second : Int) :
    ∃ other, (format.layout second).fields[k]? = some other ∧ other.shape = slot.shape := by
  have shapes : ((format.layout second).fields.map Slot.shape)[k]? =
      ((format.layout first).fields.map Slot.shape)[k]? := by
    rw [format.fields_shapes second first]
  rw [List.getElem?_map, List.getElem?_map, field] at shapes
  exact Option.map_eq_some_iff.mp shapes

theorem second_read {format : Format} (accepted : format.Accepted)
    (nonempty : (format.layout 0).size ≠ 0) {trip : format.Trip} {checked : Bool}
    (read : format.records (.bytes ([trip, trip].flatMap Trip.record)) checked =
      ([trip, trip].map Trip.restored, none)) :
    format.unpackBytes (trip.record ++ trip.record) checked (format.layout 0).size =
      .ok trip.restored := by
  have sized := Int.toNat_of_nonneg format.size_nonneg
  rw [records_eq accepted nonempty sized] at read
  obtain ⟨_, second⟩ := recordsAt_cons read
  obtain ⟨unpacked, _⟩ := recordsAt_cons second
  change format.unpackBytes _ checked ((1 * (format.layout 0).size.toNat : Nat) : Int) = _
    at unpacked
  rw [Nat.one_mul, sized, List.flatMap_cons, List.flatMap_singleton] at unpacked
  exact unpacked

theorem counterpart_marked {format : Format} {k : Nat} {slot other : Slot} {start : Int}
    (field : (format.layout 0).fields[k]? = some slot) (numeric : slot.code.isNumeric = true)
    (moved : (format.layout start).fields[k]? = some other) (same : other.shape = slot.shape)
    {trip : format.Trip} (marks : Marks trip slot) {bs : Bytes} {checked : Bool}
    (forward : 0 ≤ start) (read : format.unpackBytes bs checked start = .ok trip.restored) :
    Inside bs other.offset other.size ∧
      bs.window other.offset.toNat other.size = List.replicate other.size 1 := by
  obtain ⟨code, codec?, size⟩ : other.code = slot.code ∧ other.codec? = slot.codec? ∧
      other.size = slot.size := by
    simpa [Slot.shape] using same
  obtain ⟨codec, uses⟩ := field_uses (List.mem_of_getElem? field)
  have usesOther : other.Uses codec := (field_follows (List.mem_of_getElem? moved)).uses
    (codec?.trans uses.found)
  have found := field_found (List.mem_of_getElem? moved) usesOther
  rw [← code] at numeric
  have inside : ∀ slot ∈ (format.layout 0).fields, Inside trip.record slot.offset slot.size := by
    intro slot member
    exact field_within member (Int.le_of_eq (length_record trip.packed).symm)
  have alone := ((Layout.unpack_ok trip.read format.strictness
    (fun slot member => field_uses member) inside trip.restored).mp trip.unpacked).2
  have again := ((Layout.unpack_fields _ _ _ _ _).mp read).2
  obtain ⟨below, here⟩ := List.getElem?_eq_some_iff.mp field
  obtain ⟨belowOther, there⟩ := List.getElem?_eq_some_iff.mp moved
  have restored : k < trip.restored.length := by
    rw [← alone.length_eq]
    exact below
  have one := List.Forall₂.get alone below restored
  have two := List.Forall₂.get again belowOther restored
  rw [List.get_eq_getElem, here] at one
  rw [List.get_eq_getElem, there] at two
  obtain ⟨first, used, decoded⟩ := one
  obtain ⟨last, taken, unpacked⟩ := two
  cases usesOther.found.symm.trans taken
  cases uses.found.symm.trans used.found
  have insideOther := Codec.inside_of_read numeric found usesOther.spans (field_start forward
    (List.mem_of_getElem? moved)) (Slot.read_of_unpack unpacked)
  obtain ⟨_, alike, decodedOther⟩ :=
    (Slot.unpack_of_inside usesOther checked format.strictness insideOther _).mp unpacked
  cases usesOther.found.symm.trans alike.found
  rw [marks.field, ← size] at decoded
  exact ⟨insideOther, FieldType.decode_injective found numeric usesOther.spans
    (length_window _ _ _ insideOther.fits) List.length_replicate
    (FieldType.clean_ones numeric found usesOther.spans) decodedOther
    (Codec.decode_place decoded other.offset)⟩

theorem offset_of_records {format : Format} (accepted : format.Accepted)
    (nonempty : (format.layout 0).size ≠ 0) {k : Nat} {slot other : Slot}
    (field : (format.layout 0).fields[k]? = some slot) (numeric : slot.code.isNumeric = true)
    (positive : 0 < slot.size)
    (moved : (format.layout (format.layout 0).size).fields[k]? = some other)
    (same : other.shape = slot.shape) {trip : format.Trip} (marks : Marks trip slot) {checked : Bool}
    (read : format.records (.bytes ([trip, trip].flatMap Trip.record)) checked =
      ([trip, trip].map Trip.restored, none)) :
    other.offset = slot.offset + (format.layout 0).size := by
  have length := length_record trip.packed
  obtain ⟨inside, ones⟩ :=
    counterpart_marked field numeric moved same marks format.size_nonneg
      (second_read accepted nonempty read)
  have low := ((format.fields_ordered (format.layout 0).size).bounds
    (List.mem_of_getElem? moved)).1
  have size : other.size = slot.size := by
    simp only [Slot.shape, Prod.mk.injEq] at same
    exact same.2.2
  have covered : ∀ j < other.size, slot.Covers (other.offset.toNat + j - trip.record.length) := by
    intro j short
    apply marks.only
    have byte : ((trip.record ++ trip.record : Bytes).window other.offset.toNat other.size)[j]? =
        some 1 := by
      rw [ones, List.getElem?_replicate, if_pos short]
    rw [getElem?_window, if_pos short, List.getElem?_append_right (by omega)] at byte
    exact byte
  -- The marked bytes of the second record begin and end with those of the field.
  have left := (covered 0 (by omega)).1
  have right := (covered (other.size - 1) (by omega)).2
  unfold Slot.stop at right
  omega

theorem numeric_size {format : Format} (pointers : 0 < format.machine.pointerWidth) {start : Int}
    {slot : Slot} (reached : slot ∈ (format.layout start).slots)
    (numeric : slot.code.isNumeric = true) :
    slot.size = format.convention.1.size slot.code ∧ 0 < slot.size := by
  have size := (slot_follows reached).size
  have machine : format.convention.1.machine = format.machine :=
    Convention.chosen_machine format.machine format.text.toList
  have positive : 0 < format.convention.1.size slot.code := by
    unfold Convention.size
    rw [machine]
    cases slot.code with
    | pointer => exact pointers
    | _ => exact Nat.succ_pos _
  have same : slot.size = format.convention.1.size slot.code := by
    cases code : slot.code <;> rw [code] at size numeric <;> first | exact size | cases numeric
  rw [same]
  exact ⟨rfl, positive⟩

theorem seamless_of_records {format : Format} (accepted : format.Accepted)
    (nonempty : (format.layout 0).size ≠ 0) (pointers : 0 < format.machine.pointerWidth)
    (small : (format.layout 0).size < 2 ^ 63)
    (read : ∀ trip : format.Trip,
      format.records (.bytes ([trip, trip].flatMap Trip.record)) false =
        ([trip, trip].map Trip.restored, none)) : format.Seamless := by
  intro slot reached
  by_cases numeric : slot.code.isNumeric = true
  · obtain ⟨size, positive⟩ := numeric_size pointers reached numeric
    by_cases native : format.convention.1.native = true
    · have field : slot ∈ (format.layout 0).fields := by
        refine Layout.mem_fields.mpr ⟨reached, ?_⟩
        rw [(slot_follows reached).codec]
        unfold Convention.codec?
        cases code : slot.code <;> rw [code] at numeric <;> first | exact ⟨_, rfl⟩ | cases numeric
      obtain ⟨trip, marks⟩ := exists_marked accepted small field numeric
      obtain ⟨k, here⟩ := List.mem_iff_getElem?.mp field
      obtain ⟨other, there, same⟩ := field_at here (format.layout 0).size
      have moved := offset_of_records accepted nonempty here numeric positive there same marks
        (read trip)
      have alignment : format.convention.1.alignment slot.code = slot.size := by
        rw [Convention.alignment, if_pos native, size]
      have code : other.code = slot.code := by
        simp only [Slot.shape, Prod.mk.injEq] at same
        exact same.1
      have first := (field_follows field).aligned
      have second := (field_follows (List.mem_of_getElem? there)).aligned
      rw [code, moved] at second
      rw [alignment] at first second ⊢
      rcases first with zero | first
      · omega
      · rcases second with zero | second
        · omega
        · exact (Int.dvd_add_right first).mp second
    · rw [Convention.alignment, if_neg native]
      exact Int.one_dvd _
  · rw [FieldType.alignment_of_not_numeric (by simpa using numeric)]
    exact Int.one_dvd _

/-- All records that can be packed are read back from their concatenation if and only if every
alignment of the format divides its size. No record of `2 ^ 63` bytes or more can be packed. -/
theorem records_concatenated_iff (format : Format) (accepted : format.Accepted)
    (nonempty : (format.layout 0).size ≠ 0) (pointers : 0 < format.machine.pointerWidth) :
    (∀ (trips : List format.Trip) (checked : Bool),
      format.records (.bytes (trips.flatMap Trip.record)) checked =
        (trips.map Trip.restored, none)) ↔
      ((format.layout 0).size < 2 ^ 63 → format.Seamless) := by
  constructor
  · intro read small
    exact seamless_of_records accepted nonempty pointers small fun trip => read [trip, trip] false
  · intro seamless trips checked
    have sized := Int.toNat_of_nonneg format.size_nonneg
    rw [records_eq accepted nonempty sized, List.range_eq_range']
    cases trips with
    | nil => rfl
    | cons trip trips =>
      have small := (small_of_pack trip.packed).2
      have read := @recordsAt_trips format accepted (seamless small) _ sized (trip :: trips) checked
        [] 0 (Nat.zero_mul _).symm
      rw [List.nil_append] at read
      exact read

/-- A record of five bytes with a number that is aligned to four. -/
theorem records_concatenated_unaligned :
    let format : Format := ⟨"@ic", Machine.default, Strictness.lenient⟩
    format.Accepted ∧ (format.layout 0).size = 5 ∧
      ¬ ∀ (trips : List format.Trip) (checked : Bool),
        format.records (.bytes (trips.flatMap Trip.record)) checked =
          (trips.map Trip.restored, none) := by
  have accepted : (Format.mk "@ic" Machine.default Strictness.lenient).Accepted := by decide
  have size : ((Format.mk "@ic" Machine.default Strictness.lenient).layout 0).size = 5 := by decide
  have number : (⟨.int32, some (.number (.int 4) .little), 0, 4⟩ : Slot) ∈
      ((Format.mk "@ic" Machine.default Strictness.lenient).layout 0).slots := by decide
  intro format
  refine ⟨accepted, size, ?_⟩
  intro read
  have nonempty : (format.layout 0).size ≠ 0 := by
    rw [size]
    decide
  have seamless := (records_concatenated_iff format accepted nonempty (by decide)).mp read
    (by rw [size]; decide)
  have divides := seamless _ number
  rw [size] at divides
  exact absurd divides (by decide)

end Format
end BinaryRecord
