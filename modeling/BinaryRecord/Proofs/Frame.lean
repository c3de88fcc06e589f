import BinaryRecord.Proofs.Filling

/-!
What packing leaves, whether it succeeds or fails. Bytes outside of the fields that were reached with
a value stay as they are, and every field before the one that fails holds the whole encoding of its
value. The encoding of a value is what its codec writes alone.
-/
namespace BinaryRecord

open Storage Bytes

def FieldType.inSteps (machine : Machine) : FieldType → Bool
  | int64 | uint64 | text | counted => true
  | pointer => machine.is64Bit
  | _ => false

namespace Slot

variable {slot : Slot} {codec : Codec} {strictness : Strictness} {v : Value} {bs : Bytes}

theorem Follows.single {convention : Convention} (follows : slot.Follows convention)
    (found : slot.codec? = some codec) (once : slot.code.inSteps convention.machine = false) :
    codec.Single := by
  rw [follows.codec] at found
  unfold Convention.codec? at found
  cases code : slot.code <;> rw [code] at found once <;>
    simp only [FieldType.codec?, Option.some.injEq, reduceCtorEq] at found <;>
    simp only [FieldType.inSteps, reduceCtorEq] at once
  case pointer =>
    rw [if_neg (by simp [once])] at found
    subst found
    trivial
  all_goals
    subst found
    trivial

def alone? (slot : Slot) (strictness : Strictness) (v : Value) (bs : Bytes) : Option Bytes :=
  match slot.codec? with
  | none => none
  | some codec =>
    match codec.write strictness v slot.offset slot.size bs with
    | .ok _ after => some (after.window slot.offset.toNat slot.size)
    | .error .. => none

theorem alone_written (uses : slot.Uses codec) {raw : Bytes}
    (encoded : codec.encode strictness (v.resolve bs) slot.offset slot.size = .ok raw)
    (inside : Inside bs slot.offset slot.size) : slot.alone? strictness v bs = some raw := by
  have written := (Codec.write_edits uses.spans strictness v slot.offset bs).written raw encoded inside
  have size := Codec.length_encode uses.spans encoded
  have window := window_overlay bs slot.offset.toNat raw (by rw [size]; exact inside.fits)
  rw [size] at window
  unfold alone?
  rw [uses.found]
  dsimp only
  rw [written]
  exact congrArg some window

theorem alone_refused (uses : slot.Uses codec)
    (refused : ¬ ((∃ raw, codec.encode strictness (v.resolve bs) slot.offset slot.size = .ok raw) ∧
      Inside bs slot.offset slot.size)) : slot.alone? strictness v bs = none := by
  obtain ⟨fault, after, failed, _⟩ :=
    (Codec.write_edits uses.spans strictness v slot.offset bs).fails refused
  unfold alone?
  rw [uses.found]
  dsimp only
  rw [failed]

end Slot

namespace Layout

def packed (layout : Layout) (strictness : Strictness) (values : List Value) (bs : Bytes) : Bytes :=
  match layout.pack false strictness values bs with
  | .ok _ after | .error _ after => after

/-- The value for a field. One that stands for the array being written is that array as the fields
before it leave it. -/
def valueAt? (layout : Layout) (strictness : Strictness) (values : List Value) (bs : Bytes)
    (k : Nat) : Option Value :=
  values[k]?.map fun v => v.resolve (layout.packed strictness (values.take k) bs)

def Holds (layout : Layout) (strictness : Strictness) (values : List Value) (before after : Bytes)
    (n : Nat) : Prop :=
  ∀ k < n, ∀ slot v, layout.fields[k]? = some slot →
    layout.valueAt? strictness values before k = some v →
    slot.alone? strictness v before = some (after.window slot.offset.toNat slot.size)

section Holding

variable {layout : Layout} {strictness : Strictness} {values : List Value} {bs mid after : Bytes}
  {k : Nat}

theorem packed_filled (uses : ∀ slot ∈ layout.fields, ∃ codec, slot.Uses codec)
    (filled : Fills strictness (layout.fields.take k) (values.take k) bs mid) :
    layout.packed strictness (values.take k) bs = mid := by
  have run : packFields false strictness (layout.fields.take k ++ layout.fields.drop k)
      (values.take k ++ []) bs = packFields false strictness (layout.fields.drop k) [] mid :=
    packFields_filled filled false
  rw [List.take_append_drop, List.append_nil] at run
  have spent : packFields false strictness (layout.fields.drop k) [] mid = .ok [] mid :=
    packFields_spent fun slot member => uses slot (List.mem_of_mem_drop member)
  unfold packed
  rw [pack_eq, run, spent]
  cases layout.fault? <;> rfl

theorem holds_of_filled {cursor : Int} (ordered : Ordered cursor layout.fields)
    (uses : ∀ slot ∈ layout.fields, ∃ codec, slot.Uses codec)
    (filled : Fills strictness (layout.fields.take k) (values.take k) bs mid)
    (kept : ∀ j < k, ∀ slot, layout.fields[j]? = some slot → Inside bs slot.offset slot.size →
      after.window slot.offset.toNat slot.size = mid.window slot.offset.toNat slot.size)
    {n : Nat} (reached : n ≤ k ∨ layout.fields.length ≤ k ∨ values.length ≤ k) :
    layout.Holds strictness values bs after n := by
  intro j below slot v field value
  obtain ⟨w, member, rfl⟩ := Option.map_eq_some_iff.mp value
  have early : j < k := by
    have := (List.getElem?_eq_some_iff.mp field).1
    have := (List.getElem?_eq_some_iff.mp member).1
    omega
  have prefixes : ∀ α : Type, ∀ xs : List α, (xs.take k).take j = xs.take j := by
    intro α xs
    rw [List.take_take, Nat.min_eq_left (Nat.le_of_lt early)]
  have start : Ordered cursor (layout.fields.take k) := ordered.take k
  obtain ⟨now, codec, raw, before, used, encoded, inside, window⟩ := filled.holds start
    ((List.getElem?_take_of_lt early).trans field) ((List.getElem?_take_of_lt early).trans member)
  rw [prefixes, prefixes] at before
  rw [packed_filled uses before, kept j early slot field inside, window]
  apply Slot.alone_written used _ inside
  rw [Value.resolve_resolve]
  exact encoded

end Holding

/-- What packing values into the bytes `before` may come to. -/
inductive Outcome (layout : Layout) (machine : Machine) (strictness : Strictness) (checked : Bool)
    (values : List Value) (before : Bytes) : EStateM.Result Fault Value Unit → Prop
  /-- Every field with a value was written, and all fields have one where that is checked. -/
  | written (after : Bytes) (whole : layout.fault? = none)
      (enough : checked = true → layout.fields.length ≤ values.length)
      (change : SameExcept (Touched (layout.fields.take values.length)) before after)
      (holds : layout.Holds strictness values before after layout.fields.length) :
      Outcome layout machine strictness checked values before (.ok () (.array after))
  /-- The value of a field cannot be written, and those of all fields before it were. -/
  | refused (fault : Fault) (after : Bytes) (k : Nat) (slot : Slot) (v : Value)
      (field : layout.fields[k]? = some slot)
      (value : layout.valueAt? strictness values before k = some v)
      (unwritable : slot.alone? strictness v before = none)
      (kind : fault.class? = some .packing)
      (place : fault.chain = Fault.place slot.code.letter slot.offset)
      (change : SameExcept (Touched (layout.fields.take (k + 1))) before after)
      (once : slot.code.inSteps machine = false →
        SameExcept (Touched (layout.fields.take k)) before after)
      (holds : layout.Holds strictness values before after k) :
      Outcome layout machine strictness checked values before (.error fault (.array after))
  /-- A dictionary stands for a character and has no entry under zero. What that raises is no fault of
  packing; its class and its place are left open. -/
  | passed (fault : Fault) (after : Bytes) (k : Nat) (slot : Slot) (v : Value)
      (field : layout.fields[k]? = some slot)
      (value : layout.valueAt? strictness values before k = some v)
      (char : slot.codec? = some .char) (keyless : v.Keyless)
      (change : SameExcept (Touched (layout.fields.take k)) before after)
      (holds : layout.Holds strictness values before after k) :
      Outcome layout machine strictness checked values before (.error fault (.array after))
  /-- There is no value for a field, and those of all fields before it were written. -/
  | missing (fault : Fault) (after : Bytes) (slot : Slot) (strict : checked = true)
      (field : layout.fields[values.length]? = some slot)
      (kind : fault.class? = some .insufficient)
      (place : fault.chain = Fault.place slot.code.letter slot.offset)
      (change : SameExcept (Touched (layout.fields.take values.length)) before after)
      (holds : layout.Holds strictness values before after values.length) :
      Outcome layout machine strictness checked values before (.error fault (.array after))
  /-- The walk over the format fails, after all fields that it reaches. -/
  | stopped (fault : Fault) (after : Bytes) (broken : layout.fault? = some fault)
      (enough : checked = true → layout.fields.length ≤ values.length)
      (change : SameExcept (Touched (layout.fields.take values.length)) before after)
      (holds : layout.Holds strictness values before after layout.fields.length) :
      Outcome layout machine strictness checked values before (.error fault (.array after))

variable {layout : Layout} {machine : Machine} {strictness : Strictness} {checked : Bool}
  {values : List Value} {bs mid after : Bytes} {k : Nat}

theorem sameExcept_reached (filled : Fills strictness (layout.fields.take k) (values.take k) bs mid)
    (all : layout.fields.length ≤ k ∨ values.length ≤ k) :
    SameExcept (Touched (layout.fields.take values.length)) bs mid := by
  have same := filled.one_each
  rw [List.length_take, List.length_take] at same
  have taken : layout.fields.take k = layout.fields.take values.length := by
    rw [List.take_eq_take_iff]
    omega
  rw [← taken]
  exact filled.sameExcept

theorem packOnto_array (layout : Layout) (checked : Bool) (strictness : Strictness)
    (values : List Value) (bs : Bytes) :
    layout.packOnto checked strictness values (.array bs) =
      match packFields checked strictness layout.fields values bs, layout.fault? with
      | .ok _ after, none => .ok () (.array after)
      | .ok _ after, some fault => .error fault (.array after)
      | .error fault after, _ => .error fault (.array after) := by
  unfold packOnto
  dsimp only
  rw [pack_eq]
  cases packFields checked strictness layout.fields values bs <;> cases layout.fault? <;> rfl

theorem Outcome.of_reached {cursor : Int} (ordered : Ordered cursor layout.fields)
    (uses : ∀ slot ∈ layout.fields, ∃ codec, slot.Uses codec)
    (filled : Fills strictness (layout.fields.take k) (values.take k) bs mid)
    (all : layout.fields.length ≤ k ∨ values.length ≤ k)
    (enough : checked = true → layout.fields.length ≤ values.length) :
    layout.Outcome machine strictness checked values bs
      (match layout.fault? with
      | none => .ok () (.array mid)
      | some fault => .error fault (.array mid)) := by
  have change := sameExcept_reached filled all
  have holds : layout.Holds strictness values bs mid layout.fields.length :=
    holds_of_filled ordered uses filled (fun _ _ _ _ _ => rfl) (Or.inr all)
  cases whole : layout.fault? with
  | none => exact Outcome.written mid whole enough change holds
  | some fault => exact Outcome.stopped fault mid whole enough change holds

theorem Outcome.of_refused {cursor : Int} (ordered : Ordered cursor layout.fields)
    (uses : ∀ slot ∈ layout.fields, ∃ codec, slot.Uses codec)
    (filled : Fills strictness (layout.fields.take k) (values.take k) bs mid)
    {slot : Slot} {codec : Codec} {v : Value} {fault : Fault} (used : slot.Uses codec)
    (single : slot.code.inSteps machine = false → codec.Single)
    (field : layout.fields[k]? = some slot) (member : values[k]? = some v)
    (refused : ¬ ((∃ raw, codec.encode strictness (v.resolve mid) slot.offset slot.size = .ok raw) ∧
      Inside mid slot.offset slot.size))
    (failed : slot.pack codec strictness v mid = .error fault after) :
    layout.Outcome machine strictness checked values bs (.error fault (.array after)) := by
  obtain ⟨fault', after', failed', fails, change, once⟩ := Slot.pack_refused used refused
  cases failed.symm.trans failed'
  have value : layout.valueAt? strictness values bs k = some (v.resolve mid) := by
    unfold valueAt?
    rw [member, packed_filled uses filled]
    rfl
  have holds : layout.Holds strictness values bs after k := by
    refine holds_of_filled ordered uses filled ?_ (Or.inl (Nat.le_refl k))
    intro j before other early inside
    have apart := ordered.precedes before early field
    apply change.window
    intro i low high covers
    have := covers.1
    have := inside.1
    unfold Slot.stop at apart
    omega
  have kept : codec.Single → SameExcept (Touched (layout.fields.take k)) bs after := by
    intro step
    rw [once step]
    exact filled.sameExcept
  rcases fails with ⟨kind, place⟩ | ⟨char, keyless, _⟩
  · have unwritable : slot.alone? strictness (v.resolve mid) bs = none := by
      apply Slot.alone_refused used
      rintro ⟨encoded, inside⟩
      rw [Value.resolve_resolve] at encoded
      exact refused ⟨encoded, inside.congr filled.length⟩
    have covered : ∀ i, slot.Covers i → Touched (layout.fields.take (k + 1)) i := by
      intro i covers
      refine ⟨slot, ?_, covers⟩
      apply List.mem_of_getElem?
      exact (List.getElem?_take_of_lt (Nat.lt_succ_self k)).trans field
    have earlier : ∀ i, Touched (layout.fields.take k) i →
        Touched (layout.fields.take (k + 1)) i := by
      intro i
      apply Touched.mono
      intro other before
      exact (List.take_subset_take_left _ (Nat.le_succ k)) before
    exact Outcome.refused fault after k slot (v.resolve mid) field value unwritable kind place
      ((filled.sameExcept.mono earlier).trans (change.mono covered)) (fun step => kept (single step))
      holds
  · -- The codec of characters takes one step.
    cases used.found.symm.trans char
    exact Outcome.passed fault after k slot (v.resolve mid) field value char keyless
      (kept trivial) holds

end Layout

namespace Format

theorem packAt_eq (format : Format) (offset : Int) (arguments : List Value) (checked : Bool) :
    format.packAt offset arguments checked = (format.layout offset).packOnto
      (spread arguments checked).2 format.strictness (spread arguments checked).1 := rfl

theorem packOnto_outcome (format : Format) (offset : Int) (checked : Bool) (values : List Value)
    (bs : Bytes) :
    (format.layout offset).Outcome format.machine format.strictness checked values bs
      ((format.layout offset).packOnto checked format.strictness values (.array bs)) := by
  have follows : ∀ slot ∈ (format.layout offset).fields, slot.Follows format.convention.1 := by
    intro slot member
    exact field_follows member
  have uses : ∀ slot ∈ (format.layout offset).fields, ∃ codec, slot.Uses codec := by
    intro slot member
    exact field_uses member
  have ordered := format.fields_ordered offset
  have machine : format.convention.1.machine = format.machine :=
    Convention.chosen_machine format.machine format.text.toList
  generalize format.layout offset = layout at *
  obtain ⟨k, mid, filled, ends⟩ :=
    Layout.packFields_run checked format.strictness layout.fields values bs uses
  have lengths := filled.one_each
  rw [List.length_take, List.length_take] at lengths
  rw [Layout.packOnto_array]
  generalize Layout.packFields checked format.strictness layout.fields values bs = result at ends ⊢
  generalize fieldsLeft : layout.fields.drop k = fields at ends
  generalize valuesLeft : values.drop k = left at ends
  cases ends with
  | done =>
    have all : layout.fields.length ≤ k := List.drop_eq_nil_iff.mp fieldsLeft
    have outcome : layout.Outcome format.machine format.strictness checked values bs _ :=
      Layout.Outcome.of_reached ordered uses filled (Or.inl all) (by omega)
    cases whole : layout.fault? <;> rw [whole] at outcome <;> exact outcome
  | spent _ _ lenient =>
    have all : values.length ≤ k := List.drop_eq_nil_iff.mp valuesLeft
    have outcome : layout.Outcome format.machine format.strictness checked values bs _ :=
      Layout.Outcome.of_reached ordered uses filled (Or.inr all) (by simp [lenient])
    cases whole : layout.fault? <;> rw [whole] at outcome <;> exact outcome
  | missing slot rest _ strict =>
    have field : layout.fields[k]? = some slot := by
      rw [← List.head?_drop, fieldsLeft, List.head?_cons]
    have all : values.length ≤ k := List.drop_eq_nil_iff.mp valuesLeft
    have here : k = values.length := by
      have := (List.getElem?_eq_some_iff.mp field).1
      omega
    subst here
    exact Layout.Outcome.missing _ mid slot strict field rfl rfl filled.sameExcept
      (Layout.holds_of_filled ordered uses filled (fun _ _ _ _ _ => rfl)
        (Or.inl (Nat.le_refl _)))
  | @refused slot codec v _ after fault rest more used refused failed =>
    have field : layout.fields[k]? = some slot := by
      rw [← List.head?_drop, fieldsLeft, List.head?_cons]
    have member : values[k]? = some v := by
      rw [← List.head?_drop, valuesLeft, List.head?_cons]
    refine Layout.Outcome.of_refused ordered uses filled used ?_ field member refused failed
    intro once
    apply (follows slot (List.mem_of_getElem? field)).single used.found
    rw [machine]
    exact once

/-- Packing into an array has one of the outcomes, and a new record that is packed has the size of
the format, all zeros but for the fields with values. -/
theorem packing_frame (format : Format) (arguments : List Value) (checked : Bool) :
    let values := (spread arguments checked).1
    let flag := (spread arguments checked).2
    (∀ (offset : Int) (bs : Bytes),
      (format.layout offset).Outcome format.machine format.strictness flag values bs
        (format.packAt offset arguments checked (.array bs))) ∧
    ∀ record, format.pack arguments checked = .ok record →
      format.size = .ok (record.length : Int) ∧
      (format.layout 0).Holds format.strictness values format.blank record
        (format.layout 0).fields.length ∧
      ∀ i < record.length, ¬ Touched ((format.layout 0).fields.take values.length) i →
        record[i]? = some 0 := by
  intro values flag
  constructor
  · intro offset bs
    exact packOnto_outcome format offset flag values bs
  · intro record packed
    obtain ⟨whole, small⟩ := small_of_pack packed
    have outcome := packOnto_outcome format 0 flag values format.blank
    rw [pack_of_small whole small] at packed
    have written : (format.layout 0).packOnto flag format.strictness values (.array format.blank) =
        .ok () (.array record) := by
      unfold Layout.packOnto
      dsimp only
      split at packed
      · rename_i ran
        cases packed
        rw [ran]
      · cases packed
    rw [written] at outcome
    cases outcome with
    | written _ _ enough change holds =>
      refine ⟨?_, holds, ?_⟩
      · rw [size_whole whole, change.length, length_blank]
      · intro i inside free
        rw [change.untouched i free, blank, List.getElem?_replicate, if_pos]
        rw [change.length, blank, List.length_replicate] at inside
        exact inside

/-- The truth value of this format has no value, and its byte stays zero like the padding. Of the
64-bit integer only the first word has room; it is written, and the byte before it too. -/
theorem packing_frame_unfinished :
    let format : Format := ⟨"<hx?", Machine.default, Strictness.lenient⟩
    let wide : Format := ⟨"<Bq", Machine.default, Strictness.lenient⟩
    (format.pack [.list [.int 258], .bool false] true = .ok [2, 1, 0, 0] ∧ format.size = .ok 4 ∧
      (format.layout 0).Holds format.strictness [.int 258] format.blank [2, 1, 0, 0] 2 ∧
      ¬ Touched ((format.layout 0).fields.take 1) 3 ∧
      ([2, 1, 0, 0] : Bytes)[3]? = some 0) ∧
    wide.packAt 0 [.int 1, .int 5] true (.array [9, 9, 9, 9, 9]) =
      .error (.packing 'q' 1 (.outside 4 5 5)) (.array [1, 5, 0, 0, 0]) ∧
    (wide.layout 0).Holds wide.strictness [.int 1, .int 5] [9, 9, 9, 9, 9] [1, 5, 0, 0, 0] 1 := by
  have packed : (Format.mk "<hx?" Machine.default Strictness.lenient).pack
      [.list [.int 258], .bool false] true = .ok [2, 1, 0, 0] := rfl
  have failed : (Format.mk "<Bq" Machine.default Strictness.lenient).packAt 0 [.int 1, .int 5] true
      (.array [9, 9, 9, 9, 9]) =
      .error (.packing 'q' 1 (.outside 4 5 5)) (.array [1, 5, 0, 0, 0]) := rfl
  have fields : ((Format.mk "<hx?" Machine.default Strictness.lenient).layout 0).fields =
      [⟨.int16, some (.number (.int 2) .little), 0, 2⟩, ⟨.truth, some .truth, 3, 1⟩] := by
    decide
  have wideFields : ((Format.mk "<Bq" Machine.default Strictness.lenient).layout 0).fields =
      [⟨.uint8, some (.number (.uint 1) .little), 0, 1⟩, ⟨.int64, some (.quad false .little), 1, 8⟩] := by
    decide
  intro format wide
  constructor
  · have free : ¬ Touched ((format.layout 0).fields.take 1) 3 := by
      rintro ⟨slot, member, covers⟩
      rw [fields, List.take_succ_cons, List.take_zero, List.mem_singleton] at member
      subst member
      exact absurd covers.2 (by decide)
    obtain ⟨sized, holds, zeros⟩ :=
      (packing_frame format [.list [.int 258], .bool false] true).2 _ packed
    rw [fields] at holds
    exact ⟨packed, sized, holds, free, zeros 3 (by decide) free⟩
  · refine ⟨failed, ?_⟩
    have outcome := (packing_frame wide [.int 1, .int 5] true).1 0 [9, 9, 9, 9, 9]
    rw [failed] at outcome
    cases outcome with
    | refused _ _ k slot _ field _ _ _ place _ _ holds =>
      rw [wideFields] at field
      match k, field with
      | 0, field =>
        cases field
        simp [Fault.chain, Fault.place] at place
      | 1, _ => exact holds
    | passed _ _ k slot _ field _ char =>
      have numbers : ∀ slot ∈ (wide.layout 0).fields, slot.codec? ≠ some .char := by
        rw [wideFields]
        decide
      exact absurd char (numbers slot (List.mem_of_getElem? field))
    | missing _ _ _ _ _ kind => cases kind
    | stopped _ _ broken =>
      have whole : (wide.layout 0).fault? = none := fault_of_accepted (accepted_of_lenient rfl) 0
      rw [whole] at broken
      cases broken

/-- A dictionary given for a character is not refused in the name of its field. And an array packed
into itself is not what it was given as when its second field is written. -/
theorem packing_unframed :
    let chars : Format := ⟨"<cc", Machine.default, Strictness.lenient⟩
    let texts : Format := ⟨"<x1s2s", Machine.default, Strictness.lenient⟩
    let second : Slot := ⟨.text, some .text, 2, 2⟩
    (∃ fault, chars.packAt 0 [.list [.text "a", .dict []]] true (.array [0, 0]) =
        .error fault (.array [97, 0]) ∧ fault.class? = none ∧ fault.chain = []) ∧
      texts.packAt 0 [.list [.target, .target]] true (.array [97, 98, 99, 100]) =
        .ok () (.array [97, 97, 97, 97]) ∧
      (texts.layout 0).fields[1]? = some second ∧
      second.alone? Strictness.lenient (.array [97, 98, 99, 100]) [97, 98, 99, 100] =
        some [97, 98] ∧
      Bytes.window [97, 97, 97, 97] 2 2 ≠ [97, 98] :=
  ⟨⟨_, rfl, rfl, rfl⟩, rfl, by decide, rfl, by decide⟩

end Format
end BinaryRecord
