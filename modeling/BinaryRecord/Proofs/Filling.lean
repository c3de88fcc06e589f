import BinaryRecord.Packing
import BinaryRecord.Proofs.Encoding
import Mathlib.Data.List.Forall2

/-!
Values written to fields one after the other. A run is a chain of fields that were filled, each from
the bytes that the one before left, and after it the reason why there is no next one.
-/
namespace BinaryRecord

open Storage Bytes

namespace Value

theorem standing_standing (v : Value) (first second : Bytes) :
    (v.standing first).standing second = v.standing first := by
  cases v <;> rfl

theorem resolve_resolve (v : Value) (first second : Bytes) :
    (v.resolve first).resolve second = v.resolve first := by
  cases v with
  | list vs | tuple vs | dict entries =>
    simp only [resolve, List.map_map]
    congr 1
    apply List.map_congr_left
    intro member _
    simp only [Function.comp_apply, standing_standing]
  | _ => rfl

end Value

def Touched (fields : List Slot) (i : Nat) : Prop := ∃ slot ∈ fields, slot.Covers i

theorem Touched.mono {few many : List Slot} (more : ∀ slot ∈ few, slot ∈ many) {i : Nat}
    (touched : Touched few i) : Touched many i := by
  obtain ⟨slot, member, covers⟩ := touched
  exact ⟨slot, more slot member, covers⟩

theorem Touched.of_take {fields : List Slot} {n i : Nat} (touched : Touched (fields.take n) i) :
    Touched fields i :=
  touched.mono fun _ member => List.mem_of_mem_take member

theorem Slot.overlay_covers {slot : Slot} {bs raw : Bytes} (size : raw.length = slot.size)
    (inside : Inside bs slot.offset slot.size) :
    SameExcept slot.Covers bs (bs.overlay slot.offset.toNat raw) := by
  have step := SameExcept.overlay bs slot.offset.toNat raw (by rw [size]; exact inside.fits)
  refine step.mono ?_
  intro i covered
  have start := inside.1
  unfold Slot.Covers Slot.stop
  omega

theorem Slot.inside_rest {slot : Slot} {fields : List Slot} {bs raw : Bytes}
    (size : raw.length = slot.size)
    (inside : ∀ other ∈ slot :: fields, Inside bs other.offset other.size) :
    ∀ other ∈ fields, Inside (bs.overlay slot.offset.toNat raw) other.offset other.size := by
  have step := Slot.overlay_covers size (inside slot List.mem_cons_self)
  intro other member
  exact (inside other (List.mem_cons_of_mem slot member)).congr step.length

theorem Ordered.free_before {cursor : Int} {fields : List Slot} (ordered : Ordered cursor fields)
    {i : Nat} (before : (i : Int) < cursor) : ¬ Touched fields i := by
  rintro ⟨slot, member, covers⟩
  have := (ordered.bounds member).1
  have := covers.1
  omega

/-- The fields were filled with the values in order, which turned the first bytes into the last. -/
inductive Fills (strictness : Strictness) : List Slot → List Value → Bytes → Bytes → Prop
  | nil (bs : Bytes) : Fills strictness [] [] bs bs
  | cons {slot : Slot} {codec : Codec} {v : Value} {raw bs after : Bytes} {fields : List Slot}
      {values : List Value} (uses : slot.Uses codec)
      (encoded : codec.encode strictness (v.resolve bs) slot.offset slot.size = .ok raw)
      (inside : Inside bs slot.offset slot.size)
      (rest : Fills strictness fields values (bs.overlay slot.offset.toNat raw) after) :
      Fills strictness (slot :: fields) (v :: values) bs after

namespace Fills

variable {strictness : Strictness} {fields : List Slot} {values : List Value} {bs after : Bytes}

theorem sameExcept (filled : Fills strictness fields values bs after) :
    SameExcept (Touched fields) bs after := by
  induction filled with
  | nil bs => exact SameExcept.refl _ bs
  | @cons slot codec v raw bs after fields values uses encoded inside rest ih =>
    have step := Slot.overlay_covers (Codec.length_encode uses.spans encoded) inside
    refine (step.mono ?_).trans (ih.mono ?_)
    · intro i covers
      exact ⟨slot, List.mem_cons_self, covers⟩
    · intro i touched
      exact touched.mono fun slot member => List.mem_cons_of_mem _ member

theorem length (filled : Fills strictness fields values bs after) : after.length = bs.length :=
  filled.sameExcept.length

theorem one_each (filled : Fills strictness fields values bs after) :
    fields.length = values.length := by
  induction filled with
  | nil bs => rfl
  | cons uses encoded inside rest ih => simp only [List.length_cons, ih]

/-- In the end a field holds the encoding of its value, taken as it was when the fields before it
were filled. -/
theorem holds (filled : Fills strictness fields values bs after) {cursor : Int}
    (ordered : Ordered cursor fields) {k : Nat} {slot : Slot} {v : Value}
    (field : fields[k]? = some slot) (value : values[k]? = some v) :
    ∃ mid codec raw, Fills strictness (fields.take k) (values.take k) bs mid ∧
      slot.Uses codec ∧ codec.encode strictness (v.resolve mid) slot.offset slot.size = .ok raw ∧
      Inside bs slot.offset slot.size ∧ after.window slot.offset.toNat slot.size = raw := by
  induction filled generalizing cursor k with
  | nil bs => simp at field
  | @cons first codec w raw bs after fields values uses encoded inside rest ih =>
    have size := Codec.length_encode uses.spans encoded
    have fits : first.offset.toNat + raw.length ≤ bs.length := by
      rw [size]
      exact inside.fits
    cases k with
    | zero =>
      simp only [List.getElem?_cons_zero, Option.some.injEq] at field value
      subst field value
      refine ⟨bs, codec, raw, Fills.nil bs, uses, encoded, inside, ?_⟩
      -- The fields after this one begin where it ends.
      have free : ∀ i, first.offset.toNat ≤ i → i < first.offset.toNat + first.size →
          ¬ Touched fields i := by
        intro i _ high
        apply ordered.2.free_before
        have := inside.1
        unfold Slot.stop
        omega
      rw [rest.sameExcept.window free, ← size]
      exact window_overlay bs _ raw fits
    | succ k =>
      simp only [List.getElem?_cons_succ] at field value
      obtain ⟨mid, other, bytes, before, uses', encoded', inside', kept⟩ :=
        ih ordered.2 field value
      refine ⟨mid, other, bytes, Fills.cons uses encoded inside before, uses', encoded', ?_, kept⟩
      unfold Inside at *
      rw [length_overlay _ _ _ fits] at inside'
      exact inside'

theorem all_hold (filled : Fills strictness fields values bs after) {cursor : Int}
    (ordered : Ordered cursor fields) :
    List.Forall₂ (fun slot v => ∃ mid codec raw, slot.Uses codec ∧
      codec.encode strictness (v.resolve mid) slot.offset slot.size = .ok raw ∧
      after.window slot.offset.toNat slot.size = raw) fields values := by
  rw [List.forall₂_iff_get]
  constructor
  · exact filled.one_each
  · intro k low high
    obtain ⟨mid, codec, raw, _, uses, encoded, _, window⟩ := filled.holds ordered
      (List.getElem?_eq_getElem low) (List.getElem?_eq_getElem high)
    exact ⟨mid, codec, raw, uses, encoded, window⟩

theorem exists_of_encodes (paired : List.Forall₂ (fun slot v => ∃ codec, slot.Uses codec ∧
      ∀ now, ∃ raw, codec.encode strictness (v.resolve now) slot.offset slot.size = .ok raw)
      fields values)
    (inside : ∀ slot ∈ fields, Inside bs slot.offset slot.size) :
    ∃ after, Fills strictness fields values bs after := by
  induction paired generalizing bs with
  | nil => exact ⟨bs, Fills.nil bs⟩
  | @cons slot v fields values head _ ih =>
    obtain ⟨codec, uses, encodes⟩ := head
    obtain ⟨raw, encoded⟩ := encodes bs
    obtain ⟨after, rest⟩ := ih (Slot.inside_rest (Codec.length_encode uses.spans encoded) inside)
    exact ⟨after, Fills.cons uses encoded (inside slot List.mem_cons_self) rest⟩

end Fills

namespace Slot

variable {slot : Slot} {codec : Codec} {strictness : Strictness} {v : Value} {bs raw : Bytes}
  {fault : Fault}

theorem pack_written (uses : slot.Uses codec)
    (encoded : codec.encode strictness (v.resolve bs) slot.offset slot.size = .ok raw)
    (inside : Inside bs slot.offset slot.size) :
    slot.pack codec strictness v bs = .ok () (bs.overlay slot.offset.toNat raw) := by
  have written := (Codec.write_edits uses.spans strictness v slot.offset bs).written raw encoded inside
  change EStateM.adaptExcept _ _ bs = _
  rw [EStateM.adaptExcept, written]

/-- What a field fails with for a value: a fault that names the field, or that of a dictionary in
place of a character, which passes through. -/
def Fails (slot : Slot) (v : Value) (fault : Fault) : Prop :=
  (fault.class? = some .packing ∧ fault.chain = Fault.place slot.code.letter slot.offset) ∨
    (slot.codec? = some .char ∧ v.Keyless ∧ fault.IsUnreported)

theorem Fails.kind (fails : slot.Fails v fault) :
    fault.class? = some .packing ∨ fault.IsUnreported := by
  rcases fails with named | passed
  · exact Or.inl named.1
  · exact Or.inr passed.2.2

theorem fails_inPacking (uses : slot.Uses codec)
    (known : fault.IsReported ∨
      (codec = .counted ∧ ∃ size, fault = .countedTooLong slot.offset size slot.size) ∨
      (codec = .char ∧ v.Keyless ∧ fault.IsUnreported)) :
    slot.Fails v (Fault.inPacking slot.code.letter slot.offset fault) := by
  rcases known with ⟨plain, reported, rfl⟩ | ⟨counted, size, rfl⟩ | ⟨char, keyless, item, rfl⟩
  · rw [Fault.inPacking, Fault.inField_reported _ reported]
    exact Or.inl ⟨rfl, rfl⟩
  · refine Or.inl ⟨rfl, ?_⟩
    rw [uses.counted counted]
    rfl
  · exact Or.inr ⟨uses.found.trans (congrArg some char), keyless, item, rfl⟩

/-- A field whose value has no encoding, or that is not inside, is refused. No byte outside of it
changes, nor any byte where the codec takes a single step. -/
theorem pack_refused (uses : slot.Uses codec)
    (refused : ¬ ((∃ raw, codec.encode strictness (v.resolve bs) slot.offset slot.size = .ok raw) ∧
      Inside bs slot.offset slot.size)) :
    ∃ fault after, slot.pack codec strictness v bs = .error fault after ∧
      slot.Fails (v.resolve bs) fault ∧ SameExcept slot.Covers bs after ∧
      (codec.Single → after = bs) := by
  obtain ⟨fault, after, error, cause, change, single⟩ :=
    (Codec.write_edits uses.spans strictness v slot.offset bs).fails refused
  refine ⟨_, after, ?_, fails_inPacking uses (cause.elim Codec.encode_fault Or.inl), change, single⟩
  change EStateM.adaptExcept _ _ bs = _
  rw [EStateM.adaptExcept, error]

end Slot

namespace Layout

def packFields (checked : Bool) (strictness : Strictness) (fields : List Slot)
    (values : List Value) : Edit (List Value) :=
  fields.foldlM (packStep checked strictness) values

variable {checked : Bool} {strictness : Strictness} {slot : Slot} {fields : List Slot} {v : Value}
  {values : List Value} {bs mid after : Bytes} {codec : Codec} {fault : Fault}

theorem foldlM_packStep (checked : Bool) (strictness : Strictness) (slots : List Slot)
    (values : List Value) : slots.foldlM (packStep checked strictness) values =
      packFields checked strictness (slots.filter fun slot => !slot.isPadding) values := by
  unfold packFields
  induction slots generalizing values with
  | nil => rfl
  | cons slot slots ih =>
    cases found : slot.codec? with
    | none =>
      have padding : ¬ (!slot.isPadding) = true := by simp [Slot.isPadding, found]
      have skip : packStep checked strictness values slot = pure values := by
        unfold packStep
        rw [found]
      rw [List.filter_cons, if_neg padding, List.foldlM_cons, skip, pure_bind]
      exact ih values
    | some codec =>
      have field : (!slot.isPadding) = true := by simp [Slot.isPadding, found]
      rw [List.filter_cons, if_pos field, List.foldlM_cons, List.foldlM_cons]
      congr 1
      funext left
      exact ih left

theorem packFields_next (found : slot.codec? = some codec)
    (packed : slot.pack codec strictness v bs = .ok () mid) :
    packFields checked strictness (slot :: fields) (v :: values) bs =
      packFields checked strictness fields values mid := by
  have step : packStep checked strictness (v :: values) slot bs = .ok values mid := by
    unfold packStep
    rw [found]
    exact Edit.bind_ok _ packed
  unfold packFields
  rw [List.foldlM_cons]
  exact Edit.bind_ok _ step

theorem packFields_refused (found : slot.codec? = some codec)
    (refused : slot.pack codec strictness v bs = .error fault after) :
    packFields checked strictness (slot :: fields) (v :: values) bs = .error fault after := by
  have step : packStep checked strictness (v :: values) slot bs = .error fault after := by
    unfold packStep
    rw [found]
    exact Edit.bind_error _ refused
  unfold packFields
  rw [List.foldlM_cons]
  exact Edit.bind_error _ step

theorem packFields_missing (found : slot.codec? = some codec) :
    packFields true strictness (slot :: fields) [] bs =
      .error (.insufficient slot.code.letter slot.offset) bs := by
  have step : packStep true strictness [] slot bs =
      .error (.insufficient slot.code.letter slot.offset) bs := by
    unfold packStep
    rw [found]
    rfl
  unfold packFields
  rw [List.foldlM_cons]
  exact Edit.bind_error _ step

theorem packFields_spent (uses : ∀ slot ∈ fields, ∃ codec, slot.Uses codec) :
    packFields false strictness fields [] bs = .ok [] bs := by
  induction fields with
  | nil => rfl
  | cons slot fields ih =>
    obtain ⟨⟨codec, used⟩, later⟩ := List.forall_mem_cons.mp uses
    have step : packStep false strictness [] slot bs = .ok [] bs := by
      unfold packStep
      rw [used.found]
      rfl
    unfold packFields
    rw [List.foldlM_cons]
    refine (Edit.bind_ok _ step).trans ?_
    exact ih later

/-- How a run over fields ends once some of them were filled. -/
inductive Ends (checked : Bool) (strictness : Strictness) :
    List Slot → List Value → Bytes → EStateM.Result Fault Bytes (List Value) → Prop
  | done (left : List Value) (bs : Bytes) : Ends checked strictness [] left bs (.ok left bs)
  | spent (fields : List Slot) (bs : Bytes) (lenient : checked = false) :
      Ends checked strictness fields [] bs (.ok [] bs)
  | missing (slot : Slot) (fields : List Slot) (bs : Bytes) (strict : checked = true) :
      Ends checked strictness (slot :: fields) [] bs
        (.error (.insufficient slot.code.letter slot.offset) bs)
  | refused {slot : Slot} {codec : Codec} {v : Value} {bs after : Bytes} {fault : Fault}
      (fields : List Slot) (values : List Value) (uses : slot.Uses codec)
      (refused : ¬ ((∃ raw, codec.encode strictness (v.resolve bs) slot.offset slot.size = .ok raw) ∧
        Inside bs slot.offset slot.size))
      (failed : slot.pack codec strictness v bs = .error fault after) :
      Ends checked strictness (slot :: fields) (v :: values) bs (.error fault after)

/-- Every run fills as many fields as it can, and then ends. -/
theorem packFields_run (checked : Bool) (strictness : Strictness) (fields : List Slot)
    (values : List Value) (bs : Bytes) (uses : ∀ slot ∈ fields, ∃ codec, slot.Uses codec) :
    ∃ k mid, Fills strictness (fields.take k) (values.take k) bs mid ∧
      Ends checked strictness (fields.drop k) (values.drop k) mid
        (packFields checked strictness fields values bs) := by
  induction fields generalizing values bs with
  | nil => exact ⟨0, bs, Fills.nil bs, Ends.done values bs⟩
  | cons slot fields ih =>
    obtain ⟨codec, used⟩ := uses slot List.mem_cons_self
    cases values with
    | nil =>
      refine ⟨0, bs, Fills.nil bs, ?_⟩
      cases checked with
      | true =>
        rw [packFields_missing used.found]
        exact Ends.missing slot fields bs rfl
      | false =>
        rw [packFields_spent uses]
        exact Ends.spent (slot :: fields) bs rfl
    | cons v values =>
      by_cases fills : (∃ raw, codec.encode strictness (v.resolve bs) slot.offset slot.size = .ok raw) ∧
          Inside bs slot.offset slot.size
      · obtain ⟨⟨raw, encoded⟩, inside⟩ := fills
        obtain ⟨k, mid, filled, ends⟩ := ih values (bs.overlay slot.offset.toNat raw)
          (fun other member => uses other (List.mem_cons_of_mem _ member))
        refine ⟨k + 1, mid, Fills.cons used encoded inside filled, ?_⟩
        rw [packFields_next used.found (Slot.pack_written used encoded inside)]
        exact ends
      · obtain ⟨fault, after, failed, _⟩ := Slot.pack_refused used fills
        refine ⟨0, bs, Fills.nil bs, ?_⟩
        rw [packFields_refused used.found failed]
        exact Ends.refused fields values used fills failed

theorem packFields_filled {strictness : Strictness} {fields more : List Slot}
    {values left : List Value} {bs after : Bytes} (filled : Fills strictness fields values bs after)
    (checked : Bool) : packFields checked strictness (fields ++ more) (values ++ left) bs =
      packFields checked strictness more left after := by
  induction filled with
  | nil bs => rfl
  | cons uses encoded inside rest ih =>
    rw [← ih]
    exact packFields_next uses.found (Slot.pack_written uses encoded inside)

theorem packFields_append {first second : List Slot} {u : List Value}
    (uses : ∀ slot ∈ first, ∃ codec, slot.Uses codec) (each : u.length = first.length)
    (other : Bool) (v : List Value) :
    packFields checked strictness (first ++ second) (u ++ v) bs =
      match packFields other strictness first u bs with
      | .ok _ mid => packFields checked strictness second v mid
      | .error fault after => .error fault after := by
  induction first generalizing u bs with
  | nil =>
    rw [List.eq_nil_of_length_eq_zero each]
    rfl
  | cons slot first ih =>
    obtain ⟨⟨codec, used⟩, later⟩ := List.forall_mem_cons.mp uses
    cases u with
    | nil => simp at each
    | cons w u =>
      rw [List.cons_append, List.cons_append]
      cases packed : slot.pack codec strictness w bs with
      | ok _ mid =>
        rw [packFields_next used.found packed, packFields_next used.found packed]
        exact ih later (Nat.succ.inj each)
      | error fault after =>
        rw [packFields_refused used.found packed, packFields_refused used.found packed]

theorem packFields_fault (uses : ∀ slot ∈ fields, ∃ codec, slot.Uses codec)
    (failed : packFields checked strictness fields values bs = .error fault after) :
    (fault.class? = some .packing ∨ fault.IsUnreported) ∨
      (checked = true ∧ fault.class? = some .insufficient) := by
  obtain ⟨k, mid, _, ends⟩ := packFields_run checked strictness fields values bs uses
  rw [failed] at ends
  generalize fields.drop k = later at ends
  generalize values.drop k = left at ends
  cases ends with
  | missing slot fields bs strict => exact Or.inr ⟨strict, rfl⟩
  | refused fields values used refused failed =>
    obtain ⟨fault, after, result, fails, _⟩ := Slot.pack_refused used refused
    rw [failed] at result
    cases result
    exact Or.inl fails.kind

/-- A whole packing: a run over the fields, then the fault that ends the walk. -/
theorem pack_eq (layout : Layout) (checked : Bool) (strictness : Strictness) (values : List Value)
    (bs : Bytes) :
    layout.pack checked strictness values bs =
      match packFields checked strictness layout.fields values bs, layout.fault? with
      | .ok _ after, none => .ok () after
      | .ok _ after, some fault => .error fault after
      | .error fault after, _ => .error fault after := by
  unfold pack
  rw [foldSlots_eq, foldlM_packStep]
  cases ran : packFields checked strictness layout.fields values bs with
  | ok left after =>
    cases layout.fault? with
    | none => exact Edit.bind_ok _ (Edit.bind_ok _ ran)
    | some fault => exact Edit.bind_error _ (Edit.bind_ok _ ran)
  | error fault after => exact Edit.bind_error _ (Edit.bind_error _ ran)

theorem pack_congr {first second : Layout} (fields : first.fields = second.fields)
    (faults : first.fault? = second.fault?) (checked : Bool) (strictness : Strictness)
    (values : List Value) :
    first.pack checked strictness values = second.pack checked strictness values := by
  funext bs
  rw [pack_eq, pack_eq, fields, faults]

theorem length_pack {layout : Layout} {checked : Bool} {strictness : Strictness}
    {values : List Value} {bs after : Bytes}
    (uses : ∀ slot ∈ layout.fields, ∃ codec, slot.Uses codec)
    (packed : layout.pack checked strictness values bs = .ok () after) :
    after.length = bs.length := by
  obtain ⟨k, mid, filled, ends⟩ := packFields_run checked strictness layout.fields values bs uses
  rw [pack_eq] at packed
  generalize packFields checked strictness layout.fields values bs = result at ends packed
  cases result with
  | error fault _ => cases packed
  | ok left last =>
    cases whole : layout.fault? with
    | some fault => rw [whole] at packed; cases packed
    | none =>
      rw [whole] at packed
      cases packed
      generalize layout.fields.drop k = fields at ends
      generalize values.drop k = left at ends
      cases ends <;> exact filled.length

theorem pack_filled {layout : Layout} {strictness : Strictness} {values : List Value}
    {bs after : Bytes} (whole : layout.fault? = none)
    (filled : Fills strictness layout.fields values bs after) (checked : Bool) :
    layout.pack checked strictness values bs = .ok () after := by
  have run : packFields checked strictness (layout.fields ++ []) (values ++ []) bs = .ok [] after :=
    packFields_filled filled checked
  rw [List.append_nil, List.append_nil] at run
  rw [pack_eq, run, whole]

end Layout

namespace Format

def blank (format : Format) : Bytes := List.replicate (format.layout 0).size.toNat 0

theorem length_blank (format : Format) : (format.blank.length : Int) = (format.layout 0).size := by
  have := format.size_nonneg
  rw [blank, List.length_replicate]
  omega

theorem fields_inside_blank (format : Format) :
    ∀ slot ∈ (format.layout 0).fields, Inside format.blank slot.offset slot.size := by
  intro slot member
  exact field_within member (Int.le_of_eq format.length_blank.symm)

theorem zeros_blank {format : Format} (small : (format.layout 0).size < 2 ^ 63) :
    Storage.zeros (format.layout 0).size = .ok format.blank := by
  have := format.size_nonneg
  rw [Storage.zeros, if_neg (by omega), if_neg (by omega)]
  rfl

theorem pack_whole {format : Format} (whole : (format.layout 0).fault? = none)
    (arguments : List Value) (checked : Bool) :
    format.pack arguments checked = (format.layout 0).packNew (spread arguments checked).2
      format.strictness (spread arguments checked).1 := by
  change (format.layout 0).accepted.bind _ = _
  rw [Layout.accepted_of_whole whole]
  rfl

theorem pack_of_small {format : Format} (whole : (format.layout 0).fault? = none)
    (small : (format.layout 0).size < 2 ^ 63) (arguments : List Value) (checked : Bool) :
    format.pack arguments checked =
      match (format.layout 0).pack (spread arguments checked).2 format.strictness
        (spread arguments checked).1 format.blank with
      | .ok _ bs => .ok bs
      | .error fault _ => .error fault := by
  rw [pack_whole whole, Layout.packNew, zeros_blank small]
  rfl

theorem pack_of_large {format : Format} (whole : (format.layout 0).fault? = none)
    (large : 2 ^ 63 ≤ (format.layout 0).size) (arguments : List Value) (checked : Bool) :
    format.pack arguments checked =
      .error (.refused .overflow (.zeros (format.layout 0).size)) := by
  rw [pack_whole whole, Layout.packNew, Storage.zeros, if_pos (Or.inr large)]
  rfl

theorem pack_of_broken {format : Format} {fault : Fault}
    (broken : (format.layout 0).fault? = some fault) (arguments : List Value) (checked : Bool) :
    format.pack arguments checked = .error fault := by
  unfold pack Layout.accepted
  rw [broken]
  rfl

theorem small_of_pack {format : Format} {arguments : List Value} {checked : Bool} {record : Bytes}
    (packed : format.pack arguments checked = .ok record) :
    (format.layout 0).fault? = none ∧ (format.layout 0).size < 2 ^ 63 := by
  obtain ⟨layout, accepted, created⟩ := ok_of_bind packed
  obtain ⟨whole, rfl⟩ := Layout.accepted_ok.mp accepted
  obtain ⟨zeros, made, _⟩ := ok_of_bind created
  unfold Storage.zeros at made
  split at made
  · cases made
  · refine ⟨whole, by omega⟩

theorem length_record {format : Format} {arguments : List Value} {checked : Bool} {record : Bytes}
    (packed : format.pack arguments checked = .ok record) :
    (record.length : Int) = (format.layout 0).size := by
  obtain ⟨whole, small⟩ := small_of_pack packed
  rw [pack_of_small whole small] at packed
  split at packed
  · rename_i ran
    cases packed
    rw [Layout.length_pack (fun slot member => field_uses member) ran, length_blank]
  · cases packed

end Format
end BinaryRecord
