import BinaryRecord.Proofs.Frame

/-!
Packing without a storage. Values that are fixed before a packing starts have contents that no
storage is needed for, and packing them into fields inside of a storage is nothing but laying these
contents over the fields, up to the first value that has none.
-/
namespace BinaryRecord

open Storage Bytes

/-- The value is not the array that is being written, and does not hold it as a member. Where a new
record is packed there is no such array, so every value is one of these. -/
def Value.Fixed (v : Value) : Prop := ∀ now : Bytes, v.resolve now = v

def lay : List Slot → List Bytes → Bytes → Bytes
  | slot :: fields, raw :: raws, bs => lay fields raws (bs.overlay slot.offset.toNat raw)
  | _, _, bs => bs

theorem lay_nil (fields : List Slot) (bs : Bytes) : lay fields [] bs = bs := by
  cases fields <;> rfl

theorem lay_append {first second : List Slot} {one two : List Bytes} (all : one.length = first.length)
    (bs : Bytes) : lay (first ++ second) (one ++ two) bs = lay second two (lay first one bs) := by
  induction first generalizing one bs with
  | nil =>
    rw [List.eq_nil_of_length_eq_zero all]
    rfl
  | cons slot first ih =>
    cases one with
    | nil => simp at all
    | cons raw one => exact ih (by simpa using all) (bs.overlay slot.offset.toNat raw)

/-- Contents for the first of the fields, each as long as its field. -/
inductive Fit : List Slot → List Bytes → Prop
  | nil (fields : List Slot) : Fit fields []
  | cons {slot : Slot} {raw : Bytes} {fields : List Slot} {raws : List Bytes}
      (size : raw.length = slot.size) (rest : Fit fields raws) : Fit (slot :: fields) (raw :: raws)

namespace Fit

variable {fields : List Slot} {raws : List Bytes} {bs : Bytes}

theorem of_map {content : Slot → Bytes}
    (sizes : ∀ slot ∈ fields, (content slot).length = slot.size) : Fit fields (fields.map content) := by
  induction fields with
  | nil => exact Fit.nil []
  | cons slot fields ih =>
    exact Fit.cons (sizes slot List.mem_cons_self)
      (ih fun other member => sizes other (List.mem_cons_of_mem slot member))

theorem length_le (fit : Fit fields raws) : raws.length ≤ fields.length := by
  induction fit with
  | nil fields => simp
  | cons size rest ih => simpa using ih

theorem sameExcept (fit : Fit fields raws)
    (inside : ∀ slot ∈ fields, Inside bs slot.offset slot.size) :
    SameExcept (Touched (fields.take raws.length)) bs (lay fields raws bs) := by
  induction fit generalizing bs with
  | nil fields =>
    rw [lay_nil]
    exact SameExcept.refl _ bs
  | @cons slot raw fields raws size rest ih =>
    have step := Slot.overlay_covers size (inside slot List.mem_cons_self)
    refine (step.mono ?_).trans ((ih (Slot.inside_rest size inside)).mono ?_)
    · intro i covers
      exact ⟨slot, List.mem_cons_self, covers⟩
    · intro i touched
      exact touched.mono fun other member => List.mem_cons_of_mem slot member

theorem length_lay (fit : Fit fields raws)
    (inside : ∀ slot ∈ fields, Inside bs slot.offset slot.size) :
    (lay fields raws bs).length = bs.length :=
  (fit.sameExcept inside).length

theorem window (fit : Fit fields raws) {cursor : Int} (ordered : Ordered cursor fields)
    (inside : ∀ slot ∈ fields, Inside bs slot.offset slot.size) {k : Nat} {slot : Slot} {raw : Bytes}
    (field : fields[k]? = some slot) (content : raws[k]? = some raw) :
    (lay fields raws bs).window slot.offset.toNat slot.size = raw := by
  induction fit generalizing bs cursor k with
  | nil fields => simp at content
  | @cons first laid fields raws size rest ih =>
    have there := Slot.inside_rest size inside
    cases k with
    | succ k => exact ih ordered.2 there field content
    | zero =>
      obtain rfl : first = slot := by simpa using field
      obtain rfl : laid = raw := by simpa using content
      have here := inside first List.mem_cons_self
      have free : ∀ i, first.offset.toNat ≤ i → i < first.offset.toNat + first.size →
          ¬ Touched (fields.take raws.length) i := by
        intro i _ high
        apply (ordered.2.take raws.length).free_before
        have := here.1
        unfold Slot.stop
        omega
      rw [lay, (rest.sameExcept there).window free, ← size]
      exact window_overlay bs _ laid (by rw [size]; exact here.fits)

theorem window_unlaid (fit : Fit fields raws) {cursor : Int} (ordered : Ordered cursor fields)
    (inside : ∀ slot ∈ fields, Inside bs slot.offset slot.size) {k : Nat} {slot : Slot}
    (field : fields[k]? = some slot) (unlaid : raws.length ≤ k) :
    (lay fields raws bs).window slot.offset.toNat slot.size =
      bs.window slot.offset.toNat slot.size := by
  apply (fit.sameExcept inside).window
  rintro i low _ ⟨other, member, covers⟩
  obtain ⟨j, early, rfl⟩ := List.mem_take_iff_getElem.mp member
  have apart := ordered.precedes (j := j) (k := k) (by omega)
    (List.getElem?_eq_getElem (by omega)) field
  have := covers.2
  omega

end Fit

namespace Slot

variable {slot : Slot} {codec : Codec} {strictness : Strictness} {v : Value} {bs : Bytes}

def content (slot : Slot) (strictness : Strictness) (v : Value) : Except Fault Bytes :=
  match slot.codec? with
  | none => .error (.refused .type .absent)
  | some codec => (codec.encode strictness v slot.offset slot.size).mapError
      (Fault.inPacking slot.code.letter slot.offset)

theorem content_eq (uses : slot.Uses codec) (strictness : Strictness) (v : Value) :
    slot.content strictness v = (codec.encode strictness v slot.offset slot.size).mapError
      (Fault.inPacking slot.code.letter slot.offset) := by
  rw [content, uses.found]

theorem length_content (uses : slot.Uses codec) {raw : Bytes}
    (written : slot.content strictness v = .ok raw) : raw.length = slot.size := by
  rw [content_eq uses] at written
  exact Codec.length_encode uses.spans (mapError_ok.mp written)

theorem pack_content (strictness : Strictness) (uses : slot.Uses codec) (fixed : v.Fixed)
    (inside : Inside bs slot.offset slot.size) :
    slot.pack codec strictness v bs =
      match slot.content strictness v with
      | .ok raw => .ok () (bs.overlay slot.offset.toNat raw)
      | .error fault => .error fault bs := by
  have edits := Codec.write_edits uses.spans strictness v slot.offset bs
  rw [fixed bs] at edits
  rw [content_eq uses]
  change EStateM.adaptExcept _ _ bs = _
  rw [EStateM.adaptExcept]
  cases encoded : codec.encode strictness v slot.offset slot.size with
  | ok raw =>
    rw [edits.written raw encoded inside]
    rfl
  | error fault =>
    rw [edits.refused fault encoded inside]
    rfl

end Slot

namespace Layout

/-- The contents of the fields that are written, and the fault that ends the packing. -/
def contents (checked : Bool) (strictness : Strictness) :
    List Slot → List Value → List Bytes × Option Fault
  | [], _ => ([], none)
  | slot :: _, [] =>
    ([], if checked then some (.insufficient slot.code.letter slot.offset) else none)
  | slot :: fields, v :: values =>
    match slot.content strictness v with
    | .error fault => ([], some fault)
    | .ok raw =>
      let rest := contents checked strictness fields values
      (raw :: rest.1, rest.2)

variable {checked : Bool} {strictness : Strictness} {fields : List Slot} {values : List Value}
  {bs : Bytes}

theorem contents_fit (checked : Bool) (strictness : Strictness) (values : List Value)
    (uses : ∀ slot ∈ fields, ∃ codec, slot.Uses codec) :
    Fit fields (contents checked strictness fields values).1 := by
  induction fields generalizing values with
  | nil => exact Fit.nil []
  | cons slot fields ih =>
    cases values with
    | nil => exact Fit.nil _
    | cons v values =>
      obtain ⟨codec, used⟩ := uses slot List.mem_cons_self
      have rest := ih values fun other member => uses other (List.mem_cons_of_mem slot member)
      rw [contents]
      cases written : slot.content strictness v with
      | error fault => exact Fit.nil _
      | ok raw => exact Fit.cons (Slot.length_content used written) rest

theorem length_contents (checked : Bool) (strictness : Strictness) (fields : List Slot)
    (values : List Value) (whole : (contents checked strictness fields values).2 = none) :
    (contents checked strictness fields values).1.length = min fields.length values.length := by
  induction fields generalizing values with
  | nil => simp [contents]
  | cons slot fields ih =>
    cases values with
    | nil => simp [contents]
    | cons v values =>
      rw [contents] at whole ⊢
      cases written : slot.content strictness v with
      | error fault =>
        rw [written] at whole
        cases whole
      | ok raw =>
        rw [written] at whole
        simp only [List.length_cons, ih values whole]
        omega

theorem contents_append {first second : List Slot} {one two : List Value}
    (all : one.length = first.length) :
    contents checked strictness (first ++ second) (one ++ two) =
      match contents checked strictness first one with
      | (raws, some fault) => (raws, some fault)
      | (raws, none) => (raws ++ (contents checked strictness second two).1,
        (contents checked strictness second two).2) := by
  induction first generalizing one with
  | nil =>
    rw [List.eq_nil_of_length_eq_zero all]
    rfl
  | cons slot first ih =>
    cases one with
    | nil => simp at all
    | cons v one =>
      have rest := ih (by simpa using all)
      rw [List.cons_append, List.cons_append, contents, contents]
      cases slot.content strictness v with
      | error fault => rfl
      | ok raw =>
        dsimp only
        rw [rest]
        generalize contents checked strictness first one = result
        obtain ⟨raws, _ | fault⟩ := result <;> rfl

/-- A packing of fixed values lays their contents over the fields, also where it fails. -/
theorem packFields_contents (uses : ∀ slot ∈ fields, ∃ codec, slot.Uses codec)
    (fixed : ∀ v ∈ values, v.Fixed)
    (inside : ∀ slot ∈ fields, Inside bs slot.offset slot.size) :
    packFields checked strictness fields values bs =
      match contents checked strictness fields values with
      | (raws, none) => .ok (values.drop raws.length) (lay fields raws bs)
      | (raws, some fault) => .error fault (lay fields raws bs) := by
  induction fields generalizing values bs with
  | nil => rfl
  | cons slot fields ih =>
    obtain ⟨codec, used⟩ := uses slot List.mem_cons_self
    cases values with
    | nil =>
      cases checked with
      | true => exact packFields_missing used.found
      | false => exact packFields_spent uses
    | cons v values =>
      have packed := Slot.pack_content strictness used (fixed v List.mem_cons_self)
        (inside slot List.mem_cons_self)
      rw [contents]
      cases written : slot.content strictness v with
      | error fault =>
        rw [written] at packed
        exact packFields_refused used.found packed
      | ok raw =>
        have size := Slot.length_content used written
        have rest := ih (fun other member => uses other (List.mem_cons_of_mem slot member))
          (fun w member => fixed w (List.mem_cons_of_mem v member)) (Slot.inside_rest size inside)
        rw [written] at packed
        rw [packFields_next used.found packed, rest]
        generalize contents checked strictness fields values = result
        obtain ⟨raws, _ | fault⟩ := result <;> rfl

theorem pack_contents {layout : Layout} (uses : ∀ slot ∈ layout.fields, ∃ codec, slot.Uses codec)
    (whole : layout.fault? = none) (fixed : ∀ v ∈ values, v.Fixed)
    (inside : ∀ slot ∈ layout.fields, Inside bs slot.offset slot.size) :
    layout.pack checked strictness values bs =
      match contents checked strictness layout.fields values with
      | (raws, none) => .ok () (lay layout.fields raws bs)
      | (raws, some fault) => .error fault (lay layout.fields raws bs) := by
  rw [pack_eq, packFields_contents uses fixed inside, whole]
  generalize contents checked strictness layout.fields values = result
  obtain ⟨raws, _ | fault⟩ := result <;> rfl

end Layout

namespace Format

variable {format : Format} {arguments : List Value} {checked : Bool}

theorem pack_contents (whole : (format.layout 0).fault? = none)
    (small : (format.layout 0).size < 2 ^ 63)
    (fixed : ∀ v ∈ (spread arguments checked).1, v.Fixed) :
    format.pack arguments checked =
      match Layout.contents (spread arguments checked).2 format.strictness
        (format.layout 0).fields (spread arguments checked).1 with
      | (raws, none) => .ok (lay (format.layout 0).fields raws format.blank)
      | (_, some fault) => .error fault := by
  rw [pack_of_small whole small,
    Layout.pack_contents (fun slot member => field_uses member) whole fixed
      format.fields_inside_blank]
  generalize Layout.contents _ _ _ _ = result
  obtain ⟨raws, _ | fault⟩ := result <;> rfl

theorem pack_list (whole : (format.layout 0).fault? = none) (small : (format.layout 0).size < 2 ^ 63)
    {values : List Value} (fixed : ∀ v ∈ values, v.Fixed) :
    format.pack [.list values] checked =
      match Layout.contents checked format.strictness (format.layout 0).fields values with
      | (raws, none) => .ok (lay (format.layout 0).fields raws format.blank)
      | (_, some fault) => .error fault :=
  pack_contents whole small fixed

theorem packAt_contents {offset : Int} {bs : Bytes}
    (whole : (format.layout offset).fault? = none)
    (fixed : ∀ v ∈ (spread arguments checked).1, v.Fixed)
    (inside : ∀ slot ∈ (format.layout offset).fields, Inside bs slot.offset slot.size) :
    format.packAt offset arguments checked (.array bs) =
      match Layout.contents (spread arguments checked).2 format.strictness
        (format.layout offset).fields (spread arguments checked).1 with
      | (raws, none) => .ok () (.array (lay (format.layout offset).fields raws bs))
      | (raws, some fault) => .error fault (.array (lay (format.layout offset).fields raws bs)) := by
  rw [packAt_eq, Layout.packOnto_array,
    Layout.packFields_contents (fun slot member => field_uses member) fixed inside, whole]
  generalize Layout.contents _ _ _ _ = result
  obtain ⟨raws, _ | fault⟩ := result <;> rfl

end Format
end BinaryRecord
