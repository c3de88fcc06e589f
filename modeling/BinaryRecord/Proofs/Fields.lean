import BinaryRecord.Proofs.Walk

/-!
The layout of a whole format, and its fields: the occurrences that hold a value.
-/
namespace BinaryRecord

theorem Convention.chosen_machine (machine : Machine) (cs : List Char) :
    (chosen machine cs).1.machine = machine := by
  unfold chosen
  split <;> rfl

theorem Convention.chosen_head (machine : Machine) (c : Char) (first second : List Char) :
    chosen machine (c :: first) = chosen machine (c :: second) := by
  unfold chosen
  split <;> simp_all

namespace Codec

/-- The lengths of the fields that a codec is used for. -/
def Spans (length : Nat) : Codec → Prop
  | number n _ => length = n.width
  | quad .. => length = 8
  | char | truth => length = 1
  | text => True
  | counted => 1 ≤ length

end Codec

theorem Convention.spans_size {convention : Convention} {code : FieldType} {codec : Codec}
    (found : convention.codec? code = some codec) : codec.Spans (convention.size code) := by
  unfold Convention.codec? at found
  cases code <;> simp only [FieldType.codec?, Option.some.injEq, reduceCtorEq] at found
  case pointer =>
    by_cases wide : convention.machine.is64Bit
    · rw [if_pos wide] at found
      subst found
      exact (by simpa [Machine.is64Bit] using wide : convention.machine.pointerWidth = 8)
    · rw [if_neg wide] at found
      subst found
      rfl
  case text =>
    subst found
    trivial
  case counted =>
    subst found
    exact Nat.le_refl 1
  all_goals subst found
  all_goals rfl

namespace Slot

theorem Follows.spans {slot : Slot} {convention : Convention} (follows : slot.Follows convention)
    {codec : Codec} (found : slot.codec? = some codec) : codec.Spans slot.size := by
  have sized := follows.size
  rw [follows.codec] at found
  cases code : slot.code with
  | text =>
    rw [code] at found
    cases found
    trivial
  | counted =>
    rw [code] at found sized
    cases found
    exact sized
  | _ =>
    rw [code] at found sized
    rw [sized]
    exact Convention.spans_size found

theorem Follows.counted {slot : Slot} {convention : Convention} (follows : slot.Follows convention)
    (found : slot.codec? = some .counted) : slot.code = .counted := by
  rw [follows.codec] at found
  unfold Convention.codec? at found
  cases code : slot.code <;> rw [code] at found <;>
    simp only [FieldType.codec?, Option.some.injEq, reduceCtorEq] at found
  case pointer => split at found <;> simp at found

/-- The occurrence is a field of a codec, and as long as the codec needs. -/
structure Uses (slot : Slot) (codec : Codec) : Prop where
  found : slot.codec? = some codec
  spans : codec.Spans slot.size
  counted : codec = .counted → slot.code = .counted

theorem Follows.uses {slot : Slot} {convention : Convention} (follows : slot.Follows convention)
    {codec : Codec} (found : slot.codec? = some codec) : slot.Uses codec := by
  refine ⟨found, follows.spans found, ?_⟩
  rintro rfl
  exact follows.counted found

end Slot

namespace Layout

theorem accepted_of_whole {layout : Layout} (whole : layout.fault? = none) :
    layout.accepted = .ok layout := by
  rw [accepted, whole]

theorem accepted_ok {layout other : Layout} :
    layout.accepted = .ok other ↔ layout.fault? = none ∧ other = layout := by
  unfold accepted
  cases layout.fault? with
  | none => simp [eq_comm]
  | some fault => simp

def fields (layout : Layout) : List Slot := layout.slots.filter fun slot => !slot.isPadding

theorem mem_fields {layout : Layout} {slot : Slot} :
    slot ∈ layout.fields ↔ slot ∈ layout.slots ∧ ∃ codec, slot.codec? = some codec := by
  rw [fields, List.mem_filter, Slot.isPadding]
  cases slot.codec? <;> simp

def shift (layout : Layout) (distance : Int) : Layout :=
  ⟨layout.runs.map (Run.shift · distance), layout.fault?⟩

theorem slots_map {f : Run → Run} {g : Slot → Slot} (each : ∀ run, (f run).slots = run.slots.map g)
    (layout : Layout) : (Layout.mk (layout.runs.map f) layout.fault?).slots = layout.slots.map g := by
  simp only [slots, List.flatMap_map, List.map_flatMap, each]

theorem fields_map {f : Run → Run} {g : Slot → Slot} (each : ∀ run, (f run).slots = run.slots.map g)
    (kept : ∀ slot, (g slot).isPadding = slot.isPadding) (layout : Layout) :
    (Layout.mk (layout.runs.map f) layout.fault?).fields = layout.fields.map g := by
  rw [fields, fields, slots_map each, List.filter_map]
  simp only [Function.comp_def, kept]

theorem slots_shift (layout : Layout) (distance : Int) :
    (layout.shift distance).slots = layout.slots.map (Slot.shift · distance) :=
  slots_map (fun run => run.slotsFrom_shift distance run.count run.start) layout

theorem fields_shift (layout : Layout) (distance : Int) :
    (layout.shift distance).fields = layout.fields.map (Slot.shift · distance) :=
  fields_map (fun run => run.slotsFrom_shift distance run.count run.start) (fun _ => rfl) layout

theorem fields_shapes {first second : Layout}
    (same : first.slots.map Slot.shape = second.slots.map Slot.shape) :
    first.fields.map Slot.shape = second.fields.map Slot.shape := by
  have select : ∀ layout : Layout, layout.fields.map Slot.shape =
      (layout.slots.map Slot.shape).filter fun shape => !shape.2.1.isNone := by
    intro layout
    rw [List.filter_map]
    rfl
  rw [select, select, same]

end Layout

namespace Format

def body (format : Format) : List Char :=
  format.text.toList.drop (if format.convention.2 then 1 else 0)

/-- The format has only digits and codes, or is not checked for it. -/
def Accepted (format : Format) : Prop :=
  format.strictness.codes = true →
    ∀ c ∈ format.body, c.isDigit = true ∨ FieldType.ofLetter? c ≠ none

instance (format : Format) : Decidable format.Accepted := inferInstanceAs (Decidable (_ → _))

theorem accepted_of_lenient {format : Format} (lenient : format.strictness.codes = false) :
    format.Accepted := by
  intro strict
  rw [lenient] at strict
  cases strict

theorem convention_of_text {format : Format} {c : Char} {body : List Char}
    (text : format.text.toList = c :: body) :
    format.convention = Convention.chosen format.machine [c] := by
  rw [convention, text]
  exact Convention.chosen_head _ c body []

theorem body_of_text {format : Format} {c : Char} {body : List Char}
    (text : format.text.toList = c :: body)
    (mark : (Convention.chosen format.machine [c]).2 = true) : format.body = body := by
  rw [Format.body, convention_of_text text, mark, text]
  rfl

def marked (machine : Machine) (strictness : Strictness) (mark : Char) (body : String) : Format :=
  ⟨String.singleton mark ++ body, machine, strictness⟩

section Marks

variable {machine : Machine} {strictness : Strictness} {mark : Char}

theorem text_marked (machine : Machine) (strictness : Strictness) (mark : Char) (body : String) :
    (marked machine strictness mark body).text.toList = mark :: body.toList := by
  simp [marked]

theorem convention_marked (known : mark ∈ ['<', '>', '!', '=', '@']) (body : String) :
    (marked machine strictness mark body).convention =
      ((Convention.chosen machine [mark]).1, true) := by
  rw [convention_of_text (text_marked machine strictness mark body)]
  simp only [List.mem_cons, List.not_mem_nil, or_false] at known
  rcases known with rfl | rfl | rfl | rfl | rfl <;> rfl

theorem body_marked (known : mark ∈ ['<', '>', '!', '=', '@']) (body : String) :
    (marked machine strictness mark body).body = body.toList := by
  rw [Format.body, convention_marked known, text_marked]
  rfl

end Marks

def tokens (format : Format) : List (FieldType × Nat) :=
  (Layout.scan format.strictness (if format.convention.2 then 1 else 0) 0 format.body).1

theorem layout_eq (format : Format) (start : Int) :
    format.layout start = ⟨Layout.place format.convention.1 start format.tokens,
      (Layout.scan format.strictness (if format.convention.2 then 1 else 0) 0 format.body).2⟩ :=
  Layout.walk_eq _ _ _ _ _ _

theorem layout_marked {machine : Machine} {strictness : Strictness} {mark : Char}
    (known : mark ∈ ['<', '>', '!', '=', '@']) (body : String) (start : Int) :
    (marked machine strictness mark body).layout start =
      ⟨Layout.place (Convention.chosen machine [mark]).1 start
          (Layout.scan strictness 1 0 body.toList).1,
        (Layout.scan strictness 1 0 body.toList).2⟩ := by
  rw [layout_eq, tokens, convention_marked known, body_marked known]
  rfl

theorem fault_of_accepted {format : Format} (accepted : format.Accepted) (start : Int) :
    (format.layout start).fault? = none := by
  rw [layout_eq]
  exact Layout.scan_accepted _ _ _ _ accepted

theorem size_whole {format : Format} (whole : (format.layout 0).fault? = none) :
    format.size = .ok (format.layout 0).size := by
  unfold size
  rw [Layout.accepted_of_whole whole]
  rfl

theorem eq_of_size {format : Format} {total : Int} (sized : format.size = .ok total) :
    total = (format.layout 0).size := by
  unfold size at sized
  cases accepted : (format.layout 0).accepted with
  | error fault =>
    rw [accepted] at sized
    cases sized
  | ok layout =>
    obtain ⟨_, rfl⟩ := Layout.accepted_ok.mp accepted
    rw [accepted] at sized
    cases sized
    rfl

theorem slots_ordered (format : Format) (start : Int) :
    Ordered start (format.layout start).slots := by
  rw [layout_eq]
  exact Layout.place_ordered _ _ _

theorem fields_ordered (format : Format) (start : Int) :
    Ordered start (format.layout start).fields :=
  (format.slots_ordered start).filter _

theorem slot_follows {format : Format} {start : Int} {slot : Slot}
    (member : slot ∈ (format.layout start).slots) : slot.Follows format.convention.1 := by
  rw [layout_eq] at member
  exact Layout.follows_of_mem_place member

theorem field_follows {format : Format} {start : Int} {slot : Slot}
    (member : slot ∈ (format.layout start).fields) : slot.Follows format.convention.1 :=
  slot_follows (Layout.mem_fields.mp member).1

theorem field_uses {format : Format} {start : Int} {slot : Slot}
    (member : slot ∈ (format.layout start).fields) : ∃ codec, slot.Uses codec := by
  obtain ⟨codec, found⟩ := (Layout.mem_fields.mp member).2
  exact ⟨codec, (field_follows member).uses found⟩

theorem field_found {format : Format} {start : Int} {slot : Slot} {codec : Codec}
    (member : slot ∈ (format.layout start).fields) (uses : slot.Uses codec) :
    slot.code.codec? format.machine format.convention.1.order = some codec := by
  have found := (field_follows member).codec.symm.trans uses.found
  unfold Convention.codec? at found
  rw [convention, Convention.chosen_machine] at found
  exact found

theorem fields_shapes (format : Format) (first second : Int) :
    (format.layout first).fields.map Slot.shape = (format.layout second).fields.map Slot.shape := by
  apply Layout.fields_shapes
  rw [layout_eq, layout_eq]
  exact Layout.place_shapes _ _ _ _

theorem slot_of_token (convention : Convention) {tokens : List (FieldType × Nat)}
    {token : FieldType × Nat} (member : token ∈ tokens) (cursor : Int) :
    ∃ slot ∈ (Layout.place convention cursor tokens).flatMap Run.slots, slot.code = token.1 := by
  induction tokens generalizing cursor with
  | nil => cases member
  | cons first tokens ih =>
    obtain ⟨code, count⟩ := first
    simp only [Layout.place, List.flatMap_cons, List.mem_append]
    rcases List.mem_cons.mp member with rfl | later
    · have positive := Layout.runAt_count convention code cursor count
      have same := Layout.runAt_code convention code cursor count
      generalize Layout.runAt convention code cursor count = run at *
      obtain ⟨n, more⟩ := Nat.exists_eq_succ_of_ne_zero (Nat.ne_of_gt positive)
      refine ⟨run.slotAt run.start, Or.inl ?_, same⟩
      rw [Run.slots, more]
      exact List.mem_cons_self
    · obtain ⟨slot, reached, same⟩ := ih later (Layout.runAt convention code cursor count).stop
      exact ⟨slot, Or.inr reached, same⟩

theorem layout_add {format : Format} {distance : Int}
    (aligned : ∀ slot ∈ (format.layout 0).slots,
      (format.convention.1.alignment slot.code : Int) ∣ distance) (start : Int) :
    format.layout (start + distance) = (format.layout start).shift distance := by
  have tokens : ∀ token ∈ format.tokens,
      (format.convention.1.alignment token.1 : Int) ∣ distance := by
    intro token member
    obtain ⟨slot, reached, same⟩ := slot_of_token format.convention.1 member 0
    rw [← same]
    exact aligned slot (by rw [layout_eq]; exact reached)
  have moved := Layout.place_shift format.convention.1 start distance format.tokens tokens
  rw [layout_eq, layout_eq, moved]
  rfl

theorem layout_shift {format : Format} {distance : Int}
    (aligned : ∀ slot ∈ (format.layout 0).slots,
      (format.convention.1.alignment slot.code : Int) ∣ distance) :
    format.layout distance = (format.layout 0).shift distance := by
  have moved := layout_add aligned 0
  rwa [Int.zero_add] at moved

theorem size_eq_finish (format : Format) :
    (format.layout 0).size = finish 0 (format.layout 0).slots := by
  rw [layout_eq]
  exact (Layout.finish_place _ _ _).symm

theorem size_nonneg (format : Format) : 0 ≤ (format.layout 0).size := by
  rw [size_eq_finish]
  exact (format.slots_ordered 0).le_finish

theorem slot_inside {format : Format} {slot : Slot} (member : slot ∈ (format.layout 0).slots) :
    0 ≤ slot.offset ∧ slot.stop ≤ (format.layout 0).size := by
  rw [size_eq_finish]
  exact (format.slots_ordered 0).bounds member

theorem field_inside {format : Format} {slot : Slot} (member : slot ∈ (format.layout 0).fields) :
    0 ≤ slot.offset ∧ slot.stop ≤ (format.layout 0).size :=
  slot_inside (Layout.mem_fields.mp member).1

theorem field_within {format : Format} {slot : Slot} (member : slot ∈ (format.layout 0).fields)
    {bs : Bytes} (enough : (format.layout 0).size ≤ bs.length) :
    Storage.Inside bs slot.offset slot.size := by
  have bounds := field_inside member
  unfold Slot.stop at bounds
  exact ⟨bounds.1, by omega⟩

theorem shifted_within {format : Format} {offset : Int} (start : 0 ≤ offset) {bs : Bytes}
    (enough : offset + (format.layout 0).size ≤ bs.length) :
    ∀ slot ∈ (format.layout 0).fields.map (Slot.shift · offset),
      Storage.Inside bs slot.offset slot.size := by
  intro moved member
  obtain ⟨slot, field, rfl⟩ := List.mem_map.mp member
  have bounds := field_inside field
  unfold Slot.stop at bounds
  unfold Storage.Inside Slot.shift
  dsimp only
  omega

end Format
end BinaryRecord
