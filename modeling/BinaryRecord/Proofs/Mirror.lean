import BinaryRecord.Proofs.Contents
import BinaryRecord.Proofs.Decoding

/-!
The two byte orders. A format in one order lays out the same fields as in the other, and what they
hold is the same but for the bytes of the numbers, which are reversed; so a record packed in one order
is the mirror of the record packed in the other, and unpacking takes the mirror back. What cannot be
packed fails in both at the same place. Only the library that makes the bits of numbers is told the
order, so that its texts may name it.
-/
namespace BinaryRecord

open Storage Bytes

namespace ByteOrder

def opposite : ByteOrder → ByteOrder
  | little => big
  | big => little

theorem arrange_opposite (order : ByteOrder) (bs : Bytes) :
    order.opposite.arrange bs = (order.arrange bs).reverse := by
  cases order <;> simp [opposite, arrange]

theorem arrange_opposite_reverse (order : ByteOrder) (bs : Bytes) :
    order.opposite.arrange bs.reverse = order.arrange bs := by
  cases order <;> simp [opposite, arrange]

end ByteOrder

/-- A library refuses the bits of a value, which it was asked for in the one order and in the other. -/
inductive PlainFault.Mirrors : PlainFault → PlainFault → Prop
  | bits {kind : PlainKind} (reported : kind.isReported = true) (number : Number)
      (order : ByteOrder) (v : Value) :
    Mirrors (refused kind (.bits (number.token order) (8 * number.width) v))
      (refused kind (.bits (number.token order.opposite) (8 * number.width) v))

/-- The faults of a packing in the two orders: one fault, or two that differ in what a library was
asked for. -/
inductive Fault.Mirrors : Fault → Fault → Prop
  | same (fault : Fault) : Mirrors fault fault
  | packing (c : Char) (offset : Int) {one other : PlainFault} (cause : one.Mirrors other) :
    Mirrors (packing c offset one) (packing c offset other)

namespace Fault.Mirrors

variable {one other : Fault}

theorem alike (mirrors : one.Mirrors other) :
    other.class? = one.class? ∧ other.chain = one.chain ∧ one.Mirrors other := by
  refine ⟨?_, ?_, mirrors⟩ <;> cases mirrors <;> rfl

theorem of_plain (c : Char) (offset : Int) {one other : PlainFault} (mirrors : one.Mirrors other) :
    (inPacking c offset (.plain one)).Mirrors (inPacking c offset (.plain other)) := by
  obtain @⟨kind, reported, number, order, v⟩ := mirrors
  have told : ∀ request, inPacking c offset (.plain (.refused kind request)) =
      .packing c offset (.refused kind request) := fun _ => if_pos reported
  rw [told, told]
  exact packing c offset (.bits reported number order v)

end Fault.Mirrors

theorem Number.pattern_opposite (number : Number) (order : ByteOrder) (v : Value) :
    number.pattern order.opposite v = number.pattern order v ∨
      ∃ one other : PlainFault, one.Mirrors other ∧ number.pattern order v = .error (.plain one) ∧
        number.pattern order.opposite v = .error (.plain other) := by
  cases found : number.converted v with
  | ok raw? => exact Or.inl ((pattern_of_converted found).trans (pattern_of_converted found).symm)
  | error kind =>
    exact Or.inr ⟨_, _, .bits (converted_reported found) number order v, pattern_of_refused found,
      pattern_of_refused found⟩

namespace FieldType

/-- The codes whose bytes lie in the order of the format: all numbers of more than one byte. -/
def isOrdered : FieldType → Bool
  | int16 | uint16 | int32 | uint32 | long | ulong | single | double | pointer | int64 | uint64 => true
  | _ => false

def turn (code : FieldType) (raw : Bytes) : Bytes := if code.isOrdered then raw.reverse else raw

theorem length_turn (code : FieldType) (raw : Bytes) : (code.turn raw).length = raw.length := by
  unfold turn
  split <;> simp

theorem turn_replicate (code : FieldType) (n : Nat) (b : UInt8) :
    code.turn (List.replicate n b) = List.replicate n b := by
  unfold turn
  split <;> simp

end FieldType

namespace Codec

def mirrored : Codec → Codec
  | number n order => number n order.opposite
  | quad unsigned order => quad unsigned order.opposite
  | codec => codec

def turn : Codec → Bytes → Bytes
  | number .. | quad .. => List.reverse
  | _ => id

theorem spans_mirrored {codec : Codec} {length : Nat} (spans : codec.Spans length) :
    codec.mirrored.Spans length := by
  cases codec <;> exact spans

theorem encode_mirrored (codec : Codec) (strictness : Strictness) (v : Value) (offset : Int)
    (length : Nat) :
    codec.mirrored.encode strictness v offset length =
        (codec.encode strictness v offset length).map codec.turn ∨
      ∃ one other : PlainFault, one.Mirrors other ∧
        codec.encode strictness v offset length = .error (.plain one) ∧
        codec.mirrored.encode strictness v offset length = .error (.plain other) := by
  cases codec with
  | number n order =>
    simp only [mirrored, encode, turn]
    rcases n.pattern_opposite order v with same | ⟨one, other, mirrors, first, second⟩
    · left
      rw [same]
      cases n.pattern order v with
      | error fault => rfl
      | ok pattern => exact congrArg Except.ok (order.arrange_opposite _)
    · right
      rw [first, second]
      exact ⟨one, other, mirrors, rfl, rfl⟩
  | quad unsigned order =>
    left
    simp only [mirrored, encode, turn]
    cases v.toQuad? unsigned with
    | none => rfl
    | some x => exact congrArg Except.ok (order.arrange_opposite _)
  | _ =>
    left
    simp only [mirrored, turn]
    cases encode _ strictness v offset length <;> rfl

theorem decode_mirrored (codec : Codec) (strictness : Strictness) (raw : Bytes) (offset : Int) :
    codec.mirrored.decode strictness (codec.turn raw) offset = codec.decode strictness raw offset := by
  cases codec with
  | number n order => simp only [mirrored, turn, decode, Number.decode, order.arrange_opposite_reverse]
  | quad unsigned order => simp only [mirrored, turn, decode, order.arrange_opposite_reverse]
  | _ => rfl

end Codec

namespace FieldType

theorem codec_opposite (code : FieldType) (machine : Machine) (order : ByteOrder) :
    code.codec? machine order.opposite = (code.codec? machine order).map Codec.mirrored := by
  cases code with
  | pointer => simp only [codec?]; split <;> rfl
  | _ => rfl

/-- Where a code has bytes in an order its codec has one too; a number of a single byte is its own
mirror. -/
theorem turn_codec {code : FieldType} {machine : Machine} {order : ByteOrder} {codec : Codec}
    (found : code.codec? machine order = some codec) {raw : Bytes} (spans : codec.Spans raw.length) :
    code.turn raw = codec.turn raw := by
  have alone : raw.length = 1 → raw = raw.reverse := by
    intro single
    obtain ⟨b, rfl⟩ := List.length_eq_one_iff.mp single
    rfl
  cases code with
  | pointer =>
    simp only [codec?, Option.some.injEq] at found
    subst found
    split <;> rfl
  | padding => cases found
  | int8 | uint8 =>
    cases found
    exact alone spans
  | _ =>
    cases found
    rfl

end FieldType

namespace Slot

variable {slot : Slot} {convention : Convention} {strictness : Strictness}

def mirrored (slot : Slot) : Slot := { slot with codec? := slot.codec?.map Codec.mirrored }

theorem Uses.mirrored {codec : Codec} (uses : slot.Uses codec) :
    slot.mirrored.Uses codec.mirrored := by
  refine ⟨?_, Codec.spans_mirrored uses.spans, ?_⟩
  · simp [Slot.mirrored, uses.found]
  · intro counted
    apply uses.counted
    cases codec <;> simp_all [Codec.mirrored]

theorem content_mirrored (follows : slot.Follows convention) (v : Value) :
    slot.mirrored.content strictness v = (slot.content strictness v).map slot.code.turn ∨
      ∃ one other : Fault, one.Mirrors other ∧ slot.content strictness v = .error one ∧
        slot.mirrored.content strictness v = .error other := by
  cases found : slot.codec? with
  | none =>
    left
    simp [content, Slot.mirrored, found, Except.map]
  | some codec =>
    have uses := follows.uses found
    have turned : slot.mirrored.content strictness v =
        (codec.mirrored.encode strictness v slot.offset slot.size).mapError
          (Fault.inPacking slot.code.letter slot.offset) := content_eq uses.mirrored strictness v
    rw [turned, content_eq uses]
    rcases codec.encode_mirrored strictness v slot.offset slot.size with
      same | ⟨one, other, mirrors, first, second⟩
    · left
      rw [same]
      cases encoded : codec.encode strictness v slot.offset slot.size with
      | error fault => rfl
      | ok raw =>
        have spans := uses.spans
        rw [← Codec.length_encode uses.spans encoded] at spans
        exact congrArg Except.ok (FieldType.turn_codec (follows.codec.symm.trans found) spans).symm
    · right
      rw [first, second]
      exact ⟨_, _, .of_plain slot.code.letter slot.offset mirrors, rfl, rfl⟩

theorem unpacked_mirrored (follows : slot.Follows convention) {one two : Bytes}
    (first : Inside one slot.offset slot.size) (second : Inside two slot.offset slot.size)
    (turned : two.window slot.offset.toNat slot.size =
      slot.code.turn (one.window slot.offset.toNat slot.size)) (checked : Bool) :
    slot.mirrored.unpacked checked strictness two = slot.unpacked checked strictness one := by
  cases found : slot.codec? with
  | none => simp [unpacked, Slot.mirrored, found]
  | some codec =>
    have uses := follows.uses found
    have spans := uses.spans
    rw [← length_window one slot.offset.toNat slot.size first.fits] at spans
    rw [FieldType.turn_codec (follows.codec.symm.trans found) spans] at turned
    rw [unpacked_eq uses.mirrored checked strictness second, unpacked_eq uses checked strictness first]
    change (codec.mirrored.decode strictness (two.window slot.offset.toNat slot.size)
      slot.offset).mapError _ = _
    rw [turned, Codec.decode_mirrored]
    rfl

end Slot

/-- The same bytes, but those of every ordered field reversed. -/
structure Mirrored (fields : List Slot) (one two : Bytes) : Prop where
  outside : SameExcept (Touched fields) one two
  field : ∀ slot ∈ fields, two.window slot.offset.toNat slot.size =
    slot.code.turn (one.window slot.offset.toNat slot.size)

def mirror (fields : List Slot) (bs : Bytes) : Bytes :=
  lay fields (fields.map fun slot => slot.code.turn (bs.window slot.offset.toNat slot.size)) bs

def turned (fields : List Slot) (raws : List Bytes) : List Bytes :=
  List.zipWith (fun slot raw => slot.code.turn raw) fields raws

namespace Fit

variable {fields : List Slot} {raws : List Bytes} {bs : Bytes}

theorem turned (fit : Fit fields raws) : Fit fields (turned fields raws) := by
  induction fit with
  | nil fields =>
    rw [BinaryRecord.turned, List.zipWith_nil_right]
    exact Fit.nil fields
  | @cons slot raw fields raws size rest ih =>
    exact Fit.cons ((slot.code.length_turn raw).trans size) ih

theorem mirrored (fit : Fit fields raws) {n : Nat} (ordered : Ordered 0 fields)
    (inside : ∀ slot ∈ fields, Inside (List.replicate n 0) slot.offset slot.size) :
    Mirrored fields (lay fields raws (List.replicate n 0))
      (lay fields (BinaryRecord.turned fields raws) (List.replicate n 0)) := by
  have within := fit.length_le
  have same : (BinaryRecord.turned fields raws).length = raws.length := by
    simp [BinaryRecord.turned, within]
  have one := fit.sameExcept inside
  have two := fit.turned.sameExcept inside
  refine ⟨⟨two.length.trans one.length.symm, ?_⟩, ?_⟩
  · intro i free
    have fewer : ∀ n, ¬ Touched (fields.take n) i := fun n touched => free touched.of_take
    exact (two.untouched i (fewer _)).trans (one.untouched i (fewer _)).symm
  · intro slot member
    obtain ⟨k, low, rfl⟩ := List.mem_iff_getElem.mp member
    have field := List.getElem?_eq_getElem low
    by_cases laid : k < raws.length
    · have content := List.getElem?_eq_getElem laid
      have other : (BinaryRecord.turned fields raws)[k]? = some (fields[k].code.turn raws[k]) := by
        simp [BinaryRecord.turned, List.getElem?_zipWith, field, content]
      rw [fit.window ordered inside field content, fit.turned.window ordered inside field other]
    · -- A field without a content is zero in both, and zeros are their own mirror.
      rw [fit.window_unlaid ordered inside field (by omega),
        fit.turned.window_unlaid ordered inside field (by omega)]
      simp only [Bytes.window, List.drop_replicate, List.take_replicate, FieldType.turn_replicate]

end Fit

theorem lay_mirrored (fields : List Slot) (raws : List Bytes) (bs : Bytes) :
    lay (fields.map Slot.mirrored) raws bs = lay fields raws bs := by
  induction fields generalizing raws bs with
  | nil => rfl
  | cons slot fields ih =>
    cases raws with
    | nil => rfl
    | cons raw raws => exact ih raws (bs.overlay slot.offset.toNat raw)

theorem mirrored_mirror {fields : List Slot} {bs : Bytes} {cursor : Int}
    (ordered : Ordered cursor fields)
    (inside : ∀ slot ∈ fields, Inside bs slot.offset slot.size) :
    Mirrored fields bs (mirror fields bs) := by
  have fit : Fit fields
      (fields.map fun slot => slot.code.turn (bs.window slot.offset.toNat slot.size)) := by
    apply Fit.of_map
    intro slot member
    rw [FieldType.length_turn]
    exact length_window bs _ _ (inside slot member).fits
  constructor
  · exact (fit.sameExcept inside).mono fun i touched => touched.of_take
  · intro slot member
    obtain ⟨k, low, rfl⟩ := List.mem_iff_getElem.mp member
    have field := List.getElem?_eq_getElem low
    exact fit.window ordered inside field (by simp [field])

namespace Run

def mirrored (run : Run) : Run := { run with codec? := run.codec?.map Codec.mirrored }

theorem slotsFrom_mirrored (run : Run) (n : Nat) (position : Int) :
    run.mirrored.slotsFrom n position = (run.slotsFrom n position).map Slot.mirrored := by
  induction n generalizing position with
  | zero => rfl
  | succ n ih => exact congrArg (run.mirrored.slotAt position :: ·) (ih (position + run.size))

end Run

namespace Layout

variable {checked : Bool} {strictness : Strictness}

def mirrored (layout : Layout) : Layout := ⟨layout.runs.map Run.mirrored, layout.fault?⟩

theorem fields_mirrored (layout : Layout) :
    layout.mirrored.fields = layout.fields.map Slot.mirrored := by
  apply fields_map
  · intro run
    exact run.slotsFrom_mirrored run.count run.start
  · intro slot
    simp [Slot.isPadding, Slot.mirrored]

theorem size_mirrored (layout : Layout) : layout.mirrored.size = layout.size := by
  simp only [size, mirrored, List.getLast?_map, Option.map_map]
  rfl

theorem contents_mirrored {convention : Convention} {fields : List Slot} (values : List Value)
    (follows : ∀ slot ∈ fields, slot.Follows convention) :
    (contents checked strictness (fields.map Slot.mirrored) values).1 =
        turned fields (contents checked strictness fields values).1 ∧
      Option.Rel Fault.Mirrors (contents checked strictness fields values).2
        (contents checked strictness (fields.map Slot.mirrored) values).2 := by
  induction fields generalizing values with
  | nil => exact ⟨rfl, .none⟩
  | cons slot fields ih =>
    cases values with
    | nil =>
      rw [List.map_cons, contents, contents]
      refine ⟨rfl, ?_⟩
      cases checked with
      | false => exact .none
      | true => exact .some (.same _)
    | cons v values =>
      obtain ⟨raws, faults⟩ := ih values fun other member =>
        follows other (List.mem_cons_of_mem slot member)
      rw [List.map_cons, contents, contents]
      rcases slot.content_mirrored (follows slot List.mem_cons_self) v with
        same | ⟨one, other, mirrors, first, second⟩
      · rw [same]
        cases slot.content strictness v with
        | error fault => exact ⟨rfl, .some (.same fault)⟩
        | ok raw => exact ⟨congrArg (slot.code.turn raw :: ·) raws, faults⟩
      · rw [first, second]
        exact ⟨rfl, .some mirrors⟩

theorem unpack_mirrored {convention : Convention} {layout : Layout} {one two : Bytes}
    (follows : ∀ slot ∈ layout.fields, slot.Follows convention)
    (inside : ∀ slot ∈ layout.fields, Inside one slot.offset slot.size)
    (mirrors : Mirrored layout.fields one two) :
    layout.mirrored.unpack checked strictness two = layout.unpack checked strictness one := by
  have each : ∀ slot ∈ layout.fields, slot.mirrored.unpacked checked strictness two =
      slot.unpacked checked strictness one := by
    intro slot member
    have first := inside slot member
    exact Slot.unpacked_mirrored (follows slot member) first (first.congr mirrors.outside.length)
      (mirrors.field slot member) checked
  rw [unpack_eq, unpack_eq, fields_mirrored, List.mapM_map,
    mapM_congr (f := Slot.unpacked checked strictness two ∘ Slot.mirrored) each]
  rfl

theorem runAt_opposite (machine : Machine) (order : ByteOrder) (code : FieldType) (cursor : Int)
    (count : Nat) :
    runAt (.standard order.opposite machine) code cursor count =
      (runAt (.standard order machine) code cursor count).mirrored := by
  have codec := code.codec_opposite machine order
  cases code <;> simp only [runAt, Convention.codec?, Convention.standard] at codec ⊢ <;> rw [codec] <;>
    rfl

theorem place_opposite (machine : Machine) (order : ByteOrder) (cursor : Int)
    (tokens : List (FieldType × Nat)) :
    place (.standard order.opposite machine) cursor tokens =
      (place (.standard order machine) cursor tokens).map Run.mirrored := by
  induction tokens generalizing cursor with
  | nil => rfl
  | cons token tokens ih =>
    obtain ⟨code, count⟩ := token
    rw [place, place, List.map_cons, runAt_opposite, ih]
    rfl

end Layout

namespace Format

section Orders

variable (machine : Machine) (strictness : Strictness) (body : String)

theorem layout_opposite (start : Int) :
    (Format.mk (">" ++ body) machine strictness).layout start =
      ((Format.mk ("<" ++ body) machine strictness).layout start).mirrored := by
  have little : (Format.mk ("<" ++ body) machine strictness).text.toList = '<' :: body.toList := by
    simp
  have big : (Format.mk (">" ++ body) machine strictness).text.toList = '>' :: body.toList := by
    simp
  rw [layout_eq, layout_eq, tokens, tokens, body_of_text little rfl, body_of_text big rfl,
    convention_of_text little, convention_of_text big]
  exact congrArg (Layout.mk · _) (Layout.place_opposite machine .little start _)

theorem pack_opposite {arguments : List Value} {checked : Bool}
    (fixed : ∀ v ∈ (spread arguments checked).1, v.Fixed) :
    match (Format.mk ("<" ++ body) machine strictness).pack arguments checked with
    | .error fault => ∃ other,
      (Format.mk (">" ++ body) machine strictness).pack arguments checked = .error other ∧
        other.class? = fault.class? ∧ other.chain = fault.chain ∧ fault.Mirrors other
    | .ok record => ∃ other,
      (Format.mk (">" ++ body) machine strictness).pack arguments checked = .ok other ∧
        Mirrored ((Format.mk ("<" ++ body) machine strictness).layout 0).fields record other := by
  have layouts := layout_opposite machine strictness body 0
  generalize same : Format.mk ("<" ++ body) machine strictness = little at layouts ⊢
  generalize other : Format.mk (">" ++ body) machine strictness = big at layouts ⊢
  have demands : big.strictness = little.strictness := by rw [← same, ← other]
  have faults : (big.layout 0).fault? = (little.layout 0).fault? := by rw [layouts]; rfl
  have sizes : (big.layout 0).size = (little.layout 0).size := by
    rw [layouts, Layout.size_mirrored]
  cases whole : (little.layout 0).fault? with
  | some fault =>
    rw [pack_of_broken whole, pack_of_broken (faults.trans whole)]
    exact ⟨fault, rfl, (Fault.Mirrors.same fault).alike⟩
  | none =>
    by_cases small : (little.layout 0).size < 2 ^ 63
    · have uses : ∀ slot ∈ (little.layout 0).fields, ∃ codec, slot.Uses codec :=
        fun _ member => field_uses member
      have fit := Layout.contents_fit (spread arguments checked).2 little.strictness
        (spread arguments checked).1 uses
      have mirrors := fit.mirrored (little.fields_ordered 0) little.fields_inside_blank
      have blank : big.blank = little.blank := by rw [Format.blank, Format.blank, sizes]
      obtain ⟨raws, ends⟩ := @Layout.contents_mirrored (spread arguments checked).2
        little.strictness _ (little.layout 0).fields (spread arguments checked).1
        fun slot member => field_follows member
      rw [pack_contents whole small fixed, pack_contents (faults.trans whole) (by omega) fixed,
        demands, blank, layouts, Layout.fields_mirrored]
      generalize Layout.contents _ _ (little.layout 0).fields _ = one at mirrors raws ends ⊢
      generalize Layout.contents _ _ (List.map _ _) _ = two at raws ends ⊢
      obtain ⟨_, end?⟩ := one
      obtain ⟨_, other?⟩ := two
      cases raws
      cases ends with
      | none => exact ⟨_, congrArg Except.ok (lay_mirrored _ _ _), mirrors⟩
      | some told => exact ⟨_, rfl, told.alike⟩
    · rw [pack_of_large whole (by omega), pack_of_large (faults.trans whole) (by omega), sizes]
      exact ⟨_, rfl, (Fault.Mirrors.same _).alike⟩

end Orders

/-- The two byte orders are mirrors of each other: packing gives records that mirror each other or
fails in both with one class at one place, and unpacking the mirror of some data gives what the data
give. The two faults are the same but for the order in which a library was asked for the bits of a
value. The values are fixed as no value can be the array of a new record. -/
theorem pack_unpack_mirrored (machine : Machine) (strictness : Strictness) (body : String) :
    let little : Format := ⟨"<" ++ body, machine, strictness⟩
    let big : Format := ⟨">" ++ body, machine, strictness⟩
    let fields := (little.layout 0).fields
    (∀ arguments checked, (∀ v ∈ (spread arguments checked).1, v.Fixed) →
      match little.pack arguments checked with
      | .error fault => ∃ other, big.pack arguments checked = .error other ∧
        other.class? = fault.class? ∧ other.chain = fault.chain ∧ fault.Mirrors other
      | .ok record => ∃ other, big.pack arguments checked = .ok other ∧
        Mirrored fields record other) ∧
    ∀ (bs : Bytes), (little.layout 0).size ≤ bs.length →
      Mirrored fields bs (mirror fields bs) ∧
      ∀ data other checked, Storage.ofData data = .ok bs →
        Storage.ofData other = .ok (mirror fields bs) →
        big.unpack other checked = little.unpack data checked := by
  intro little big fields
  constructor
  · intro arguments checked fixed
    exact pack_opposite machine strictness body fixed
  · intro bs enough
    have inside : ∀ slot ∈ (little.layout 0).fields, Inside bs slot.offset slot.size := by
      intro slot member
      exact field_within member enough
    have mirrors := mirrored_mirror (little.fields_ordered 0) inside
    refine ⟨mirrors, ?_⟩
    intro data other checked taken takenOther
    have layouts : big.layout 0 = (little.layout 0).mirrored :=
      layout_opposite machine strictness body 0
    rw [unpack, unpack, unpackAt_eq big takenOther, unpackAt_eq little taken, layouts]
    exact Layout.unpack_mirrored (fun slot member => field_follows member) inside mirrors

/-- A number of two bytes, a single byte and a 64-bit integer with padding between them. -/
theorem pack_unpack_mirrored_mixed :
    let little : Format := ⟨"<hxBQ", Machine.default, Strictness.lenient⟩
    let big : Format := ⟨">hxBQ", Machine.default, Strictness.lenient⟩
    let record : Bytes := [2, 1, 0, 7, 3, 0, 0, 0, 5, 0, 0, 0]
    let other : Bytes := [1, 2, 0, 7, 0, 0, 0, 5, 0, 0, 0, 3]
    little.pack [.int 258, .int 7, .int 21474836483] true = .ok record ∧
      big.pack [.int 258, .int 7, .int 21474836483] true = .ok other ∧
      Mirrored (little.layout 0).fields record other ∧
      big.unpack (.bytes other) true = little.unpack (.view (.ofBytes record)) true := by
  have packed : (Format.mk ("<" ++ "hxBQ") Machine.default Strictness.lenient).pack
      [.int 258, .int 7, .int 21474836483] true = .ok [2, 1, 0, 7, 3, 0, 0, 0, 5, 0, 0, 0] := rfl
  have opposite : (Format.mk (">" ++ "hxBQ") Machine.default Strictness.lenient).pack
      [.int 258, .int 7, .int 21474836483] true = .ok [1, 2, 0, 7, 0, 0, 0, 5, 0, 0, 0, 3] := rfl
  have fixed : ∀ v ∈ (spread [.int 258, .int 7, .int 21474836483] true).1, v.Fixed := by
    simp [spread, Value.Fixed, Value.resolve]
  have enough : ((Format.mk ("<" ++ "hxBQ") Machine.default Strictness.lenient).layout 0).size ≤
      ([2, 1, 0, 7, 3, 0, 0, 0, 5, 0, 0, 0] : Bytes).length := by
    decide
  have turned : mirror
      ((Format.mk ("<" ++ "hxBQ") Machine.default Strictness.lenient).layout 0).fields
      [2, 1, 0, 7, 3, 0, 0, 0, 5, 0, 0, 0] = [1, 2, 0, 7, 0, 0, 0, 5, 0, 0, 0, 3] := by
    decide
  obtain ⟨packing, unpacking⟩ := pack_unpack_mirrored Machine.default Strictness.lenient "hxBQ"
  have mirrors := packing [.int 258, .int 7, .int 21474836483] true fixed
  obtain ⟨_, taken⟩ := unpacking [2, 1, 0, 7, 3, 0, 0, 0, 5, 0, 0, 0] enough
  rw [turned] at taken
  rw [packed] at mirrors
  obtain ⟨found, same, mirrored⟩ := mirrors
  cases opposite.symm.trans same
  exact ⟨packed, opposite, mirrored, taken _ _ true rfl rfl⟩

/-- A library that names what it was asked for does not word the two faults alike. -/
theorem pack_mirrored_worded :
    let little : Format := ⟨"<H", Machine.default, Strictness.lenient⟩
    let big : Format := ⟨">H", Machine.default, Strictness.lenient⟩
    let texts : Texts := fun _ request => match request with
      | .bits token _ .none => some ("Token " ++ token ++ " requires a value.")
      | _ => none
    ∃ one other, little.pack [.list [.none]] true = .error one ∧
      big.pack [.list [.none]] true = .error other ∧
      one.message? texts = some "Token uintle requires a value. [H@0]" ∧
      other.message? texts = some "Token uintbe requires a value. [H@0]" :=
  ⟨_, _, rfl, rfl, by decide, by decide⟩

end Format
end BinaryRecord
