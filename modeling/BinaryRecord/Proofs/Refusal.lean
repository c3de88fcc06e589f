import BinaryRecord.Compiled
import BinaryRecord.Proofs.Bounds
import BinaryRecord.Proofs.Frame

/-!
Formats with a character that is refused. Their layout is the one of the part before it, and then the
fault. What needs the whole layout first is therefore refused at once; what reads or writes fields
along the walk does so for that part, and comes to the fault only if no field fails before.
-/
namespace BinaryRecord

open Storage Bytes

theorem Convention.chosen_take (machine : Machine) (cs : List Char) {n : Nat}
    (whole : (if (chosen machine cs).2 then 1 else 0) ≤ n) :
    chosen machine (cs.take n) = chosen machine cs := by
  cases cs with
  | nil => rw [List.take_nil]
  | cons c cs =>
    cases n with
    | succ n =>
      unfold chosen
      split <;> simp_all
    | zero =>
      revert whole
      unfold chosen
      split <;> simp_all

namespace Layout

def Known (c : Char) : Prop := c.isDigit = true ∨ FieldType.ofLetter? c ≠ none

instance (c : Char) : Decidable (Known c) := inferInstanceAs (Decidable (_ ∨ _))

theorem scan_unknown {strictness : Strictness} (strict : strictness.codes = true) {c : Char}
    (unknown : ¬ Known c) {before : List Char} (known : ∀ d ∈ before, Known d) (after : List Char)
    (index count : Nat) :
    scan strictness index count (before ++ c :: after) =
      ((scan strictness index count before).1, some (.unknownCode c (index + before.length))) := by
  have whole := scan_accepted strictness index count before fun _ => known
  obtain ⟨digit, letter⟩ := not_or.mp unknown
  have ends : ∀ place pending : Nat,
      scan strictness place pending (c :: after) = ([], some (.unknownCode c place)) := by
    intro place pending
    rw [scan, if_neg digit, not_not.mp letter]
    simp only [strict, if_true]
  rw [scan_append, ends]
  generalize scan strictness index count before = scanned at whole ⊢
  obtain ⟨tokens, _ | fault⟩ := scanned
  · simp only [List.append_nil]
  · cases whole

end Layout

namespace Format

def prefixLength (format : Format) : Nat := if format.convention.2 then 1 else 0

def upTo (format : Format) (index : Nat) : Format :=
  { format with text := String.ofList (format.text.toList.take index) }

/-- The first character after the prefix that is neither digit nor code, and its place. -/
structure FirstUnknown (format : Format) (c : Char) (index : Nat) : Prop where
  afterPrefix : format.prefixLength ≤ index
  here : format.text.toList[index]? = some c
  unknown : ¬ Layout.Known c
  known : ∀ d ∈ (format.upTo index).body, Layout.Known d

theorem firstUnknown_iff {format : Format} {c : Char} {index : Nat} :
    format.FirstUnknown c index ↔ format.prefixLength ≤ index ∧
      format.text.toList[index]? = some c ∧ ¬ Layout.Known c ∧
      (format.upTo index).body.all (fun d => Layout.Known d) = true := by
  rw [List.all_eq_true]
  constructor
  · rintro ⟨afterPrefix, here, unknown, known⟩
    exact ⟨afterPrefix, here, unknown, fun d member => decide_eq_true (known d member)⟩
  · rintro ⟨afterPrefix, here, unknown, known⟩
    exact ⟨afterPrefix, here, unknown, fun d member => of_decide_eq_true (known d member)⟩

instance (format : Format) (c : Char) (index : Nat) : Decidable (format.FirstUnknown c index) :=
  decidable_of_iff' _ firstUnknown_iff

section Cut

variable {format : Format} {c : Char} {index : Nat}

theorem upTo_strictness : (format.upTo index).strictness = format.strictness := rfl

theorem convention_upTo (within : format.prefixLength ≤ index) :
    (format.upTo index).convention = format.convention := by
  unfold convention upTo
  rw [String.toList_ofList]
  exact Convention.chosen_take _ _ within

theorem body_upTo (within : format.prefixLength ≤ index) :
    (format.upTo index).body = (format.text.toList.take index).drop format.prefixLength := by
  unfold body
  rw [convention_upTo within]
  unfold upTo
  rw [String.toList_ofList]
  rfl

theorem body_split (first : format.FirstUnknown c index) :
    format.body = (format.upTo index).body ++ c :: format.text.toList.drop (index + 1) := by
  have low := (List.getElem?_eq_some_iff.mp first.here).1
  have split : format.text.toList =
      format.text.toList.take index ++ c :: format.text.toList.drop (index + 1) := by
    have same := (List.getElem?_eq_some_iff.mp first.here).2
    rw [← same, ← List.drop_eq_getElem_cons low, List.take_append_drop]
  rw [body_upTo first.afterPrefix]
  change format.text.toList.drop format.prefixLength = _
  conv_lhs => rw [split]
  rw [List.drop_append_of_le_length]
  rw [List.length_take]
  have := first.afterPrefix
  omega

theorem length_body_upTo (first : format.FirstUnknown c index) :
    format.prefixLength + (format.upTo index).body.length = index := by
  have low := (List.getElem?_eq_some_iff.mp first.here).1
  have := first.afterPrefix
  rw [body_upTo first.afterPrefix, List.length_drop, List.length_take]
  omega

theorem accepted_upTo (first : format.FirstUnknown c index) : (format.upTo index).Accepted :=
  fun _ => first.known

theorem layout_scan (format : Format) (start : Int) :
    format.layout start =
      ⟨Layout.place format.convention.1 start
        (Layout.scan format.strictness format.prefixLength 0 format.body).1,
        (Layout.scan format.strictness format.prefixLength 0 format.body).2⟩ :=
  format.layout_eq start

theorem layout_refused (strict : format.strictness.codes = true)
    (first : format.FirstUnknown c index) (start : Int) :
    format.layout start =
      ⟨((format.upTo index).layout start).runs, some (.unknownCode c index)⟩ := by
  have scanned := Layout.scan_unknown strict first.unknown first.known
    (format.text.toList.drop (index + 1)) format.prefixLength 0
  rw [length_body_upTo first, ← body_split first] at scanned
  have convention := convention_upTo first.afterPrefix
  have length : (format.upTo index).prefixLength = format.prefixLength := by
    rw [prefixLength, prefixLength, convention]
  rw [layout_scan, layout_scan, scanned, convention, length]
  rfl

theorem exists_firstUnknown (unknown : ∃ c ∈ format.body, ¬ Layout.Known c) :
    ∃ c index, format.FirstUnknown c index := by
  obtain ⟨d, member, unknown⟩ := unknown
  let bad : Char → Bool := fun c => ¬ Layout.Known c
  have low : format.body.findIdx bad < format.body.length :=
    List.findIdx_lt_length_of_exists ⟨d, member, by simpa [bad] using unknown⟩
  have within := Nat.le_add_right format.prefixLength (format.body.findIdx bad)
  refine ⟨format.body[format.body.findIdx bad], _, within, ?_, ?_, ?_⟩
  · rw [← List.getElem?_drop]
    exact List.getElem?_eq_getElem low
  · simpa [bad] using List.findIdx_getElem (w := low)
  · rw [body_upTo within, List.drop_take, Nat.add_sub_cancel_left]
    intro c early
    obtain ⟨j, before, rfl⟩ := List.mem_take_iff_getElem.mp early
    have short := Nat.lt_of_lt_of_le before (Nat.min_le_left _ _)
    have good : bad format.body[j] = false := by simpa using List.not_of_lt_findIdx short
    exact not_not.mp (of_decide_eq_false good)

theorem fault_refused (strict : format.strictness.codes = true)
    (first : format.FirstUnknown c index) (start : Int) :
    (format.layout start).fault? = some (.unknownCode c index) := by
  rw [layout_refused strict first]

theorem fields_refused (strict : format.strictness.codes = true)
    (first : format.FirstUnknown c index) (start : Int) :
    (format.layout start).fields = ((format.upTo index).layout start).fields := by
  rw [layout_refused strict first]
  rfl

theorem accepted_refused (strict : format.strictness.codes = true)
    (first : format.FirstUnknown c index) (start : Int) :
    (format.layout start).accepted = .error (.unknownCode c index) := by
  rw [Layout.accepted, fault_refused strict first]

theorem accepted_of_size {total : Int} (sized : format.size = .ok total) : format.Accepted := by
  intro strict
  by_contra known
  obtain ⟨c, unknown⟩ := not_forall.mp known
  obtain ⟨member, unknown⟩ := Classical.not_imp.mp unknown
  obtain ⟨c, index, first⟩ := exists_firstUnknown ⟨c, member, unknown⟩
  unfold size at sized
  rw [accepted_refused strict first] at sized
  cases sized

theorem unpackAt_refused (strict : format.strictness.codes = true)
    (first : format.FirstUnknown c index) (data : Value) (checked : Bool) (offset : Int) :
    format.unpackAt data checked offset =
      ((format.upTo index).unpackAt data checked offset).bind fun _ =>
        .error (.unknownCode c index) := by
  cases taken : Storage.ofData data with
  | error fault =>
    unfold unpackAt
    rw [taken]
    rfl
  | ok bs =>
    have whole := fault_of_accepted (accepted_upTo first) offset
    rw [unpackAt_eq _ taken, unpackAt_eq _ taken, Layout.unpack_eq, Layout.unpack_eq, whole,
      fields_refused strict first, fault_refused strict first, upTo_strictness]
    cases ((format.upTo index).layout offset).fields.mapM
      (Slot.unpacked checked format.strictness bs) <;> rfl

theorem packAt_refused (strict : format.strictness.codes = true)
    (first : format.FirstUnknown c index) (offset : Int) (arguments : List Value) (checked : Bool)
    (bs : Bytes) :
    format.packAt offset arguments checked (.array bs) =
      match (format.upTo index).packAt offset arguments checked (.array bs) with
      | .ok _ after => .error (.unknownCode c index) after
      | .error fault after => .error fault after := by
  have whole := fault_of_accepted (accepted_upTo first) offset
  rw [packAt_eq, packAt_eq, Layout.packOnto_array, Layout.packOnto_array, whole,
    fields_refused strict first, fault_refused strict first, upTo_strictness]
  cases Layout.packFields (spread arguments checked).2 format.strictness
    ((format.upTo index).layout offset).fields (spread arguments checked).1 bs <;> rfl

end Cut

theorem packAt_fault {format : Format} (accepted : format.Accepted) {offset : Int}
    {arguments : List Value} {checked : Bool} {bs : Bytes} {fault : Fault} {after : Value}
    (failed : format.packAt offset arguments checked (.array bs) = .error fault after) :
    fault.class? = some .packing ∨ fault.class? = some .insufficient ∨ fault.IsUnreported := by
  rw [packAt_eq, Layout.packOnto_array, fault_of_accepted accepted] at failed
  split at failed
  · cases failed
  · rename_i whole
    cases whole
  · rename_i packed
    cases failed
    rcases Layout.packFields_fault (fun slot member => field_uses member) packed with
      (kind | unreported) | ⟨_, kind⟩
    · exact Or.inl kind
    · exact Or.inr (Or.inr unreported)
    · exact Or.inr (Or.inl kind)

/-- An unknown character is refused before anything else by all that walks the whole format first.
Reading and writing along the walk come to it only where they succeed with the part before it, and
the array is left as that part leaves it. -/
theorem unknown_refused (format : Format) (strict : format.strictness.codes = true) (c : Char)
    (index : Nat) (first : format.FirstUnknown c index) :
    let fault := Fault.unknownCode c index
    (fault.class? = some .format ∧ fault.chain = Fault.place c index) ∧
    (format.size = .error fault ∧ format.entries = .error fault ∧
      Compiled.ofFormat format = .error fault) ∧
    (∀ arguments checked, format.pack arguments checked = .error fault) ∧
    (∀ data checked, format.records data checked = ([], some fault)) ∧
    (∀ data bs, Storage.ofData data = .ok bs → ∀ checked offset,
      match (format.upTo index).unpackAt data checked offset with
      | .ok _ => format.unpackAt data checked offset = .error fault
      | .error other => format.unpackAt data checked offset = .error other ∧
          (other.class? = some .truncated ∨ other.class? = some .unpacking)) ∧
    ∀ offset arguments checked bs,
      match (format.upTo index).packAt offset arguments checked (.array bs) with
      | .ok _ after => format.packAt offset arguments checked (.array bs) = .error fault after
      | .error other after => format.packAt offset arguments checked (.array bs) = .error other after ∧
          (other.class? = some .packing ∨ other.class? = some .insufficient ∨
            other.IsUnreported) := by
  intro fault
  have refused := accepted_refused strict first 0
  have sized : format.size = .error fault := by
    unfold size
    rw [refused]
    rfl
  refine ⟨⟨rfl, rfl⟩, ⟨sized, ?_, ?_⟩, ?_, ?_, ?_, ?_⟩
  · unfold entries
    rw [refused]
    rfl
  · unfold Compiled.ofFormat
    rw [refused]
    rfl
  · intro arguments checked
    unfold pack
    rw [refused]
    rfl
  · intro data checked
    unfold records recordSize
    rw [sized]
    rfl
  · intro data bs taken checked offset
    rw [unpackAt_refused strict first]
    cases part : (format.upTo index).unpackAt data checked offset with
    | ok values => rfl
    | error other => exact ⟨rfl, (unpackAt_fault (accepted_upTo first) taken part).1⟩
  · intro offset arguments checked bs
    rw [packAt_refused strict first]
    cases part : (format.upTo index).packAt offset arguments checked (.array bs) with
    | ok done after => rfl
    | error other after => exact ⟨rfl, packAt_fault (accepted_upTo first) part⟩

/-- The byte before the refused character is written, and is missed where there is none to read. -/
theorem unknown_refused_late :
    let format : Format := ⟨"<B-", Machine.default, ⟨true, false⟩⟩
    format.FirstUnknown '-' 2 ∧
      format.pack [.int 1] true = .error (.unknownCode '-' 2) ∧
      format.packAt 0 [.int 1] true (.array [0]) = .error (.unknownCode '-' 2) (.array [1]) ∧
      format.unpackAt (.bytes []) false 0 = .error (.unpacking 'B' 0 (.outside 1 0 0)) := by
  have first : (Format.mk "<B-" Machine.default ⟨true, false⟩).FirstUnknown '-' 2 := by decide
  have written : ((Format.mk "<B-" Machine.default ⟨true, false⟩).upTo 2).packAt 0 [.int 1] true
      (.array [0]) = .ok () (.array [1]) := rfl
  have missed : ((Format.mk "<B-" Machine.default ⟨true, false⟩).upTo 2).unpackAt (.bytes []) false 0 =
      .error (.unpacking 'B' 0 (.outside 1 0 0)) := rfl
  obtain ⟨_, _, packed, _, unpacked, packedAt⟩ := unknown_refused _ rfl '-' 2 first
  have late := packedAt 0 [.int 1] true [0]
  have early := unpacked (.bytes []) [] rfl false 0
  rw [written] at late
  rw [missed] at early
  exact ⟨first, packed _ _, late, early.1⟩

end Format
end BinaryRecord
