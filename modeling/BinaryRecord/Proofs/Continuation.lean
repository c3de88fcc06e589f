import BinaryRecord.Proofs.Bounds
import BinaryRecord.Proofs.Frame
import BinaryRecord.Proofs.Gaps

/-!
A format cut behind a code. The walk over the second part starts where the one over the first part
ends, and takes nothing else over from it. So the records of both parts are read and written one after
the other, whatever the alignments, and a refused character is only named by a later index.
-/
namespace BinaryRecord

open Storage

namespace Fault

def later (n : Nat) : Fault → Fault
  | unknownCode c index => unknownCode c (index + n)
  | fault => fault

theorem later_of_class {fault : Fault} (n : Nat) (other : fault.class? ≠ some .format) :
    fault.later n = fault := by
  cases fault with
  | unknownCode c index => exact absurd rfl other
  | _ => rfl

end Fault

namespace Layout

theorem scan_later (strictness : Strictness) (n index count : Nat) (cs : List Char) :
    scan strictness (index + n) count cs =
      ((scan strictness index count cs).1, (scan strictness index count cs).2.map (Fault.later n)) := by
  induction cs generalizing index count with
  | nil => rfl
  | cons c cs ih =>
    have next : index + n + 1 = index + 1 + n := by omega
    rw [scan, scan, next]
    by_cases digit : c.isDigit
    · rw [if_pos digit, if_pos digit, ih]
    · rw [if_neg digit, if_neg digit]
      cases FieldType.ofLetter? c with
      | none =>
        by_cases strict : strictness.codes
        · simp only [strict, if_true]
          rfl
        · simp only [strict]
          exact ih (index + 1) 0
      | some code => simp only [ih]

/-- A walk, and unless it fails a second one that has `n` more characters before it. -/
def continued (first : Layout) (n : Nat) (second : Layout) : Layout :=
  match first.fault? with
  | some _ => first
  | none => ⟨first.runs ++ second.runs, second.fault?.map (Fault.later n)⟩

variable {first second : Layout} {n : Nat} {checked other : Bool} {strictness : Strictness}

theorem continued_whole (whole : first.fault? = none) (n : Nat) (second : Layout) :
    (first.continued n second).slots = first.slots ++ second.slots ∧
      (first.continued n second).fields = first.fields ++ second.fields ∧
      (first.continued n second).fault? = second.fault?.map (Fault.later n) := by
  have both : first.continued n second =
      ⟨first.runs ++ second.runs, second.fault?.map (Fault.later n)⟩ := by
    rw [continued, whole]
  have slots : (first.continued n second).slots = first.slots ++ second.slots := by
    rw [both]
    exact List.flatMap_append
  refine ⟨slots, ?_, by rw [both]⟩
  rw [fields, slots, List.filter_append]
  rfl

theorem continued_broken {fault : Fault} (broken : first.fault? = some fault) (n : Nat)
    (second : Layout) : first.continued n second = first := by
  rw [continued, broken]

theorem unpack_continued (uses : ∀ slot ∈ second.fields, ∃ codec, slot.Uses codec) (bs : Bytes) :
    (first.continued n second).unpack checked strictness bs = (do
      let values ← first.unpack checked strictness bs
      let more ← (second.unpack checked strictness bs).mapError (Fault.later n)
      return values ++ more) := by
  have kept : second.fields.mapM (Slot.unpacked checked strictness bs) =
      (second.fields.mapM (Slot.unpacked checked strictness bs)).mapError (Fault.later n) := by
    rw [← mapM_mapError]
    apply mapM_congr
    intro slot field
    obtain ⟨codec, used⟩ := uses slot field
    cases read : slot.unpacked checked strictness bs with
    | ok v => rfl
    | error fault =>
      have located := (Slot.unpacked_fault used read).1
      refine congrArg Except.error (Fault.later_of_class n ?_).symm
      rcases located with short | bad
      · simp [short]
      · simp [bad]
  rw [unpack_eq first]
  cases ends : first.fault? with
  | some fault =>
    rw [continued_broken ends, unpack_eq, ends]
    cases first.fields.mapM (Slot.unpacked checked strictness bs) <;> rfl
  | none =>
    obtain ⟨_, fields, faults⟩ := continued_whole ends n second
    rw [unpack_eq, unpack_eq second, fields, faults, List.mapM_append]
    cases first.fields.mapM (Slot.unpacked checked strictness bs) with
    | error fault => rfl
    | ok values =>
      generalize second.fields.mapM (Slot.unpacked checked strictness bs) = read at kept ⊢
      cases read with
      | error fault => exact kept
      | ok more => cases second.fault? <;> rfl

theorem packOnto_continued (usesFirst : ∀ slot ∈ first.fields, ∃ codec, slot.Uses codec)
    (usesSecond : ∀ slot ∈ second.fields, ∃ codec, slot.Uses codec) {u : List Value}
    (each : u.length = first.fields.length) (v : List Value) :
    (first.continued n second).packOnto checked strictness (u ++ v) = (do
      first.packOnto other strictness u
      EStateM.adaptExcept (Fault.later n) (second.packOnto checked strictness v)) := by
  funext state
  cases state with
  | array bs =>
    have kept : ∀ mid fault after, packFields checked strictness second.fields v mid =
        .error fault after → fault.later n = fault := by
      intro mid fault after failed
      apply Fault.later_of_class
      rcases packFields_fault usesSecond failed with (refused | ⟨v, rfl⟩) | ⟨_, missing⟩
      · simp [refused]
      · simp [Fault.refused, Fault.class?]
      · simp [missing]
    cases ends : first.fault? with
    | some fault =>
      -- There is no second part, so the values for it are left.
      have run : packFields checked strictness (first.fields ++ []) (u ++ v) bs = _ :=
        packFields_append usesFirst each other v
      rw [List.append_nil] at run
      change _ = EStateM.bind _ _ _
      rw [EStateM.bind, continued_broken ends, packOnto_array, packOnto_array, run, ends]
      cases packFields other strictness first.fields u bs <;> rfl
    | none =>
      obtain ⟨_, fields, faults⟩ := continued_whole ends n second
      change _ = EStateM.bind _ _ _
      rw [EStateM.bind, packOnto_array, packOnto_array, fields, faults, ends,
        packFields_append usesFirst each other]
      cases packFields other strictness first.fields u bs with
      | error fault after => rfl
      | ok left mid =>
        change _ = EStateM.adaptExcept _ _ _
        rw [EStateM.adaptExcept, packOnto_array]
        dsimp only
        cases packed : packFields checked strictness second.fields v mid with
        | error fault after =>
          dsimp only
          rw [kept mid fault after packed]
        | ok left after => cases second.fault? <;> rfl
  -- What is no array is refused before any field.
  | _ => rfl

end Layout

namespace Format

section Marks

variable {machine : Machine} {strictness : Strictness} {mark : Char}

theorem layout_append (known : mark ∈ ['<', '>', '!', '=', '@']) {f : String}
    (last : ∀ c ∈ f.toList.getLast?, c.isDigit = false) (g : String) (start : Int) :
    (marked machine strictness mark (f ++ g)).layout start =
      ((marked machine strictness mark f).layout start).continued f.length
        ((marked machine strictness mark g).layout
          (finish start ((marked machine strictness mark f).layout start).slots)) := by
  rw [layout_marked known, layout_marked known, layout_marked known, String.toList_append,
    Layout.scan_append, Layout.pending_of_last last, Layout.scan_later]
  generalize Layout.scan strictness 1 0 f.toList = one
  generalize Layout.scan strictness 1 0 g.toList = two
  obtain ⟨tokens, _ | fault⟩ := one
  · rw [Layout.continued]
    dsimp only
    rw [Layout.place_append]
    rfl
  · rfl

end Marks

/-- A walk splits behind any code, with the place where its first part ends as all that the second one
takes over. So reading and writing the whole is to do so with the first part and then, unless that
fails, with the second one. A refused character is reported at its index in the whole. -/
theorem layout_continued (machine : Machine) (strictness : Strictness) (mark : Char)
    (known : mark ∈ ['<', '>', '!', '=', '@']) (f g : String)
    (last : ∀ c ∈ f.toList.getLast?, c.isDigit = false) (start : Int) :
    let left := marked machine strictness mark f
    let right := marked machine strictness mark g
    let whole := marked machine strictness mark (f ++ g)
    let stop := ((left.layout start).slots.getLast?.map Slot.stop).getD start
    (strictness.codes = false →
      (whole.layout start).slots = (left.layout start).slots ++ (right.layout stop).slots ∧
      (whole.layout start).fault? = none) ∧
    (match (left.layout start).fault? with
      | some fault => (whole.layout start).slots = (left.layout start).slots ∧
          (whole.layout start).fault? = some fault
      | none => (whole.layout start).slots = (left.layout start).slots ++ (right.layout stop).slots ∧
          (whole.layout start).fault? = (right.layout stop).fault?.map (Fault.later f.length)) ∧
    (∀ data checked, whole.unpackAt data checked start = (do
      let values ← left.unpackAt data checked start
      let more ← (right.unpackAt data checked stop).mapError (Fault.later f.length)
      return values ++ more)) ∧
    ∀ both one two u v checked enough other, spread both checked = (u ++ v, enough) →
      spread one checked = (u, other) → spread two checked = (v, enough) →
      u.length = (left.layout start).fields.length →
      whole.packAt start both checked = (do
        left.packAt start one checked
        EStateM.adaptExcept (Fault.later f.length) (right.packAt stop two checked)) := by
  intro left right whole stop
  have split : whole.layout start =
      (left.layout start).continued f.length (right.layout stop) := by
    have parts : whole.layout start = (left.layout start).continued f.length (right.layout _) :=
      layout_append known last g start
    rwa [finish_eq_getLast] at parts
  refine ⟨?_, ?_, ?_, ?_⟩
  · intro lenient
    have accepted : ∀ format : Format, format.strictness = strictness → ∀ position,
        (format.layout position).fault? = none := by
      intro format same position
      exact fault_of_accepted (accepted_of_lenient (by rw [same, lenient])) position
    refine ⟨?_, accepted whole rfl start⟩
    rw [split]
    exact (Layout.continued_whole (accepted left rfl start) f.length (right.layout stop)).1
  · rw [split]
    cases ends : (left.layout start).fault? with
    | some fault =>
      rw [Layout.continued_broken ends]
      exact ⟨rfl, ends⟩
    | none =>
      obtain ⟨slots, _, faults⟩ := Layout.continued_whole ends f.length (right.layout stop)
      exact ⟨slots, faults⟩
  · intro data checked
    cases taken : Storage.ofData data with
    | error fault =>
      unfold unpackAt
      rw [taken]
      rfl
    | ok bs =>
      rw [unpackAt_eq whole taken, unpackAt_eq left taken, unpackAt_eq right taken, split]
      exact Layout.unpack_continued (fun _ member => field_uses member) bs
  · intro both one two u v checked enough other wholes firsts seconds each
    rw [packAt_eq, packAt_eq, packAt_eq, wholes, firsts, seconds, split]
    exact Layout.packOnto_continued (fun _ member => field_uses member)
      (fun _ member => field_uses member) each v

/-- The first part ends at 7, from where the integers of four bytes are put off to 8. Both are read and
written before the character behind them is refused, at its index in the whole. -/
theorem layout_continued_refused :
    let whole := marked Machine.default ⟨true, false⟩ '@' ("Hx" ++ "2i!B")
    (whole.layout 3).slots.map Slot.offset = [4, 6, 8, 12] ∧
      (whole.layout 3).fault? = some (.unknownCode '!' 5) ∧
      whole.unpackAt (.bytes (List.replicate 16 0)) true 3 = .error (.unknownCode '!' 5) ∧
      whole.packAt 3 [.list ([.int 258] ++ [.int 7, .int 300])] true
        (.array (List.replicate 16 0)) = .error (.unknownCode '!' 5)
          (.array [0, 0, 0, 0, 2, 1, 0, 0, 7, 0, 0, 0, 44, 1, 0, 0]) := by
  intro whole
  obtain ⟨_, ⟨slots, faults⟩, unpacking, packing⟩ := layout_continued Machine.default ⟨true, false⟩
    '@' (by decide) "Hx" "2i!B" (by simp) 3
  have read := unpacking (.bytes (List.replicate 16 0)) true
  have written := congrFun (packing [.list ([.int 258] ++ [.int 7, .int 300])] [.list [.int 258]]
    [.list [.int 7, .int 300]] [.int 258] [.int 7, .int 300] true true true rfl rfl rfl (by decide))
    (.array (List.replicate 16 0))
  refine ⟨?_, ?_, ?_, ?_⟩
  · rw [slots]
    decide
  · rw [faults]
    rfl
  · rw [read]
    rfl
  · rw [written]
    rfl

end Format
end BinaryRecord
