import BinaryRecord.Compiled
import BinaryRecord.Proofs.Fields
import Mathlib.Logic.Function.Basic

/-!
Sequences of calls on a compiled format. The calls share objects, so a later one reads what an earlier
one has written, and what it wrote before it failed. Compiling only spares the walk over the format.
-/
namespace BinaryRecord

abbrev Shared := Nat → Value

/-- A call; what the objects hold when it is made gives it its data and values. In values to be written
the array that is written is the target. -/
inductive Call where
  | size
  | entries
  | pack (arguments : Shared → List Value) (checked : Bool)
  | packAt (onto : Nat) (offset : Int) (arguments : Shared → List Value) (checked : Bool)
  | unpack (data : Shared → Value) (checked : Bool)
  | unpackAt (data : Shared → Value) (checked : Bool) (offset : Int)
  | records (data : Shared → Value) (checked : Bool)

inductive Answer where
  | size (result : Except Fault Int)
  | entries (result : Except Fault (List (Char × Int × Nat)))
  | record (result : Except Fault Bytes)
  | written (result : Except Fault Unit)
  | values (result : Except Fault (List Value))
  | records (result : List (List Value) × Option Fault)

namespace Call

def edit (edit : EStateM Fault Value Unit) (onto : Nat) (shared : Shared) : Answer × Shared :=
  match edit (shared onto) with
  | .ok _ after => (.written (.ok ()), Function.update shared onto after)
  | .error fault after => (.written (.error fault), Function.update shared onto after)

def ofFormat (format : Format) (shared : Shared) : Call → Answer × Shared
  | size => (.size format.size, shared)
  | entries => (.entries format.entries, shared)
  | pack arguments checked => (.record (format.pack (arguments shared) checked), shared)
  | packAt onto offset arguments checked =>
    edit (format.packAt offset (arguments shared) checked) onto shared
  | unpack data checked => (.values (format.unpack (data shared) checked), shared)
  | unpackAt data checked offset => (.values (format.unpackAt (data shared) checked offset), shared)
  | records data checked => (.records (format.records (data shared) checked), shared)

def ofCompiled (compiled : Compiled) (shared : Shared) : Call → Answer × Shared
  | size => (.size (.ok compiled.size), shared)
  | entries => (.entries (.ok compiled.entries), shared)
  | pack arguments checked => (.record (compiled.pack (arguments shared) checked), shared)
  | packAt onto offset arguments checked =>
    edit (compiled.packAt offset (arguments shared) checked) onto shared
  | unpack data checked => (.values (compiled.unpack (data shared) checked), shared)
  | unpackAt data checked offset =>
    (.values (compiled.unpackAt (data shared) checked offset), shared)
  | records data checked => (.records (compiled.records (data shared) checked), shared)

def trace (answer : Shared → Call → Answer × Shared) :
    Shared → List Call → List (Answer × Shared)
  | _, [] => []
  | shared, call :: calls =>
    answer shared call :: trace answer (answer shared call).2 calls

end Call

namespace Compiled

variable {format : Format} {compiled : Compiled}

/-- A compiled format is the format with its layout at 0, whose walk came to its end. -/
theorem of_made (made : ofFormat format = .ok compiled) :
    compiled = ⟨format, format.layout 0⟩ ∧ (format.layout 0).fault? = none := by
  unfold ofFormat at made
  cases accepted : (format.layout 0).accepted with
  | error fault =>
    rw [accepted] at made
    cases made
  | ok initial =>
    obtain ⟨whole, rfl⟩ := Layout.accepted_ok.mp accepted
    rw [accepted] at made
    cases made
    exact ⟨rfl, whole⟩

theorem layout_eq (made : ofFormat format = .ok compiled) (start : Int) :
    compiled.layout start = format.layout start := by
  obtain ⟨rfl, _⟩ := of_made made
  unfold layout
  split
  · rename_i zero
    rw [zero]
  · rfl

theorem size_eq (made : ofFormat format = .ok compiled) : .ok compiled.size = format.size := by
  obtain ⟨rfl, whole⟩ := of_made made
  exact (Format.size_whole whole).symm

theorem entries_eq (made : ofFormat format = .ok compiled) :
    .ok compiled.entries = format.entries := by
  obtain ⟨rfl, whole⟩ := of_made made
  unfold Format.entries
  rw [Layout.accepted_of_whole whole]
  rfl

theorem pack_eq (made : ofFormat format = .ok compiled) (arguments : List Value) (checked : Bool) :
    compiled.pack arguments checked = format.pack arguments checked := by
  obtain ⟨rfl, whole⟩ := of_made made
  unfold Format.pack
  rw [Layout.accepted_of_whole whole]
  rfl

theorem packAt_eq (made : ofFormat format = .ok compiled) (offset : Int) (arguments : List Value)
    (checked : Bool) : compiled.packAt offset arguments checked =
      format.packAt offset arguments checked := by
  have same := layout_eq made offset
  obtain ⟨rfl, _⟩ := of_made made
  unfold packAt Format.packAt
  rw [same]

theorem unpackAt_eq (made : ofFormat format = .ok compiled) (data : Value) (checked : Bool)
    (offset : Int) :
    compiled.unpackAt data checked offset = format.unpackAt data checked offset := by
  have same := layout_eq made offset
  obtain ⟨rfl, _⟩ := of_made made
  unfold unpackAt Format.unpackAt Format.unpackBytes
  rw [same]

theorem records_eq (made : ofFormat format = .ok compiled) (data : Value) (checked : Bool) :
    compiled.records data checked = format.records data checked := by
  obtain ⟨rfl, _⟩ := of_made made
  rfl

theorem call_eq (made : ofFormat format = .ok compiled) (shared : Shared) (call : Call) :
    call.ofCompiled compiled shared = call.ofFormat format shared := by
  cases call with
  | size => rw [Call.ofCompiled, size_eq made, Call.ofFormat]
  | entries => rw [Call.ofCompiled, entries_eq made, Call.ofFormat]
  | pack arguments checked => rw [Call.ofCompiled, pack_eq made, Call.ofFormat]
  | packAt onto offset arguments checked => rw [Call.ofCompiled, packAt_eq made, Call.ofFormat]
  | unpack data checked => rw [Call.ofCompiled, unpack, unpackAt_eq made, Call.ofFormat, Format.unpack]
  | unpackAt data checked offset => rw [Call.ofCompiled, unpackAt_eq made, Call.ofFormat]
  | records data checked => rw [Call.ofCompiled, records_eq made, Call.ofFormat]

theorem trace_eq (made : ofFormat format = .ok compiled) (shared : Shared) (calls : List Call) :
    Call.trace (Call.ofCompiled compiled) shared calls =
      Call.trace (Call.ofFormat format) shared calls := by
  induction calls generalizing shared with
  | nil => rfl
  | cons call calls ih => rw [Call.trace, Call.trace, call_eq made, ih]

end Compiled

namespace Format

/-- Every accepted format can be compiled. Whatever calls are made on it, each has the answer of the
same call of the format, and leaves the shared objects as that does. -/
theorem compiled_calls {format : Format} (accepted : format.Accepted) :
    ∃ compiled, Compiled.ofFormat format = .ok compiled ∧ ∀ shared calls,
      Call.trace (Call.ofCompiled compiled) shared calls =
        Call.trace (Call.ofFormat format) shared calls := by
  have made : Compiled.ofFormat format = .ok ⟨format, format.layout 0⟩ := by
    unfold Compiled.ofFormat
    rw [Layout.accepted_of_whole (fault_of_accepted accepted 0)]
    rfl
  exact ⟨_, made, Compiled.trace_eq made⟩

/-- An array is written in part at an odd position, then read from there and from 0, too far behind
its end, and written before its start. -/
theorem compiled_calls_partial :
    let format : Format := ⟨"@cH", Machine.default, Strictness.lenient⟩
    let shared : Shared := fun _ => .array [9, 9, 9, 9, 9, 9, 9, 9]
    let calls : List Call := [
      .packAt 0 3 (fun _ => [.text "a", .int 70000]) true,
      .unpackAt (fun shared => shared 0) true 3,
      .unpack (fun shared => shared 0) true,
      .unpackAt (fun shared => shared 0) true 7,
      .packAt 0 (-2) (fun _ => [.text "b", .int 1]) true,
      .size]
    format.Accepted ∧ ∃ compiled, Compiled.ofFormat format = .ok compiled ∧
      (Call.trace (Call.ofCompiled compiled) shared calls).map Prod.fst = [
        .written (.error (.packing 'H' 4 (.refused .value (.bits "uintle" 16 (.int 70000))))),
        .values (.ok [.text "a", .int 2313]),
        .values (.ok [.text "\t", .int 24841]),
        .values (.error (.truncated 'H' 8)),
        .written (.error (.packing 'c' (-2) (.outside 1 (-2) 8))),
        .size (.ok 4)] := by
  have answers : (Call.trace (Call.ofFormat ⟨"@cH", Machine.default, Strictness.lenient⟩)
      (fun _ => .array [9, 9, 9, 9, 9, 9, 9, 9]) [
        .packAt 0 3 (fun _ => [.text "a", .int 70000]) true,
        .unpackAt (fun shared => shared 0) true 3,
        .unpack (fun shared => shared 0) true,
        .unpackAt (fun shared => shared 0) true 7,
        .packAt 0 (-2) (fun _ => [.text "b", .int 1]) true,
        .size]).map Prod.fst = [
      .written (.error (.packing 'H' 4 (.refused .value (.bits "uintle" 16 (.int 70000))))),
      .values (.ok [.text "a", .int 2313]),
      .values (.ok [.text "\t", .int 24841]),
      .values (.error (.truncated 'H' 8)),
      .written (.error (.packing 'c' (-2) (.outside 1 (-2) 8))),
      .size (.ok 4)] := rfl
  intro format shared calls
  have accepted : format.Accepted := by decide
  obtain ⟨compiled, made, same⟩ := compiled_calls accepted
  exact ⟨accepted, compiled, made, (congrArg _ (same shared calls)).trans answers⟩

end Format
end BinaryRecord
