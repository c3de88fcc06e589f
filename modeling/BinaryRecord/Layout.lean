import BinaryRecord.FieldType

/-!
The walk over a format: where its fields lie when the first one may start at a given position.
Counts and positions are unbounded, and the occurrences of one count are kept together as a run,
so a walk is as long as its format, whatever the counts.
-/
namespace BinaryRecord

/-- The least multiple of the alignment that is not below the position; no alignment below 2 moves it. -/
def alignUp (position alignment : Int) : Int :=
  if 1 < alignment then -(Int.fdiv (-position) alignment) * alignment else position

structure Slot where
  code : FieldType
  /-- None for padding. -/
  codec? : Option Codec
  offset : Int
  size : Nat
  deriving DecidableEq

namespace Slot

def stop (slot : Slot) : Int := slot.offset + slot.size

def isPadding (slot : Slot) : Bool := slot.codec?.isNone

def shift (slot : Slot) (distance : Int) : Slot := { slot with offset := slot.offset + distance }

end Slot

structure Run where
  code : FieldType
  codec? : Option Codec
  start : Int
  size : Nat
  count : Nat
  deriving DecidableEq

namespace Run

def slotAt (run : Run) (position : Int) : Slot := ⟨run.code, run.codec?, position, run.size⟩

def stop (run : Run) : Int := run.start + run.count * run.size

def slotsFrom (run : Run) : Nat → Int → List Slot
  | 0, _ => []
  | n + 1, position => run.slotAt position :: slotsFrom run n (position + run.size)

def slots (run : Run) : List Slot := run.slotsFrom run.count run.start

/-- A fold over `n` occurrences that does not list them first. -/
def foldSlotsFrom [Monad m] (run : Run) (step : α → Slot → m α) : Nat → Int → α → m α
  | 0, _, a => pure a
  | n + 1, position, a => do
    let a ← step a (run.slotAt position)
    foldSlotsFrom run step n (position + run.size) a

def foldSlots [Monad m] (step : α → Slot → m α) (a : α) (run : Run) : m α :=
  run.foldSlotsFrom step run.count run.start a

theorem foldSlotsFrom_eq [Monad m] (run : Run) (step : α → Slot → m α) (n : Nat) (position : Int)
    (a : α) : run.foldSlotsFrom step n position a = (run.slotsFrom n position).foldlM step a := by
  induction n generalizing position a with
  | zero => rfl
  | succ n ih => simp [foldSlotsFrom, slotsFrom, ih]

theorem foldSlots_eq [Monad m] (step : α → Slot → m α) (a : α) (run : Run) :
    run.foldSlots step a = run.slots.foldlM step a :=
  run.foldSlotsFrom_eq step run.count run.start a

end Run

/-- The runs that a walk reaches, and the fault that ends it before the end of the format. -/
structure Layout where
  runs : List Run
  fault? : Option Fault

namespace Layout

def slots (layout : Layout) : List Slot := layout.runs.flatMap Run.slots

def size (layout : Layout) : Int := ((layout.runs.getLast?).map Run.stop).getD 0

/-- A fold over all occurrences, which fails as the walk does once it has come to its end. -/
def foldSlots [Monad m] [MonadExcept Fault m] (layout : Layout) (step : α → Slot → m α) (a : α) :
    m α := do
  let a ← layout.runs.foldlM (Run.foldSlots step) a
  match layout.fault? with
  | some fault => throw fault
  | none => pure a

theorem foldSlots_eq [Monad m] [LawfulMonad m] [MonadExcept Fault m] (layout : Layout)
    (step : α → Slot → m α) (a : α) :
    layout.foldSlots step a = (do
      let a ← layout.slots.foldlM step a
      match layout.fault? with
      | some fault => throw fault
      | none => pure a) := by
  have runs : layout.runs.foldlM (Run.foldSlots step) a = layout.slots.foldlM step a := by
    unfold slots
    induction layout.runs generalizing a with
    | nil => rfl
    | cons run runs ih => simp [List.foldlM_cons, List.foldlM_append, Run.foldSlots_eq, ih]
  rw [foldSlots, runs]

def accepted (layout : Layout) : Except Fault Layout :=
  match layout.fault? with
  | some fault => .error fault
  | none => .ok layout

/-- The run of a code at a cursor under a count, 0 where none is written. A count is the size of a
text field, and the number of occurrences of any other. -/
def runAt (convention : Convention) (code : FieldType) (cursor : Int) (count : Nat) : Run :=
  let start := alignUp cursor (convention.alignment code)
  let codec? := convention.codec? code
  match code with
  | .text => ⟨code, codec?, start, count, 1⟩
  | .counted => ⟨code, codec?, start, max count 1, 1⟩
  | _ => ⟨code, codec?, start, convention.size code, max count 1⟩

/-- Walks the characters from `index` on. Digits add to the count of the code that follows; a
character that is neither digit nor code drops the count, or ends the walk where codes are checked. -/
def walk (convention : Convention) (strictness : Strictness) (index count : Nat) (cursor : Int) :
    List Char → Layout
  | [] => ⟨[], none⟩
  | c :: cs =>
    if c.isDigit then
      walk convention strictness (index + 1) (count * 10 + (c.toNat - 48)) cursor cs
    else match FieldType.ofLetter? c with
      | none =>
        if strictness.codes then ⟨[], some (.unknownCode c index)⟩
        else walk convention strictness (index + 1) 0 cursor cs
      | some code =>
        let run := runAt convention code cursor count
        let rest := walk convention strictness (index + 1) 0 run.stop cs
        ⟨run :: rest.runs, rest.fault?⟩

end Layout

structure Format where
  text : String
  machine : Machine
  strictness : Strictness
  deriving DecidableEq

namespace Format

def convention (format : Format) : Convention × Bool :=
  Convention.chosen format.machine format.text.toList

def layout (format : Format) (start : Int) : Layout :=
  let (convention, skip) := format.convention
  let index := if skip then 1 else 0
  Layout.walk convention format.strictness index 0 start (format.text.toList.drop index)

def size (format : Format) : Except Fault Int := do
  let layout ← (format.layout 0).accepted
  return layout.size

def entries (format : Format) : Except Fault (List (Char × Int × Nat)) := do
  let layout ← (format.layout 0).accepted
  return layout.slots.map fun slot => (slot.code.letter, slot.offset, slot.size)

end Format
end BinaryRecord
