import BinaryRecord.Proofs.Decoding
import BinaryRecord.Proofs.Filling
import BinaryRecord.Proofs.Pieces

/-!
Native formats with their padding written out. A gap that alignment leaves before a code is the same
as that many explicit bytes of padding in a standard format of the same byte order, so both formats
pack and unpack alike.
-/
namespace BinaryRecord

namespace Piece

def padding (gap : Nat) : List Piece := if gap = 0 then [] else [⟨Nat.toDigits 10 gap, 'x'⟩]

theorem padding_proper {gap : Nat} {piece : Piece} (member : piece ∈ padding gap) :
    piece.Proper := by
  unfold padding at member
  split at member
  · cases member
  · rw [List.mem_singleton.mp member]
    constructor
    · intro d digit
      exact Nat.isDigit_of_mem_toDigits (by omega) (by omega) digit
    · rfl

theorem tokens_padding (gap : Nat) :
    (padding gap).filterMap token? = if gap = 0 then [] else [(.padding, gap)] := by
  have count : count ⟨Nat.toDigits 10 gap, 'x'⟩ = gap :=
    Nat.ofDigitChars_toDigits (by omega) (by omega)
  have token : token? ⟨Nat.toDigits 10 gap, 'x'⟩ = some (.padding, gap) := by
    change some (FieldType.padding, Piece.count _) = _
    rw [count]
  unfold padding
  split
  · rfl
  · rw [List.filterMap_cons_some token, List.filterMap_nil]

/-- The pieces with the gaps of a native layout, from a cursor on, written before them. -/
def padded (machine : Machine) : Int → List Piece → List Piece
  | _, [] => []
  | cursor, piece :: pieces =>
    match piece.token? with
    | none => piece :: padded machine cursor pieces
    | some (code, count) =>
      let run := Layout.runAt (.ofMachine machine) code cursor count
      padding (run.start - cursor).toNat ++ piece :: padded machine run.stop pieces

theorem padded_proper {pieces : List Piece} (proper : ∀ piece ∈ pieces, piece.Proper)
    (machine : Machine) (cursor : Int) : ∀ piece ∈ padded machine cursor pieces, piece.Proper := by
  induction pieces generalizing cursor with
  | nil => simp [padded]
  | cons first pieces ih =>
    have rest := ih fun piece member => proper piece (List.mem_cons_of_mem first member)
    intro piece member
    rw [padded] at member
    split at member
    · rcases List.mem_cons.mp member with rfl | later
      · exact proper piece List.mem_cons_self
      · exact rest cursor piece later
    · rcases List.mem_append.mp member with inserted | kept
      · exact padding_proper inserted
      · rcases List.mem_cons.mp kept with rfl | later
        · exact proper piece List.mem_cons_self
        · exact rest _ piece later

end Piece

namespace Layout

/-- Occurrences with the same fields, which end at the same place. -/
structure Alike (cursor : Int) (first second : List Slot) : Prop where
  fields : (first.filter fun slot => !slot.isPadding) = second.filter fun slot => !slot.isPadding
  finish : finish cursor first = finish cursor second

section Padding

variable {machine : Machine} {cursor : Int}

theorem runAt_native (machine : Machine) (code : FieldType) (cursor : Int) (count : Nat) :
    runAt (.standard machine.order machine) code
        (runAt (.ofMachine machine) code cursor count).start count =
      runAt (.ofMachine machine) code cursor count := by
  have unmoved := alignUp_of_small (runAt (.ofMachine machine) code cursor count).start
    (Nat.le_refl 1)
  rw [runAt_start] at unmoved ⊢
  cases code <;> simp only [runAt] <;> congr 1

theorem runAt_padding (order : ByteOrder) (gap : Nat) :
    runAt (.standard order machine) .padding cursor gap = ⟨.padding, none, cursor, 1, max gap 1⟩ :=
  congrArg (Run.mk .padding none · 1 (max gap 1)) (alignUp_of_small cursor (Nat.le_refl 1))

theorem place_padding (order : ByteOrder) (machine : Machine) (cursor : Int) (gap : Nat) :
    ((place (.standard order machine) cursor
      ((Piece.padding gap).filterMap Piece.token?)).flatMap Run.slots).filter
        (fun slot => !slot.isPadding) = [] ∧
    finish cursor ((place (.standard order machine) cursor
      ((Piece.padding gap).filterMap Piece.token?)).flatMap Run.slots) = cursor + gap := by
  rw [Piece.tokens_padding]
  split
  · rename_i none
    rw [none]
    exact ⟨rfl, (Int.add_zero cursor).symm⟩
  · have positive : max gap 1 = gap := by omega
    simp only [place, List.flatMap_singleton, runAt_padding, positive]
    constructor
    · rw [List.filter_eq_nil_iff]
      intro slot member
      obtain ⟨k, rfl⟩ := Run.mem_slotsFrom member
      simp [Run.slotAt, Slot.isPadding]
    · rw [Run.slots, Run.finish_slotsFrom]
      simp

end Padding

theorem place_padded (machine : Machine) (cursor : Int) (pieces : List Piece) :
    Alike cursor ((place (.standard machine.order machine) cursor
        ((Piece.padded machine cursor pieces).filterMap Piece.token?)).flatMap Run.slots)
      ((place (.ofMachine machine) cursor (pieces.filterMap Piece.token?)).flatMap Run.slots) := by
  induction pieces generalizing cursor with
  | nil => exact ⟨rfl, rfl⟩
  | cons piece pieces ih =>
    rw [Piece.padded]
    cases token : piece.token? with
    | none =>
      dsimp only
      rw [List.filterMap_cons_none token, List.filterMap_cons_none token]
      exact ih cursor
    | some pair =>
      obtain ⟨code, count⟩ := pair
      have positive := runAt_count (.ofMachine machine) code cursor count
      have same := runAt_native machine code cursor count
      have after : cursor ≤ (runAt (.ofMachine machine) code cursor count).start := by
        rw [runAt_start]
        exact le_alignUp cursor _
      obtain ⟨fieldless, reached⟩ := place_padding machine.order machine cursor
        ((runAt (.ofMachine machine) code cursor count).start - cursor).toNat
      have rest := ih (runAt (.ofMachine machine) code cursor count).stop
      have start : cursor +
          (((runAt (.ofMachine machine) code cursor count).start - cursor).toNat : Int) =
          (runAt (.ofMachine machine) code cursor count).start := by
        omega
      dsimp only
      rw [List.filterMap_append, List.filterMap_cons_some token, List.filterMap_cons_some token,
        place_append, reached, start]
      simp only [place, same, List.flatMap_append, List.flatMap_cons]
      constructor
      · rw [List.filter_append, List.filter_append, List.filter_append, fieldless, rest.fields,
          List.nil_append]
      · rw [finish_append, finish_append, finish_append, Run.finish_slots _ positive,
          Run.finish_slots _ positive, rest.finish]

end Layout

namespace Format

/-- The characters of a format after `@`, with the gaps of their layout written out. -/
def explicit (machine : Machine) (body : String) : String :=
  String.ofList ((Piece.padded machine 0 (Piece.split [] body.toList)).flatMap Piece.chars ++
    Piece.trailing [] body.toList)

section Spellings

variable (machine : Machine) (strictness : Strictness) (body : String)

theorem native_convention : (Format.mk ("@" ++ body) machine strictness).convention =
    (.ofMachine machine, true) := by
  unfold convention
  rw [String.toList_append]
  rfl

theorem native_pieces : (Format.mk ("@" ++ body) machine strictness).pieces =
    Piece.split [] body.toList := by
  unfold pieces Format.body
  rw [native_convention, String.toList_append]
  rfl

theorem standard_convention : (Format.mk ("=" ++ body) machine strictness).convention =
    (.standard machine.order machine, true) := by
  unfold convention
  rw [String.toList_append]
  rfl

theorem standard_pieces : (Format.mk ("=" ++ body) machine strictness).pieces =
    Piece.split [] body.toList := by
  unfold pieces Format.body
  rw [standard_convention, String.toList_append]
  rfl

end Spellings

theorem split_explicit (machine : Machine) (body : String) :
    Piece.split [] (explicit machine body).toList =
      Piece.padded machine 0 (Piece.split [] body.toList) := by
  have none := List.forall_mem_nil fun d : Char => d.isDigit = true
  have proper := Piece.padded_proper (Piece.split_proper none body.toList) machine 0
  rw [explicit, String.toList_ofList,
    Piece.split_flatMap proper _ (Piece.trailing_digits none body.toList)]

theorem slots_alike (machine : Machine) {strictness : Strictness}
    (lenient : strictness.codes = false) (body : String) :
    Layout.Alike 0 ((Format.mk ("=" ++ explicit machine body) machine strictness).layout 0).slots
      ((Format.mk ("@" ++ body) machine strictness).layout 0).slots := by
  have written : (Format.mk ("=" ++ explicit machine body) machine strictness).Accepted :=
    accepted_of_lenient lenient
  have aligned : (Format.mk ("@" ++ body) machine strictness).Accepted :=
    accepted_of_lenient lenient
  rw [layout_pieces written, layout_pieces aligned, standard_convention, standard_pieces,
    split_explicit, native_convention, native_pieces]
  exact Layout.place_padded machine 0 _

section Agreement

variable {first second : Format}

theorem pack_alike (one : (first.layout 0).fault? = none) (two : (second.layout 0).fault? = none)
    (same : first.strictness = second.strictness)
    (alike : Layout.Alike 0 (first.layout 0).slots (second.layout 0).slots) :
    first.size = second.size ∧
    (∀ arguments checked, first.pack arguments checked = second.pack arguments checked) ∧
    ∀ data checked, first.unpack data checked = second.unpack data checked := by
  have sizes : (first.layout 0).size = (second.layout 0).size := by
    rw [size_eq_finish, size_eq_finish, alike.finish]
  refine ⟨?_, ?_, ?_⟩
  · rw [size_whole one, size_whole two, sizes]
  · intro arguments checked
    rw [pack_whole one, pack_whole two, Layout.packNew, Layout.packNew, sizes, same,
      Layout.pack_congr alike.fields (one.trans two.symm)]
  · intro data checked
    unfold unpack unpackAt unpackBytes
    rw [same]
    congr 1
    funext bs
    exact Layout.unpack_congr alike.fields (one.trans two.symm) checked _ bs

end Agreement

/-- A native format is the standard one with its padding written out: the same size, the same fields
in the same places, and the same results of packing and of unpacking. -/
theorem native_explicit (machine : Machine) (body : String) (counts : Bool) :
    let native : Format := ⟨"@" ++ body, machine, ⟨false, counts⟩⟩
    let standard : Format := ⟨"=" ++ explicit machine body, machine, ⟨false, counts⟩⟩
    (∃ size, native.size = .ok size ∧ standard.size = .ok size) ∧
    (native.layout 0).fields = (standard.layout 0).fields ∧
    (∀ arguments checked, native.pack arguments checked = standard.pack arguments checked) ∧
    ∀ data checked, native.unpack data checked = standard.unpack data checked := by
  intro native standard
  have one : (native.layout 0).fault? = none := fault_of_accepted (accepted_of_lenient rfl) 0
  have two : (standard.layout 0).fault? = none := fault_of_accepted (accepted_of_lenient rfl) 0
  have alike : Layout.Alike 0 (standard.layout 0).slots (native.layout 0).slots :=
    slots_alike machine rfl body
  obtain ⟨sizes, packed, unpacked⟩ := pack_alike two one rfl alike
  refine ⟨⟨_, size_whole one, sizes.trans (size_whole one)⟩, alike.fields.symm, ?_, ?_⟩
  · intro arguments checked
    exact (packed arguments checked).symm
  · intro data checked
    exact (unpacked data checked).symm

example : explicit Machine.default "bh-3q7" = "b1xh-4x3q7" := by decide

end Format
end BinaryRecord
