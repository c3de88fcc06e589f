import BinaryRecord.Proofs.Pieces
import BinaryRecord.Proofs.Refusal

/-!
The normal form of a format: no character that is ignored, and no count but those of the two text
codes. A format is laid out as its normal form is, which no check of codes refuses, and a check of
codes cuts the layout of the format itself at its first unknown character.
-/
namespace BinaryRecord

namespace Convention

theorem chosen_unprefixed {machine : Machine} {cs : List Char}
    (unprefixed : (chosen machine cs).2 = false) : chosen machine cs = (ofMachine machine, false) := by
  revert unprefixed
  unfold chosen
  split <;> simp

theorem chosen_known (machine : Machine) {cs : List Char} (known : ∀ c ∈ cs, Layout.Known c) :
    chosen machine cs = (ofMachine machine, false) := by
  apply chosen_unprefixed
  unfold chosen
  split
  case h_6 => rfl
  all_goals exact absurd (known _ List.mem_cons_self) (by decide)

end Convention

def FieldType.isText : FieldType → Bool
  | text | counted => true
  | _ => false

namespace Piece

/-- What a piece comes to: nothing where its character is ignored, itself for a text, and for any
other code as many pieces without a count. -/
def normal (piece : Piece) : List Piece :=
  match FieldType.ofLetter? piece.mark with
  | none => []
  | some code =>
    if code.isText then [piece] else List.replicate (max piece.count 1) ⟨[], piece.mark⟩

section Shapes

variable {piece : Piece} {code : FieldType}

theorem normal_ignored (ignored : FieldType.ofLetter? piece.mark = none) : piece.normal = [] := by
  rw [normal, ignored]

theorem normal_text (letter : FieldType.ofLetter? piece.mark = some code)
    (text : code.isText = true) : piece.normal = [piece] := by
  rw [normal, letter]
  exact if_pos text

theorem normal_other (letter : FieldType.ofLetter? piece.mark = some code)
    (other : code.isText = false) :
    piece.normal = List.replicate (max piece.count 1) ⟨[], piece.mark⟩ := by
  rw [normal, letter]
  exact if_neg (by simp [other])

theorem token_ignored (ignored : FieldType.ofLetter? piece.mark = none) : piece.token? = none := by
  rw [token?, ignored]
  rfl

theorem token_code (letter : FieldType.ofLetter? piece.mark = some code) :
    piece.token? = some (code, piece.count) := by
  rw [token?, letter]
  rfl

end Shapes

theorem mem_normal {piece other : Piece} (member : other ∈ piece.normal) :
    (other = piece ∨ other = ⟨[], piece.mark⟩) ∧ FieldType.ofLetter? piece.mark ≠ none := by
  cases letter : FieldType.ofLetter? piece.mark with
  | none => rw [normal_ignored letter] at member; cases member
  | some code =>
    refine ⟨?_, by simp⟩
    cases text : code.isText with
    | true =>
      rw [normal_text letter text] at member
      exact Or.inl (List.mem_singleton.mp member)
    | false =>
      rw [normal_other letter text] at member
      exact Or.inr (List.eq_of_mem_replicate member)

theorem normal_proper {piece other : Piece} (proper : piece.Proper) (member : other ∈ piece.normal) :
    other.Proper := by
  rcases (mem_normal member).1 with rfl | rfl
  · exact proper
  · exact ⟨by simp, proper.mark⟩

theorem known_of_normal {piece : Piece} (proper : piece.Proper) {c : Char}
    (member : c ∈ piece.normal.flatMap chars) : Layout.Known c := by
  obtain ⟨other, reached, within⟩ := List.mem_flatMap.mp member
  obtain ⟨same, letter⟩ := mem_normal reached
  have marks : other.mark = piece.mark := by rcases same with rfl | rfl <;> rfl
  rcases List.mem_append.mp within with digit | mark
  · exact Or.inl ((normal_proper proper reached).digits c digit)
  · rw [List.mem_singleton.mp mark, marks]
    exact Or.inr letter

end Piece

namespace Layout

variable {convention : Convention} {code : FieldType} {cursor : Int}

theorem runAt_other (other : code.isText = false) (count : Nat) :
    runAt convention code cursor count = ⟨code, convention.codec? code,
      alignUp cursor (convention.alignment code), convention.size code, max count 1⟩ := by
  cases code <;> first | rfl | cases other

theorem runAt_aligned (count : Nat) :
    runAt convention code (alignUp cursor (convention.alignment code)) count =
      runAt convention code cursor count := by
  cases code <;> simp only [runAt, alignUp_alignUp]

theorem place_replicate (other : code.isText = false) (start : Int) (n count : Nat)
    (aligned : alignUp cursor (convention.alignment code) = cursor) :
    (place convention cursor (List.replicate n (code, 0))).flatMap Run.slots =
      (Run.mk code (convention.codec? code) start (convention.size code) count).slotsFrom n
        cursor := by
  induction n generalizing cursor with
  | zero => rfl
  | succ n ih =>
    have multiple := alignment_dvd_size convention code cursor 0
    rw [runAt_other other] at multiple
    have next : alignUp (cursor + convention.size code) (convention.alignment code) =
        cursor + convention.size code := by
      rw [alignUp_add cursor (Int.natCast_dvd_natCast.mpr multiple), aligned]
    have stop : (runAt convention code cursor 0).stop = cursor + convention.size code := by
      rw [runAt_other other, aligned, Run.stop]
      simp
    simp only [List.replicate_succ, place, List.flatMap_cons]
    rw [stop, ih next, runAt_other other, aligned]
    rfl

theorem place_normal (convention : Convention) (cursor : Int) (piece : Piece) :
    (place convention cursor (piece.normal.filterMap Piece.token?)).flatMap Run.slots =
      (place convention cursor piece.token?.toList).flatMap Run.slots := by
  cases letter : FieldType.ofLetter? piece.mark with
  | none => rw [Piece.normal_ignored letter, Piece.token_ignored letter, List.filterMap_nil,
      Option.toList_none]
  | some code =>
    rw [Piece.token_code letter, Option.toList_some]
    cases other : code.isText with
    | true =>
      rw [Piece.normal_text letter other, List.filterMap_cons_some (Piece.token_code letter),
        List.filterMap_nil]
    | false =>
      obtain ⟨n, positive⟩ : ∃ n, max piece.count 1 = n + 1 :=
        Nat.exists_eq_add_of_le' (Nat.le_max_right _ 1)
      have single : Piece.token? ⟨[], piece.mark⟩ = some (code, 0) := Piece.token_code letter
      have start : place convention cursor (List.replicate (n + 1) (code, 0)) =
          place convention (alignUp cursor (convention.alignment code))
            (List.replicate (n + 1) (code, 0)) := by
        simp only [List.replicate_succ, place, runAt_aligned]
      rw [Piece.normal_other letter other, List.filterMap_replicate_of_some single, positive, start,
        place_replicate other _ _ (n + 1) (alignUp_alignUp cursor _)]
      simp only [place, List.flatMap_singleton, runAt_other other, positive]
      rfl

theorem place_normal_pieces (convention : Convention) (cursor : Int) (pieces : List Piece) :
    (place convention cursor ((pieces.flatMap Piece.normal).filterMap Piece.token?)).flatMap
        Run.slots =
      (place convention cursor (pieces.filterMap Piece.token?)).flatMap Run.slots := by
  induction pieces generalizing cursor with
  | nil => rfl
  | cons piece pieces ih =>
    have one := place_normal convention cursor piece
    have tokens : (piece :: pieces).filterMap Piece.token? =
        piece.token?.toList ++ pieces.filterMap Piece.token? := by
      rw [List.filterMap_cons]
      cases piece.token? <;> rfl
    rw [tokens, List.flatMap_cons, List.filterMap_append, place_append, place_append,
      List.flatMap_append, List.flatMap_append, one, ih]

end Layout

namespace Format

def normal (format : Format) : Format :=
  { format with text := String.ofList (format.text.toList.take format.prefixLength ++
      (format.pieces.flatMap Piece.normal).flatMap Piece.chars) }

def withCodes (format : Format) (codes : Bool) : Format :=
  { format with strictness := { format.strictness with codes } }

theorem piece_proper {format : Format} {piece : Piece} (member : piece ∈ format.pieces) :
    piece.Proper :=
  Piece.split_proper (List.forall_mem_nil _) format.body piece member

theorem normal_known {format : Format} {c : Char}
    (member : c ∈ (format.pieces.flatMap Piece.normal).flatMap Piece.chars) : Layout.Known c := by
  rw [List.flatMap_assoc] at member
  obtain ⟨piece, reached, within⟩ := List.mem_flatMap.mp member
  exact Piece.known_of_normal (piece_proper reached) within

theorem convention_normal (format : Format) : format.normal.convention = format.convention := by
  have known := Convention.chosen_known format.machine fun c => format.normal_known (c := c)
  unfold convention normal
  rw [String.toList_ofList]
  by_cases skip : format.convention.2 = true
  · rw [prefixLength, if_pos skip]
    unfold convention at skip
    cases text : format.text.toList with
    | nil => rw [text] at skip; cases skip
    | cons c cs => exact Convention.chosen_head format.machine c _ cs
  · rw [prefixLength, if_neg skip, List.take_zero, List.nil_append, known]
    exact (Convention.chosen_unprefixed (Bool.eq_false_of_not_eq_true skip)).symm

theorem prefixLength_le (format : Format) : format.prefixLength ≤ format.text.toList.length := by
  unfold prefixLength convention
  cases format.text.toList with
  | nil => exact Nat.le_refl 0
  | cons c cs =>
    rw [List.length_cons]
    split <;> omega

theorem body_normal (format : Format) :
    format.normal.body = (format.pieces.flatMap Piece.normal).flatMap Piece.chars := by
  have length := List.length_take_of_le format.prefixLength_le
  unfold body
  rw [convention_normal]
  unfold normal
  rw [String.toList_ofList]
  exact List.drop_left' length

theorem pieces_normal (format : Format) :
    format.normal.pieces = format.pieces.flatMap Piece.normal := by
  have proper : ∀ piece ∈ format.pieces.flatMap Piece.normal, piece.Proper := by
    intro piece member
    obtain ⟨other, reached, within⟩ := List.mem_flatMap.mp member
    exact Piece.normal_proper (piece_proper reached) within
  have cut := Piece.split_flatMap proper [] (List.forall_mem_nil _)
  rw [List.append_nil] at cut
  rw [pieces, body_normal, cut]

theorem accepted_normal (format : Format) : format.normal.Accepted := by
  intro _ c member
  rw [body_normal] at member
  exact format.normal_known member

theorem accepted_lenient (format : Format) : (format.withCodes false).Accepted :=
  accepted_of_lenient rfl

theorem layout_withCodes (format : Format) (known : ∀ c ∈ format.body, Layout.Known c)
    (start : Int) : (format.withCodes true).layout start = (format.withCodes false).layout start := by
  have accepted : (format.withCodes true).Accepted := fun _ => known
  rw [layout_pieces accepted, layout_pieces format.accepted_lenient]
  rfl

/-- Unchecked, a format is laid out as its normal form is under a check of codes, and neither fails.
Checked, it fails if and only if a character is unknown, at the first one and after the layout of the
part before it. -/
theorem layout_normal (format : Format) (start : Int) :
    (((format.withCodes false).layout start).fault? = none ∧
      ((format.withCodes true).normal.layout start).fault? = none ∧
      ((format.withCodes true).normal.layout start).slots =
        ((format.withCodes false).layout start).slots) ∧
    ((∃ fault, ((format.withCodes true).layout start).fault? = some fault) ↔
      ∃ c ∈ format.body, ¬ Layout.Known c) ∧
    ∀ c index, format.FirstUnknown c index →
      ((format.withCodes true).layout start).fault? = some (.unknownCode c index) ∧
      ((format.withCodes true).layout start).slots =
        (((format.withCodes false).upTo index).layout start).slots := by
  have cut : ∀ c index, format.FirstUnknown c index →
      ((format.withCodes true).layout start).fault? = some (.unknownCode c index) ∧
      ((format.withCodes true).layout start).slots =
        (((format.withCodes false).upTo index).layout start).slots := by
    intro c index first
    have strict : (format.withCodes true).FirstUnknown c index :=
      ⟨first.afterPrefix, first.here, first.unknown, first.known⟩
    have part := layout_withCodes (format.upTo index) first.known start
    refine ⟨fault_refused rfl strict start, ?_⟩
    rw [layout_refused rfl strict]
    exact congrArg (fun layout => layout.runs.flatMap Run.slots) part
  refine ⟨⟨?_, ?_, ?_⟩, ?_, cut⟩
  · exact fault_of_accepted format.accepted_lenient start
  · exact fault_of_accepted (format.withCodes true).accepted_normal start
  · rw [layout_pieces (format.withCodes true).accepted_normal, layout_pieces format.accepted_lenient,
      pieces_normal, convention_normal]
    exact Layout.place_normal_pieces _ start format.pieces
  · constructor
    · rintro ⟨fault, failed⟩
      by_contra none
      have known : (format.withCodes true).Accepted := by
        intro _ c member
        by_contra unknown
        exact none ⟨c, member, unknown⟩
      rw [fault_of_accepted known] at failed
      cases failed
    · intro unknown
      obtain ⟨c, index, first⟩ := exists_firstUnknown unknown
      exact ⟨_, (cut c index first).1⟩

/-- The space takes its count along, and the last count has no code. -/
theorem layout_normal_spaced :
    let format : Format := ⟨"@b02h5 3s7", Machine.default, Strictness.lenient⟩
    format.normal.text = "@bhh3s" ∧ format.FirstUnknown ' ' 6 ∧
      ((format.withCodes true).layout 1).fault? = some (.unknownCode ' ' 6) ∧
      ((format.withCodes true).normal.layout 1).slots =
        ((format.withCodes false).layout 1).slots := by
  intro format
  have first : format.FirstUnknown ' ' 6 := by decide
  obtain ⟨⟨_, _, same⟩, _, cut⟩ := layout_normal format 1
  exact ⟨by decide, first, (cut ' ' 6 first).1, same⟩

end Format
end BinaryRecord
