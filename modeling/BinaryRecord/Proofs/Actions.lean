import BinaryRecord.Proofs.Decoding
import BinaryRecord.Proofs.Encoding

/-!
Sequences of actions on one storage. Whatever they are, and whether they fail or not, the storage
keeps its length, and each action changes no byte out of its place. Only a view of items wider than a
byte is no value to write as bytes: its items are counted, and its bytes are taken.
-/
namespace BinaryRecord

open Storage Bytes

/-- The length of a value counts the bytes that are taken of it. -/
def Value.CountsBytes : Value → Prop
  | view w => w.length = w.bytes.length
  | _ => True

theorem Value.CountsBytes.resolve {v : Value} (counts : v.CountsBytes) (now : Bytes) :
    (v.resolve now).CountsBytes := by
  cases v with
  | view w => exact counts
  | _ => trivial

theorem View.length_pieces (w : View) : w.pieces.length = w.length := by
  rw [pieces, List.length_map, List.length_range]

theorem Storage.writeValue_view {w : View} (counts : w.length = w.bytes.length) (offset : Int) :
    writeValue offset (.view w) = write offset w.bytes := by
  funext bs
  change (check offset w.length >>= fun _ => modify _) bs = _
  rw [counts]
  by_cases inside : Inside bs offset w.bytes.length
  · rw [Edit.bind_ok _ (check_inside inside), write, if_pos inside]
    rfl
  · rw [Edit.bind_error _ (check_outside inside), write, if_neg inside]

/-- A field as the codec of its code is given it. Padding has no codec, and the text codes need a
length that is not negative; other codes take any length or none. -/
structure CodedField where
  convention : Convention
  code : FieldType
  offset : Int
  length? : Option Int
  coded : code ≠ .padding
  sized : code = .text ∨ code = .counted → ∃ length : Nat, length? = some (length : Int)

namespace CodedField

def size (field : CodedField) : Nat :=
  match field.code with
  | .text | .counted => (field.length?.getD 0).toNat
  | code => field.convention.size code

theorem size_given {field : CodedField} {length : Nat}
    (text : field.code = .text ∨ field.code = .counted)
    (given : field.length? = some (length : Int)) : field.size = length := by
  rcases text with text | text <;> rw [size, text, given] <;> rfl

theorem size_fixed (field : CodedField) (plain : field.code ≠ .text)
    (uncounted : field.code ≠ .counted) : field.size = field.convention.size field.code := by
  unfold size
  split
  · rename_i text
    exact absurd text plain
  · rename_i counted
    exact absurd counted uncounted
  · rfl

def codec? (field : CodedField) : Option Codec := field.convention.codec? field.code

end CodedField

/-- An action on a storage. In values to be written the array of the storage is the target. -/
inductive Action where
  | read (number : Number) (order : ByteOrder) (offset : Int)
  | write (number : Number) (order : ByteOrder) (offset : Int) (v : Value)
  | readBytes (offset size : Int)
  | writeBytes (offset : Int) (v : Value)
  | fill (offset stop value : Int)
  | find (value start stop : Int)
  | get (position : Int)
  | readText (offset : Int) (length : Nat)
  | writeText (v : Value) (offset : Int) (length : Nat)
  | readCounted (strict : Bool) (offset : Int) (length : Nat)
  | writeCounted (strict : Bool) (v : Value) (offset : Int) (length : Nat)
  | readField (field : CodedField) (strictness : Strictness)
  | writeField (field : CodedField) (strictness : Strictness) (v : Value)

namespace Action

def edit (edit : Edit Unit) (now : Bytes) : Except Fault Value × Bytes :=
  match edit now with
  | .ok _ after => (.ok .none, after)
  | .error fault after => (.error fault, after)

def answer (now : Bytes) : Action → Except Fault Value × Bytes
  | read number order offset => (number.read order now offset, now)
  | write number order offset v => edit (number.write order offset (v.resolve now)) now
  | readBytes offset size => (.ok (.bytes (readSlice now offset size)), now)
  | writeBytes offset v => edit (writeValue offset (v.resolve now)) now
  | fill offset stop value => edit (Storage.fill offset stop value) now
  | find value start stop =>
    ((Storage.find now value start stop).map fun place => .int ((place.map Int.ofNat).getD (-1)),
      now)
  | get position => ((Storage.get now position).map fun b => .int b.toNat, now)
  | readText offset length => (.ok (.text (PlainText.read now offset length)), now)
  | writeText v offset length => edit (PlainText.write (v.resolve now) offset length) now
  | readCounted strict offset length =>
    ((CountedText.read strict now offset length).map Value.text, now)
  | writeCounted strict v offset length =>
    edit (CountedText.write strict (v.resolve now) offset length) now
  | readField field strictness =>
    (Codec.readGiven field.codec? strictness now field.offset field.length?, now)
  | writeField field strictness v =>
    edit (Codec.writeGiven field.codec? strictness v field.offset field.length?) now

/-- The offset and the size of the range that an action may change. A fill that stops before it
starts has none. -/
def range? (now : Bytes) : Action → Option (Int × Nat)
  | write number _ offset _ => some (offset, number.width)
  | writeBytes offset v => some (offset, (v.resolve now).parts?.elim 0 List.length)
  | fill offset stop _ => if offset < stop then some (offset, (stop - offset).toNat) else none
  | writeText _ offset length | writeCounted _ _ offset length => some (offset, length)
  | writeField field _ _ => some (field.offset, field.size)
  | _ => none

def CountsBytes : Action → Prop
  | writeBytes _ v => v.CountsBytes
  | _ => True

def Covers (action : Action) (now : Bytes) (i : Nat) : Prop :=
  ∃ range ∈ action.range? now, range.1 ≤ i ∧ i < range.1 + range.2

def run (start : Bytes) (actions : List Action) : Bytes :=
  actions.foldl (fun now action => (action.answer now).2) start

end Action

/-- An edit that reaches the window `[offset, offset + size)` at most, and succeeds only where the
window is inside. If it is a single step it changes nothing where it fails. -/
structure Confined (edit : Edit Unit) (offset : Int) (size : Nat) (single : Prop) (now : Bytes) :
    Prop where
  change : SameExcept (fun i => offset ≤ i ∧ i < offset + size) now (Action.edit edit now).2
  inside : ∀ v, (Action.edit edit now).1 = .ok v → Inside now offset size
  refused : ∀ fault, (Action.edit edit now).1 = .error fault → single →
    (Action.edit edit now).2 = now

namespace Confined

variable {now : Bytes} {offset stop : Int} {size : Nat} {single : Prop} {edit : Edit Unit}
  {α : Type}

theorem of_refused {fault : Fault} (refused : edit now = .error fault now) :
    Confined edit offset size single now := by
  have answer : Action.edit edit now = (.error fault, now) := by
    rw [Action.edit, refused]
  constructor <;> rw [answer]
  · exact SameExcept.refl _ now
  · intro v done
    cases done
  · intro _ _ _
    rfl

theorem of_edits {encoded : Except Fault Bytes}
    (edits : EditsField edit encoded offset size single now)
    (length : ∀ raw, encoded = .ok raw → raw.length = size) :
    Confined edit offset size single now := by
  by_cases writable : (∃ raw, encoded = .ok raw) ∧ Inside now offset size
  · obtain ⟨⟨raw, same⟩, inside⟩ := writable
    have answer : Action.edit edit now = (.ok .none, now.overlay offset.toNat raw) := by
      rw [Action.edit, edits.written raw same inside]
    constructor <;> rw [answer]
    · have fits := inside.fits
      rw [← length raw same] at fits
      refine (SameExcept.overlay now offset.toNat raw fits).mono ?_
      rw [length raw same]
      intro i touched
      have start := inside.1
      omega
    · intro _ _
      exact inside
    · intro fault failed
      cases failed
  · obtain ⟨fault, after, failed, _, change, kept⟩ := edits.fails writable
    have answer : Action.edit edit now = (.error fault, after) := by
      rw [Action.edit, failed]
    constructor <;> rw [answer]
    · exact change
    · intro v done
      cases done
    · intro _ _
      exact kept

theorem of_write (offset : Int) (new now : Bytes) :
    Confined (Storage.write offset new) offset new.length True now := by
  apply of_edits (EditsField.of_write offset new now)
  intro raw same
  cases same
  rfl

theorem congr {same : Edit Unit} (known : Confined same offset size single now)
    (run : edit now = same now) : Confined edit offset size single now := by
  have answer : Action.edit edit now = Action.edit same now := by
    rw [Action.edit, Action.edit, run]
  exact ⟨answer ▸ known.change, answer ▸ known.inside, answer ▸ known.refused⟩

theorem of_check {rest : Edit Unit} (known : Confined rest offset size single now) :
    Confined (check offset size >>= fun _ => rest) offset size single now := by
  by_cases inside : Inside now offset size
  · exact known.congr (Edit.bind_ok _ (check_inside inside))
  · exact of_refused (Edit.bind_error _ (check_outside inside))

theorem of_except {x : Except Fault α} {rest : α → Edit Unit}
    (known : ∀ a, x = .ok a → Confined (rest a) offset size single now) :
    Confined ((MonadExcept.ofExcept x : Edit α) >>= rest) offset size single now := by
  cases result : x with
  | error fault => exact of_refused (Edit.bind_error _ Edit.ofExcept_error)
  | ok a => exact (known a result).congr (Edit.bind_ok _ Edit.ofExcept_ok)

theorem writeValue (offset : Int) {v : Value} (counts : v.CountsBytes) (now : Bytes) :
    Confined (Storage.writeValue offset v) offset (v.parts?.elim 0 List.length) True now := by
  have members : ∀ vs : List Value, Confined (check offset vs.length >>= fun _ =>
      MonadExcept.ofExcept (vs.mapM byteOf) >>= Storage.write offset) offset vs.length True
        now := by
    intro vs
    refine of_check (of_except ?_)
    intro new stored
    have size : new.length = vs.length := (mapM_ok.mp stored).length_eq.symm
    rw [← size]
    exact of_write offset new now
  have bytes : ∀ new : Bytes, Confined (Storage.write offset new) offset
      (new.map fun b => Value.int b.toNat).length True now := by
    intro new
    rw [List.length_map]
    exact of_write offset new now
  cases v with
  | bytes new => exact bytes new
  | array new => exact bytes new
  | view w =>
    change Confined _ offset (Value.viewItems w).length True now
    rw [writeValue_view counts, Value.viewItems, List.length_map, w.length_pieces, counts]
    exact of_write offset w.bytes now
  | storage new => exact bytes new
  | list vs => exact members vs
  | tuple vs => exact members vs
  | dict entries =>
    have keys := members (entries.map Prod.fst)
    rw [List.mapM_map, List.length_map] at keys
    change Confined _ offset (entries.map Prod.fst).length True now
    rw [List.length_map]
    exact keys
  | text s =>
    change Confined _ offset (s.toList.map _).length True now
    rw [List.length_map]
    exact of_check (of_refused rfl)
  | _ => exact of_refused rfl

theorem fill (less : offset < stop) (value : Int) (now : Bytes) :
    Confined (Storage.fill offset stop value) offset (stop - offset).toNat True now := by
  unfold Storage.fill
  rw [if_pos less]
  refine of_check (of_except ?_)
  intro b _
  have copies := of_write offset (List.replicate (stop - offset).toNat b) now
  rw [List.length_replicate] at copies
  exact copies

theorem writeText (v : Value) (offset : Int) (length : Nat) (now : Bytes) :
    Confined (PlainText.write v offset length) offset length False now := by
  apply of_edits (PlainText.write_edits v offset length now)
  intro raw encoded
  obtain ⟨text, _, rfl⟩ := ok_of_map encoded
  exact PlainText.length_encode text length

theorem writeCounted (strict : Bool) (v : Value) (offset : Int) (length : Nat) (now : Bytes) :
    Confined (CountedText.write strict v offset length) offset length False now := by
  by_cases positive : 1 ≤ length
  · apply of_edits (CountedText.write_edits strict v offset positive now)
    intro raw encoded
    obtain ⟨text, _, fitted⟩ := ok_of_bind encoded
    exact CountedText.length_encode positive fitted
  · -- The field has no room for its count, which comes out as -1 and is no byte.
    have none : length = 0 := by omega
    subst none
    refine of_except ?_
    intro raw _
    have capacity : CountedText.capacity raw.length 0 = -1 := by
      unfold CountedText.capacity CountedText.greatestCount
      omega
    have count : byte (-1) = .error (.refused .value (.byte (-1))) := rfl
    dsimp only
    rw [Int.natCast_zero, capacity, count]
    split
    · exact of_refused (Edit.bind_error _ rfl)
    · exact of_refused (Edit.bind_error _ Edit.ofExcept_error)

theorem writeCodec {codec : Codec} (spans : codec.Spans size) (strictness : Strictness) (v : Value)
    (offset : Int) (now : Bytes) :
    Confined (codec.write strictness v offset size) offset size codec.Single now :=
  of_edits (Codec.write_edits spans strictness v offset now)
    (fun _ encoded => Codec.length_encode spans encoded)

theorem weaken (known : Confined edit offset size single now) :
    Confined edit offset size False now :=
  ⟨known.change, known.inside, fun _ _ => False.elim⟩

end Confined

theorem Convention.codec_fixed {convention : Convention} {code : FieldType}
    (stored : code ≠ .padding) (plain : code ≠ .text) (uncounted : code ≠ .counted) :
    ∃ codec, convention.codec? code = some codec ∧ codec.Spans (convention.size code) ∧
      codec ≠ .text ∧ codec ≠ .counted := by
  cases code with
  | padding => exact absurd rfl stored
  | text => exact absurd rfl plain
  | counted => exact absurd rfl uncounted
  | pointer =>
    refine ⟨_, rfl, Convention.spans_size rfl, ?_, ?_⟩ <;> split <;> simp
  | _ => exact ⟨_, rfl, Convention.spans_size rfl, by simp, by simp⟩

theorem Codec.writeGiven_fixed {codec : Codec} (plain : codec ≠ .text)
    (uncounted : codec ≠ .counted) (strictness : Strictness) (v : Value) (offset : Int)
    (length? : Option Int) (length : Int) (now : Bytes) :
    writeGiven (some codec) strictness v offset length? now =
      codec.write strictness v offset length now := by
  cases codec with
  | text => exact absurd rfl plain
  | counted => exact absurd rfl uncounted
  | _ => cases length? <;> rfl

namespace Confined

variable {now : Bytes}

theorem writeField (field : CodedField) (strictness : Strictness) (v : Value) (now : Bytes) :
    Confined (Codec.writeGiven field.codec? strictness v field.offset field.length?) field.offset
      field.size False now := by
  by_cases plain : field.code = .text
  · obtain ⟨length, given⟩ := field.sized (Or.inl plain)
    have codec : field.codec? = some .text := by
      rw [CodedField.codec?, Convention.codec?, plain]
      rfl
    rw [CodedField.size_given (Or.inl plain) given, codec, given]
    exact (writeText (v.resolve now) field.offset length now).congr rfl
  by_cases uncounted : field.code = .counted
  · obtain ⟨length, given⟩ := field.sized (Or.inr uncounted)
    have codec : field.codec? = some .counted := by
      rw [CodedField.codec?, Convention.codec?, uncounted]
      rfl
    rw [CodedField.size_given (Or.inr uncounted) given, codec, given]
    exact (writeCounted strictness.counts (v.resolve now) field.offset length now).congr rfl
  obtain ⟨codec, found, spans, text, counted⟩ :=
    Convention.codec_fixed field.coded plain uncounted
  have written := (writeCodec spans strictness v field.offset now).weaken
  rw [field.size_fixed plain uncounted, CodedField.codec?, found]
  exact written.congr (Codec.writeGiven_fixed text counted _ _ _ _ _ now)

end Confined

namespace Action

variable {action : Action} {now : Bytes}

end Action
end BinaryRecord
