import BinaryRecord.Proofs.Window

/-!
Edits of a storage taken apart: what a step leaves is what the next one starts from, also where
that one fails.
-/
namespace BinaryRecord

section Results

variable {ε δ α β : Type} {x : Except ε α} {b : β} {e : ε}

theorem ok_of_map {f : α → β} (result : x.map f = .ok b) : ∃ a, x = .ok a ∧ f a = b := by
  cases x with
  | error e => cases result
  | ok a =>
    cases result
    exact ⟨a, rfl, rfl⟩

theorem error_of_map {f : α → β} (result : x.map f = .error e) : x = .error e := by
  cases x with
  | error e =>
    cases result
    rfl
  | ok a => cases result

theorem ok_of_bind {f : α → Except ε β} (result : x.bind f = .ok b) :
    ∃ a, x = .ok a ∧ f a = .ok b := by
  cases x with
  | error e => cases result
  | ok a => exact ⟨a, rfl, result⟩

theorem error_of_bind {f : α → Except ε β} (result : x.bind f = .error e) :
    x = .error e ∨ ∃ a, x = .ok a ∧ f a = .error e := by
  cases x with
  | error e =>
    cases result
    exact Or.inl rfl
  | ok a => exact Or.inr ⟨a, rfl, result⟩

theorem mapError_ok {a : α} {f : ε → δ} : x.mapError f = .ok a ↔ x = .ok a := by
  constructor
  · intro mapped
    cases x with
    | error e => cases mapped
    | ok b =>
      cases mapped
      rfl
  · rintro rfl
    rfl

end Results

namespace Fault

/-- A fault that does not know its place yet, and that a field reports with its own. -/
def IsReported (fault : Fault) : Prop :=
  ∃ plain : PlainFault, plain.kind.isReported = true ∧ fault = .plain plain

/-- The fault of a dictionary that has no entry under zero, which no field reports. -/
def IsUnreported (fault : Fault) : Prop := ∃ v, fault = refused .key (.firstItem v)

theorem inField_reported (report : PlainFault → Fault) {fault : PlainFault}
    (reported : fault.kind.isReported = true) : inField report (plain fault) = report fault :=
  if_pos reported

end Fault

namespace Edit

variable {α β : Type} {bs mid after : Bytes} {fault : Fault} {a : α} {b : β}

theorem bind_ok {x : Edit α} (f : α → Edit β) (first : x bs = .ok a mid) : (x >>= f) bs = f a mid := by
  change EStateM.bind x f bs = f a mid
  rw [EStateM.bind, first]

theorem bind_error {x : Edit α} (f : α → Edit β) (first : x bs = .error fault mid) :
    (x >>= f) bs = .error fault mid := by
  change EStateM.bind x f bs = .error fault mid
  rw [EStateM.bind, first]

theorem ofExcept_ok : (MonadExcept.ofExcept (.ok a : Except Fault α) : Edit α) bs = .ok a bs := rfl

theorem ofExcept_error :
    (MonadExcept.ofExcept (.error fault : Except Fault α) : Edit α) bs = .error fault bs := rfl

end Edit

namespace Storage

variable {bs new : Bytes} {offset stop : Int} {size : Nat}

theorem check_inside (inside : Inside bs offset size) : check offset size bs = .ok () bs := by
  rw [check, if_pos inside]

theorem check_outside (beyond : ¬ Inside bs offset size) :
    check offset size bs = .error (outside bs offset size) bs := by
  rw [check, if_neg beyond]

theorem write_inside (inside : Inside bs offset new.length) :
    write offset new bs = .ok () (bs.overlay offset.toNat new) := by
  rw [write, if_pos inside]

theorem write_outside (beyond : ¬ Inside bs offset new.length) :
    write offset new bs = .error (outside bs offset new.length) bs := by
  rw [write, if_neg beyond]

theorem Inside.fits (inside : Inside bs offset size) : offset.toNat + size ≤ bs.length := by
  unfold Inside at inside
  omega

theorem Inside.congr {other : Bytes} (inside : Inside bs offset size)
    (same : other.length = bs.length) : Inside other offset size := by
  unfold Inside at *
  omega

theorem fill_inside (start : 0 ≤ offset) (order : offset ≤ stop) (inside : stop ≤ bs.length) :
    fill offset stop 0 bs =
      .ok () (bs.overlay offset.toNat (List.replicate (stop - offset).toNat 0)) := by
  unfold fill
  by_cases empty : offset < stop
  · have window : Inside bs offset (stop - offset).toNat := by
      unfold Inside
      omega
    have zeros : Inside bs offset (List.replicate (stop - offset).toNat (0 : UInt8)).length := by
      rw [List.length_replicate]
      exact window
    have zero : (MonadExcept.ofExcept (byte 0) : Edit UInt8) bs = .ok 0 bs := rfl
    rw [if_pos empty]
    refine (Edit.bind_ok _ (check_inside window)).trans ?_
    exact (Edit.bind_ok _ zero).trans (write_inside zeros)
  · have none : (stop - offset).toNat = 0 := by omega
    rw [if_neg empty, none, List.replicate_zero, Bytes.overlay]
    simp only [List.length_nil, Nat.add_zero, List.append_nil, List.take_append_drop]
    rfl

theorem fill_outside (order : offset < stop) (beyond : ¬ (0 ≤ offset ∧ stop ≤ bs.length)) :
    fill offset stop 0 bs = .error (outside bs offset (stop - offset).toNat) bs := by
  have window : ¬ Inside bs offset (stop - offset).toNat := by
    unfold Inside
    omega
  unfold fill
  rw [if_pos order]
  exact Edit.bind_error _ (check_outside window)

end Storage

open Storage Bytes

/-- An edit of the field `[offset, offset + length)`. Inside of the storage it lays the encoding over
the field, or reports the fault of the encoding and changes nothing. Elsewhere it fails, and changes
no byte outside of the field, nor any at all where it is a single step. -/
structure EditsField (edit : Edit Unit) (encoded : Except Fault Bytes) (offset : Int) (length : Nat)
    (single : Prop) (bs : Bytes) : Prop where
  written : ∀ raw, encoded = .ok raw → Inside bs offset length →
    edit bs = .ok () (bs.overlay offset.toNat raw)
  refused : ∀ fault, encoded = .error fault → Inside bs offset length → edit bs = .error fault bs
  beyond : ¬ Inside bs offset length → ∃ fault after, edit bs = .error fault after ∧
    (encoded = .error fault ∨ fault.IsReported) ∧
    SameExcept (fun i => offset ≤ i ∧ i < offset + length) bs after ∧ (single → after = bs)

namespace EditsField

variable {first second : Edit Unit} {left right : Bytes} {offset : Int} {length : Nat} {bs : Bytes}
  {single other : Prop}

theorem congr {edit same : Edit Unit} {encoded : Except Fault Bytes}
    (known : EditsField same encoded offset length single bs) (run : edit bs = same bs) :
    EditsField edit encoded offset length single bs :=
  ⟨run ▸ known.written, run ▸ known.refused, run ▸ known.beyond⟩

theorem fails {edit : Edit Unit} {encoded : Except Fault Bytes}
    (known : EditsField edit encoded offset length single bs)
    (refused : ¬ ((∃ raw, encoded = .ok raw) ∧ Inside bs offset length)) :
    ∃ fault after, edit bs = .error fault after ∧ (encoded = .error fault ∨ fault.IsReported) ∧
      SameExcept (fun i => offset ≤ i ∧ i < offset + length) bs after ∧ (single → after = bs) := by
  by_cases inside : Inside bs offset length
  · cases cause : encoded with
    | ok raw => exact absurd ⟨⟨raw, cause⟩, inside⟩ refused
    | error fault =>
      exact ⟨fault, bs, known.refused fault cause inside, Or.inl rfl, SameExcept.refl _ bs,
        fun _ => rfl⟩
  · exact known.beyond inside

theorem of_refused {edit : Edit Unit} {fault : Fault} (refusal : edit bs = .error fault bs) :
    EditsField edit (.error fault) offset length single bs := by
  refine ⟨?_, ?_, ?_⟩
  · intro raw encoded
    cases encoded
  · intro _ same _
    cases same
    exact refusal
  · intro _
    exact ⟨fault, bs, refusal, Or.inl rfl, SameExcept.refl _ bs, fun _ => rfl⟩

theorem of_write (offset : Int) (new : Bytes) (bs : Bytes) :
    EditsField (Storage.write offset new) (.ok new) offset new.length True bs := by
  refine ⟨?_, ?_, ?_⟩
  · intro raw same inside
    cases same
    exact write_inside inside
  · intro _ same
    cases same
  · intro beyond
    exact ⟨_, bs, write_outside beyond, Or.inr ⟨_, rfl, rfl⟩, SameExcept.refl _ bs, fun _ => rfl⟩

/-- Two neighbouring windows edited one after the other, in either order, are one field. -/
theorem sequence {whole : Bytes} {here there : Int}
    (one : EditsField first (.ok left) here left.length single bs)
    (two : ∀ mid : Bytes, EditsField second (.ok right) there right.length other mid)
    (neighbours : (here = offset ∧ there = offset + left.length) ∨
      (there = offset ∧ here = offset + right.length))
    (sizes : length = left.length + right.length)
    (joined : offset.toNat + length ≤ bs.length → 0 ≤ offset →
      (bs.overlay here.toNat left).overlay there.toNat right = bs.overlay offset.toNat whole) :
    EditsField (first >>= fun _ => second) (.ok whole) offset length False bs := by
  refine ⟨?_, ?_, ?_⟩
  · intro raw same inside
    cases same
    have insideFirst : Inside bs here left.length := by unfold Inside at *; omega
    have insideSecond : Inside (bs.overlay here.toNat left) there right.length := by
      unfold Inside at *
      rw [length_overlay _ _ _ (by omega)]
      omega
    rw [Edit.bind_ok _ (one.written left rfl insideFirst),
      (two _).written right rfl insideSecond, joined inside.fits inside.1]
  · intro _ same
    cases same
  · intro beyond
    by_cases insideFirst : Inside bs here left.length
    · have fits := insideFirst.fits
      have beyondSecond : ¬ Inside (bs.overlay here.toNat left) there right.length := by
        unfold Inside at *
        rw [length_overlay _ _ _ fits]
        omega
      obtain ⟨fault, after, failed, cause, change, _⟩ := (two _).beyond beyondSecond
      refine ⟨fault, after, ?_, ?_, ?_, False.elim⟩
      · rw [Edit.bind_ok _ (one.written left rfl insideFirst), failed]
      · rcases cause with same | plain
        · cases same
        · exact Or.inr plain
      · have start := insideFirst.1
        refine SameExcept.trans ((SameExcept.overlay bs here.toNat left fits).mono ?_)
          (change.mono ?_)
        · intro i touched
          omega
        · intro i touched
          omega
    · obtain ⟨fault, after, failed, cause, change, _⟩ := one.beyond insideFirst
      refine ⟨fault, after, Edit.bind_error _ failed, ?_, ?_, False.elim⟩
      · rcases cause with same | plain
        · cases same
        · exact Or.inr plain
      · refine change.mono ?_
        intro i touched
        omega

theorem append (one : EditsField first (.ok left) offset left.length single bs)
    (two : ∀ mid : Bytes,
      EditsField second (.ok right) (offset + left.length) right.length other mid) :
    EditsField (first >>= fun _ => second) (.ok (left ++ right)) offset
      (left.length + right.length) False bs := by
  apply one.sequence two (Or.inl ⟨rfl, rfl⟩) rfl
  intro fits start
  have place : (offset + left.length).toNat = offset.toNat + left.length := by omega
  rw [place, overlay_overlay _ _ _ _ (by omega)]

theorem prepend (one : EditsField first (.ok right) (offset + left.length) right.length single bs)
    (two : ∀ mid : Bytes, EditsField second (.ok left) offset left.length other mid) :
    EditsField (first >>= fun _ => second) (.ok (left ++ right)) offset
      (left.length + right.length) False bs := by
  apply one.sequence two (Or.inr ⟨rfl, rfl⟩) (Nat.add_comm _ _)
  intro fits start
  have place : (offset + left.length).toNat = offset.toNat + left.length := by omega
  rw [place, overlay_overlay_before _ _ _ _ (by omega)]

theorem fill (one : EditsField first (.ok left) offset left.length single bs) (n : Nat) :
    EditsField (first >>= fun _ => Storage.fill (offset + left.length) (offset + left.length + n) 0)
      (.ok (left ++ List.replicate n 0)) offset (left.length + n) False bs := by
  cases n with
  | zero =>
    have nothing : (fun _ => Storage.fill (offset + left.length)
        (offset + left.length + (0 : Nat)) 0 : Unit → Edit Unit) = pure := by
      funext _
      unfold Storage.fill
      rw [if_neg (by omega)]
    rw [nothing, bind_pure, List.replicate_zero, List.append_nil, Nat.add_zero]
    exact ⟨one.written, one.refused, fun beyond => by
      obtain ⟨fault, after, failed, cause, change, _⟩ := one.beyond beyond
      exact ⟨fault, after, failed, cause, change, False.elim⟩⟩
  | succ n =>
    have zeros : (List.replicate (n + 1) (0 : UInt8)).length = n + 1 := List.length_replicate
    have filled : ∀ mid : Bytes, EditsField (Storage.fill (offset + left.length)
        (offset + left.length + (n + 1 : Nat)) 0) (.ok (List.replicate (n + 1) 0))
        (offset + left.length) (List.replicate (n + 1) (0 : UInt8)).length True mid := by
      intro mid
      rw [zeros]
      refine ⟨?_, ?_, ?_⟩
      · intro raw same inside
        cases same
        have count : (offset + left.length + (n + 1 : Nat) - (offset + left.length)).toNat = n + 1 := by
          omega
        rw [fill_inside inside.1 (by omega) inside.2, count]
      · intro _ same
        cases same
      · intro beyond
        exact ⟨_, mid, fill_outside (by omega) beyond, Or.inr ⟨_, rfl, rfl⟩,
          SameExcept.refl _ mid, fun _ => rfl⟩
    have both := one.append filled
    rw [zeros] at both
    exact both

end EditsField
end BinaryRecord
