import BinaryRecord.Proofs.Decoding
import BinaryRecord.Proofs.Filling
import Mathlib.Tactic.Ring

/-!
More demands only refuse more. Two runs over the same format, one under more demands than the other,
are followed step by step: where the stricter one goes on, it does what the other one does, and where
it alone stops, it does so for a demand that the other one does not make.
-/
namespace BinaryRecord

section Results

variable {α β σ : Type} {why other : Fault → Prop}

/-- What is left of a result under more demands: a success is the same one, and a fault in its place
has one of the causes. -/
structure Narrows (why : Fault → Prop) (weak strong : Except Fault α) : Prop where
  same : ∀ a, strong = .ok a → weak = .ok a
  cause : ∀ a fault, weak = .ok a → strong = .error fault → why fault

namespace Narrows

theorem refl (why : Fault → Prop) (result : Except Fault α) : Narrows why result result := by
  constructor
  · intro a done
    exact done
  · intro a fault done failed
    cases done.symm.trans failed

theorem of_fault (weak : Except Fault α) {fault : Fault} (refused : why fault) :
    Narrows why weak (.error fault) := by
  constructor
  · intro a done
    cases done
  · intro a other _ failed
    cases failed
    exact refused

theorem mono {weak strong : Except Fault α} (narrows : Narrows why weak strong)
    (more : ∀ fault, why fault → other fault) : Narrows other weak strong := by
  constructor
  · exact narrows.same
  · intro a fault done failed
    exact more fault (narrows.cause a fault done failed)

theorem bind {weak strong : Except Fault α} {f g : α → Except Fault β}
    (first : Narrows why weak strong) (rest : ∀ a, strong = .ok a → Narrows why (f a) (g a)) :
    Narrows why (weak.bind f) (strong.bind g) := by
  constructor
  · intro b done
    obtain ⟨a, reached, ended⟩ := ok_of_bind done
    rw [first.same a reached]
    exact (rest a reached).same b ended
  · intro b fault done failed
    obtain ⟨a, reached, ended⟩ := ok_of_bind done
    rcases error_of_bind failed with stopped | ⟨a', went, stopped⟩
    · exact first.cause a fault reached stopped
    · cases reached.symm.trans (first.same a' went)
      exact (rest a went).cause b fault ended stopped

theorem map {weak strong : Except Fault α} (narrows : Narrows why weak strong) (f : α → β) :
    Narrows why (weak.map f) (strong.map f) := by
  constructor
  · intro b done
    obtain ⟨a, reached, rfl⟩ := ok_of_map done
    rw [narrows.same a reached]
    rfl
  · intro b fault done failed
    obtain ⟨a, reached, _⟩ := ok_of_map done
    exact narrows.cause a fault reached (error_of_map failed)

theorem mapError {weak strong : Except Fault α} (narrows : Narrows why weak strong)
    {f : Fault → Fault} (kept : ∀ fault, why fault → other (f fault)) :
    Narrows other (weak.mapError f) (strong.mapError f) := by
  constructor
  · intro a done
    rw [narrows.same a (mapError_ok.mp done)]
    rfl
  · intro a fault done failed
    cases strong with
    | ok b => cases failed
    | error cause =>
      cases failed
      exact kept cause (narrows.cause a cause (mapError_ok.mp done) rfl)

theorem foldlM {weak strong : α → Slot → Except Fault α} {slots : List Slot}
    (each : ∀ a, ∀ slot ∈ slots, Narrows why (weak a slot) (strong a slot)) (a : α) :
    Narrows why (slots.foldlM weak a) (slots.foldlM strong a) := by
  induction slots generalizing a with
  | nil => exact refl why _
  | cons slot slots ih =>
    rw [List.foldlM_cons, List.foldlM_cons]
    apply (each a slot List.mem_cons_self).bind
    intro b _
    exact ih (fun c later member => each c later (List.mem_cons_of_mem slot member)) b

end Narrows

def outcome : EStateM.Result Fault σ α → Except Fault (α × σ)
  | .ok a left => .ok (a, left)
  | .error fault _ => .error fault

theorem outcome_bind (x : EStateM Fault σ α) (f : α → EStateM Fault σ β) (s : σ) :
    outcome ((x >>= f) s) = (outcome (x s)).bind fun reached => outcome (f reached.1 reached.2) := by
  change outcome (EStateM.bind x f s) = _
  unfold EStateM.bind
  cases x s <;> rfl

theorem outcome_adaptExcept (x : EStateM Fault σ α) (f : Fault → Fault) (s : σ) :
    outcome (EStateM.adaptExcept f x s) = (outcome (x s)).mapError f := by
  unfold EStateM.adaptExcept
  cases x s <;> rfl

theorem outcome_foldlM (step : α → Slot → EStateM Fault σ α) (slots : List Slot) (a : α) (s : σ) :
    outcome (slots.foldlM step a s) =
      slots.foldlM (fun reached slot => outcome (step reached.1 slot reached.2)) (a, s) := by
  induction slots generalizing a s with
  | nil => rfl
  | cons slot slots ih =>
    rw [List.foldlM_cons, List.foldlM_cons, outcome_bind]
    simp only [ih]
    rfl

def completed : List β × Option Fault → Except Fault (List β)
  | (values, none) => .ok values
  | (_, some fault) => .error fault

end Results

namespace Strictness

theorem Within.same_counts_or {weak strong : Strictness} (within : weak.Within strong) :
    strong.counts = weak.counts ∨ (weak.counts = false ∧ strong.counts = true) := by
  have asked := within.2
  cases lenient : weak.counts <;> cases strict : strong.counts <;> simp_all

def RefusesCode (weak strong : Strictness) (fault : Fault) : Prop :=
  weak.codes = false ∧ strong.codes = true ∧ fault.class? = some .format

def RefusesCount (weak strong : Strictness) (layout : Layout) (kind : FaultClass) (fault : Fault) :
    Prop :=
  weak.counts = false ∧ strong.counts = true ∧ fault.class? = some kind ∧
    ∃ slot ∈ layout.slots, slot.code = .counted ∧ fault.chain = Fault.place 'p' slot.offset

end Strictness

namespace Layout

/-- A layout under more demands: the whole layout, or a first part of it and a fault. -/
inductive Cut (why : Fault → Prop) (layout : Layout) : Layout → Prop
  | whole : Cut why layout layout
  | short (runs more : List Run) (fault : Fault) (split : layout.runs = runs ++ more)
      (refused : why fault) : Cut why layout ⟨runs, some fault⟩

theorem Cut.cons {why : Fault → Prop} {layout strict : Layout} (run : Run)
    (cut : Cut why layout strict) :
    Cut why ⟨run :: layout.runs, layout.fault?⟩ ⟨run :: strict.runs, strict.fault?⟩ := by
  cases cut with
  | whole => exact Cut.whole
  | short runs more fault split refused =>
    exact Cut.short (run :: runs) more fault (congrArg (run :: ·) split) refused

theorem Cut.mono {why other : Fault → Prop} {layout strict : Layout} (cut : Cut why layout strict)
    (more : ∀ fault, why fault → other fault) : Cut other layout strict := by
  cases cut with
  | whole => exact Cut.whole
  | short runs rest fault split refused => exact Cut.short runs rest fault split (more fault refused)

theorem walk_cut (convention : Convention) {weak strong : Strictness}
    (within : weak.codes = true → strong.codes = true) (index count : Nat) (cursor : Int)
    (cs : List Char) :
    Cut (weak.RefusesCode strong) (walk convention weak index count cursor cs)
      (walk convention strong index count cursor cs) := by
  induction cs generalizing index count cursor with
  | nil => exact Cut.whole
  | cons c cs ih =>
    rw [walk, walk]
    by_cases digit : c.isDigit
    · rw [if_pos digit, if_pos digit]
      exact ih (index + 1) _ cursor
    · rw [if_neg digit, if_neg digit]
      cases FieldType.ofLetter? c with
      | none =>
        dsimp only
        cases lenient : weak.codes with
        | true =>
          rw [if_pos rfl, if_pos (within lenient)]
          exact Cut.whole
        | false =>
          rw [if_neg (by simp)]
          cases strict : strong.codes with
          | true => exact Cut.short [] _ _ rfl ⟨lenient, strict, rfl⟩
          | false => exact ih (index + 1) 0 cursor
      | some code => exact (ih (index + 1) 0 _).cons _

section Cutting

variable {α : Type} {why : Fault → Prop} {layout strict : Layout}

theorem Cut.accepted (cut : layout.Cut why strict) : Narrows why layout.accepted strict.accepted := by
  cases cut with
  | whole => exact Narrows.refl why _
  | short runs more fault split refused => exact Narrows.of_fault _ refused

theorem Cut.foldSlots (cut : layout.Cut why strict) {weak strong : α → Slot → Except Fault α}
    (each : ∀ a, ∀ slot ∈ layout.slots, Narrows why (weak a slot) (strong a slot)) (a : α) :
    Narrows why (layout.foldSlots weak a) (strict.foldSlots strong a) := by
  rw [foldSlots_eq, foldSlots_eq]
  cases cut with
  | whole => exact (Narrows.foldlM each a).bind fun b _ => Narrows.refl why _
  | short runs more fault split refused =>
    have slots : layout.slots = runs.flatMap Run.slots ++ more.flatMap Run.slots := by
      rw [Layout.slots, split, List.flatMap_append]
    rw [slots] at each ⊢
    have first := Narrows.foldlM (fun b slot early => each b slot (List.mem_append_left _ early)) a
    rw [List.foldlM_append, bind_assoc]
    exact first.bind fun b _ => Narrows.of_fault _ refused

end Cutting

theorem outcome_foldSlots {α σ : Type} (layout : Layout) (step : α → Slot → EStateM Fault σ α) (a : α)
    (s : σ) : outcome (layout.foldSlots step a s) =
      layout.foldSlots (fun reached slot => outcome (step reached.1 slot reached.2)) (a, s) := by
  rw [foldSlots_eq, foldSlots_eq, outcome_bind, outcome_foldlM]
  cases layout.fault? <;> rfl

end Layout

section Fields

variable {weak strong : Strictness} (within : weak.Within strong)

include within

theorem CountedText.content_narrows (bs : Bytes) (offset length : Int) :
    Narrows (fun fault => (weak.counts = false ∧ strong.counts = true) ∧
        ∃ count, fault = .countOverflow offset count length)
      (content weak.counts bs offset length) (content strong.counts bs offset length) := by
  rcases within.same_counts_or with same | ⟨lenient, strict⟩
  · rw [same]
    exact Narrows.refl _ _
  · rw [lenient, strict]
    apply (Narrows.refl _ (Storage.get bs offset)).bind
    intro b _
    by_cases short : (b.toNat : Int) < length
    · rw [if_pos short, if_pos short]
      exact Narrows.refl _ _
    · rw [if_neg short, if_neg short]
      exact Narrows.of_fault _ ⟨⟨rfl, rfl⟩, _, rfl⟩

theorem Codec.read_narrows (codec : Codec) (bs : Bytes) (offset length : Int) :
    Narrows (fun fault => codec = .counted ∧ (weak.counts = false ∧ strong.counts = true) ∧
        ∃ count, fault = .countOverflow offset count length)
      (codec.read weak bs offset length) (codec.read strong bs offset length) := by
  cases codec with
  | counted =>
    unfold read CountedText.read
    apply Narrows.bind _ fun text _ => Narrows.refl _ _
    apply Narrows.bind _ fun raw _ => Narrows.refl _ _
    exact (CountedText.content_narrows within bs offset length).mono fun fault refused => ⟨rfl, refused⟩
  | _ => exact Narrows.refl _ _

theorem CountedText.write_narrows (v : Value) (offset length : Int) (bs : Bytes) :
    Narrows (fun fault => (weak.counts = false ∧ strong.counts = true) ∧
        ∃ size, fault = .countedTooLong offset size length)
      (outcome (write weak.counts v offset length bs))
      (outcome (write strong.counts v offset length bs)) := by
  rcases within.same_counts_or with same | ⟨lenient, strict⟩
  · rw [same]
    exact Narrows.refl _ _
  · rw [lenient, strict]
    unfold write
    rw [outcome_bind, outcome_bind]
    apply (Narrows.refl _ _).bind
    rintro ⟨raw, now⟩ _
    by_cases cut : capacity raw.length length < raw.length
    · simp only [cut, true_and, if_true]
      exact Narrows.of_fault _ ⟨_, rfl⟩
    · simp only [cut, false_and, if_false]
      exact Narrows.refl _ _

theorem Codec.write_narrows (codec : Codec) (v : Value) (offset length : Int) (bs : Bytes) :
    Narrows (fun fault => codec = .counted ∧ (weak.counts = false ∧ strong.counts = true) ∧
        ∃ size, fault = .countedTooLong offset size length)
      (outcome (codec.write weak v offset length bs))
      (outcome (codec.write strong v offset length bs)) := by
  cases codec with
  | counted =>
    exact (CountedText.write_narrows within (v.resolve bs) offset length bs).mono
      fun fault refused => ⟨rfl, refused⟩
  | _ => exact Narrows.refl _ _

variable {layout : Layout} {slot : Slot} {convention : Convention}

theorem Layout.unpackStep_narrows (member : slot ∈ layout.slots) (follows : slot.Follows convention)
    (checked : Bool) (bs : Bytes) (read : List Value) :
    Narrows (weak.RefusesCount strong layout .unpacking) (unpackStep checked weak bs read slot)
      (unpackStep checked strong bs read slot) := by
  unfold unpackStep
  cases found : slot.codec? with
  | none => exact Narrows.refl _ _
  | some codec =>
    apply Narrows.map
    unfold Slot.unpack
    by_cases beyond : checked ∧ bs.length < slot.stop
    · rw [if_pos beyond, if_pos beyond]
      exact Narrows.refl _ _
    · rw [if_neg beyond, if_neg beyond]
      apply (Codec.read_narrows within codec bs slot.offset slot.size).mapError
      rintro _ ⟨rfl, ⟨lenient, strict⟩, count, rfl⟩
      exact ⟨lenient, strict, rfl, slot, member, follows.counted found, rfl⟩

theorem Layout.packStep_narrows (member : slot ∈ layout.slots) (follows : slot.Follows convention)
    (checked : Bool) (left : List Value) (bs : Bytes) :
    Narrows (weak.RefusesCount strong layout .packing) (outcome (packStep checked weak left slot bs))
      (outcome (packStep checked strong left slot bs)) := by
  unfold packStep
  cases found : slot.codec? with
  | none => exact Narrows.refl _ _
  | some codec =>
    cases left with
    | nil => exact Narrows.refl _ _
    | cons v left =>
      dsimp only
      rw [outcome_bind, outcome_bind]
      apply Narrows.bind _ fun done _ => Narrows.refl _ _
      unfold Slot.pack
      rw [outcome_adaptExcept, outcome_adaptExcept]
      apply (Codec.write_narrows within codec v slot.offset slot.size bs).mapError
      rintro _ ⟨rfl, ⟨lenient, strict⟩, size, rfl⟩
      exact ⟨lenient, strict, rfl, slot, member, follows.counted found, rfl⟩

variable {strict : Layout}

theorem Layout.unpack_narrows (cut : layout.Cut (weak.RefusesCode strong) strict)
    (follows : ∀ slot ∈ layout.slots, slot.Follows convention) (checked : Bool) (bs : Bytes) :
    Narrows (fun fault => weak.RefusesCode strong fault ∨
        weak.RefusesCount strong layout .unpacking fault)
      (layout.unpack checked weak bs) (strict.unpack checked strong bs) := by
  unfold unpack
  apply Narrows.bind _ fun read _ => Narrows.refl _ _
  apply (cut.mono fun fault => Or.inl).foldSlots
  intro read slot member
  exact (unpackStep_narrows within member (follows slot member) checked bs read).mono fun _ => Or.inr

theorem Layout.pack_narrows (cut : layout.Cut (weak.RefusesCode strong) strict)
    (follows : ∀ slot ∈ layout.slots, slot.Follows convention) (checked : Bool)
    (values : List Value) (bs : Bytes) :
    Narrows (fun fault => weak.RefusesCode strong fault ∨
        weak.RefusesCount strong layout .packing fault)
      (outcome (layout.pack checked weak values bs))
      (outcome (strict.pack checked strong values bs)) := by
  unfold pack
  rw [outcome_bind, outcome_bind, outcome_foldSlots, outcome_foldSlots]
  apply Narrows.bind _ fun left _ => Narrows.refl _ _
  apply (cut.mono fun fault => Or.inl).foldSlots
  intro left slot member
  exact (packStep_narrows within member (follows slot member) checked left.1 left.2).mono
    fun _ => Or.inr

end Fields

namespace Layout

theorem packNew_eq (layout : Layout) (checked : Bool) (strictness : Strictness)
    (values : List Value) : layout.packNew checked strictness values =
      (Storage.zeros layout.size).bind fun zeros =>
        (outcome (layout.pack checked strictness values zeros)).map Prod.snd := by
  refine congrArg (Except.bind _) (funext fun zeros => ?_)
  cases layout.pack checked strictness values zeros <;> rfl

theorem outcome_packOnto (layout : Layout) (checked : Bool) (strictness : Strictness)
    (values : List Value) (bs : Bytes) :
    outcome (layout.packOnto checked strictness values (.array bs)) =
      (outcome (layout.pack checked strictness values bs)).map fun packed =>
        ((), .array packed.2) := by
  unfold packOnto
  dsimp only
  cases layout.pack checked strictness values bs <;> rfl

end Layout

namespace Format

def under (format : Format) (strictness : Strictness) : Format := { format with strictness }

/-- Why the format is refused under more demands, where fields from a start on are worked on: for a
character, or for one of the counted texts that lie there. -/
def Refuses (format : Format) (strong : Strictness) (start : Int) (kind : FaultClass) (fault : Fault) :
    Prop :=
  format.strictness.RefusesCode strong fault ∨
    format.strictness.RefusesCount strong (format.layout start) kind fault

theorem completed_recordsAt (format : Format) (bs : Bytes) (checked : Bool) (place : Nat)
    (places : List Nat) : completed (format.recordsAt bs checked (place :: places)) =
      (format.unpackBytes bs checked place).bind fun record =>
        (completed (format.recordsAt bs checked places)).map (record :: ·) := by
  rw [recordsAt]
  cases format.unpackBytes bs checked place with
  | error fault => rfl
  | ok record =>
    obtain ⟨records, fault?⟩ := format.recordsAt bs checked places
    cases fault? <;> rfl

theorem completed_records (format : Format) (data : Value) (checked : Bool) :
    completed (format.records data checked) = format.recordSize.bind fun size =>
      (Storage.ofData data).bind fun bs =>
        completed (format.recordsAt bs checked (steps (bs.length + 1 - size) size)) := by
  unfold records
  cases format.recordSize with
  | error fault => rfl
  | ok size => cases Storage.ofData data <;> rfl

theorem eq_of_recordSize {format : Format} {size : Nat} (sized : format.recordSize = .ok size) :
    (format.layout 0).size = size := by
  obtain ⟨total, whole, rest⟩ := ok_of_bind sized
  have nonneg := format.size_nonneg
  rw [← eq_of_size whole] at nonneg ⊢
  split at rest
  · cases rest
  · cases rest
    omega

section Stricter

variable {format : Format} {strong : Strictness}

theorem layout_under (within : format.strictness.Within strong) (start : Int) :
    (format.layout start).Cut (format.strictness.RefusesCode strong)
      ((format.under strong).layout start) :=
  Layout.walk_cut _ within.1 _ _ _ _

theorem size_narrows (within : format.strictness.Within strong) :
    Narrows (format.strictness.RefusesCode strong) format.size (format.under strong).size :=
  (layout_under within 0).accepted.bind fun _ _ => Narrows.refl _ _

theorem entries_narrows (within : format.strictness.Within strong) :
    Narrows (format.strictness.RefusesCode strong) format.entries (format.under strong).entries :=
  (layout_under within 0).accepted.bind fun _ _ => Narrows.refl _ _

theorem pack_narrows (within : format.strictness.Within strong) (arguments : List Value)
    (checked : Bool) : Narrows (format.Refuses strong 0 .packing) (format.pack arguments checked)
      ((format.under strong).pack arguments checked) := by
  have cut := layout_under within 0
  apply (cut.accepted.mono fun fault => Or.inl).bind
  intro layout accepted
  obtain ⟨_, rfl⟩ := Layout.accepted_ok.mp (cut.accepted.same layout accepted)
  rw [Layout.packNew_eq, Layout.packNew_eq]
  apply (Narrows.refl _ (Storage.zeros (format.layout 0).size)).bind
  intro zeros _
  apply Narrows.map
  exact Layout.pack_narrows within Layout.Cut.whole (fun slot member => slot_follows member) _ _ zeros

theorem packAt_narrows (within : format.strictness.Within strong) (offset : Int)
    (arguments : List Value) (checked : Bool) (onto : Value) :
    Narrows (format.Refuses strong offset .packing)
      (outcome (format.packAt offset arguments checked onto))
      (outcome ((format.under strong).packAt offset arguments checked onto)) := by
  unfold packAt
  cases onto with
  | array bs =>
    rw [Layout.outcome_packOnto, Layout.outcome_packOnto]
    apply Narrows.map
    exact Layout.pack_narrows within (layout_under within offset)
      (fun slot member => slot_follows member) _ _ bs
  | _ => exact Narrows.refl _ _

theorem unpackBytes_narrows (within : format.strictness.Within strong) (bs : Bytes) (checked : Bool)
    (offset : Int) : Narrows (format.Refuses strong offset .unpacking)
      (format.unpackBytes bs checked offset) ((format.under strong).unpackBytes bs checked offset) :=
  Layout.unpack_narrows within (layout_under within offset) (fun _ member => slot_follows member)
    checked bs

theorem unpackAt_narrows (within : format.strictness.Within strong) (data : Value) (checked : Bool)
    (offset : Int) : Narrows (format.Refuses strong offset .unpacking)
      (format.unpackAt data checked offset) ((format.under strong).unpackAt data checked offset) :=
  (Narrows.refl _ (Storage.ofData data)).bind fun bs _ => unpackBytes_narrows within bs checked offset

theorem recordsAt_narrows (within : format.strictness.Within strong) (bs : Bytes) (checked : Bool)
    (places : List Nat) :
    Narrows (fun fault => ∃ place ∈ places, format.Refuses strong (place : Nat) .unpacking fault)
      (completed (format.recordsAt bs checked places))
      (completed ((format.under strong).recordsAt bs checked places)) := by
  induction places with
  | nil => exact Narrows.refl _ _
  | cons place places ih =>
    rw [completed_recordsAt, completed_recordsAt]
    apply Narrows.bind
    · apply (unpackBytes_narrows within bs checked place).mono
      intro fault refused
      exact ⟨place, List.mem_cons_self, refused⟩
    · intro record _
      apply Narrows.map
      apply ih.mono
      rintro fault ⟨later, member, refused⟩
      exact ⟨later, List.mem_cons_of_mem place member, refused⟩

theorem recordsAt_begin (within : format.strictness.Within strong) (bs : Bytes) (checked : Bool)
    (places : List Nat) :
    ((format.under strong).recordsAt bs checked places).1 <+:
      (format.recordsAt bs checked places).1 := by
  induction places with
  | nil => exact List.nil_prefix
  | cons place places ih =>
    have narrows := unpackBytes_narrows within bs checked place
    rw [recordsAt, recordsAt]
    cases read : (format.under strong).unpackBytes bs checked place with
    | error fault => exact List.nil_prefix
    | ok record =>
      rw [narrows.same record read]
      exact List.prefix_cons_inj record |>.mpr ih

theorem recordSize_narrows (within : format.strictness.Within strong) :
    Narrows (format.strictness.RefusesCode strong) format.recordSize
      (format.under strong).recordSize :=
  (size_narrows within).bind fun _ _ => Narrows.refl _ _

theorem records_narrows (within : format.strictness.Within strong) (data : Value) (checked : Bool) :
    Narrows (fun fault => ∃ k : Nat,
        format.Refuses strong (k * (format.layout 0).size) .unpacking fault)
      (completed (format.records data checked))
      (completed ((format.under strong).records data checked)) := by
  rw [completed_records, completed_records]
  apply Narrows.bind
  · apply (recordSize_narrows within).mono
    intro fault refused
    exact ⟨0, Or.inl refused⟩
  · intro size sized
    have total := eq_of_recordSize ((recordSize_narrows within).same size sized)
    apply (Narrows.refl _ (Storage.ofData data)).bind
    intro bs _
    apply (recordsAt_narrows within bs checked (steps (bs.length + 1 - size) size)).mono
    rintro fault ⟨place, member, refused⟩
    obtain ⟨k, _, rfl⟩ := List.mem_range'.mp member
    refine ⟨k, ?_⟩
    rw [total]
    simpa [Int.mul_comm] using refused

theorem records_begin (within : format.strictness.Within strong) (data : Value) (checked : Bool) :
    ((format.under strong).records data checked).1 <+: (format.records data checked).1 := by
  unfold records
  cases sized : (format.under strong).recordSize with
  | error fault => exact List.nil_prefix
  | ok size =>
    rw [(recordSize_narrows within).same size sized]
    dsimp only
    cases Storage.ofData data with
    | error fault => exact List.nil_prefix
    | ok bs => exact recordsAt_begin within bs checked (steps (bs.length + 1 - size) size)

end Stricter

/-- What succeeds under more demands has the same result, and leaves the same, under fewer. What fails
only under more fails for a demand that was added: a character that is no type code, or the count of
one of the counted texts that are read or written. Records that come before such a fault are the same
too. -/
theorem stricter_refuses (format : Format) (strong : Strictness)
    (within : format.strictness.Within strong) :
    let strict := format.under strong
    let unknown := format.strictness.RefusesCode strong
    Narrows unknown format.size strict.size ∧ Narrows unknown format.entries strict.entries ∧
    (∀ arguments checked, Narrows (format.Refuses strong 0 .packing)
      (format.pack arguments checked) (strict.pack arguments checked)) ∧
    (∀ offset arguments checked onto, Narrows (format.Refuses strong offset .packing)
      (outcome (format.packAt offset arguments checked onto))
      (outcome (strict.packAt offset arguments checked onto))) ∧
    (∀ data checked, Narrows (format.Refuses strong 0 .unpacking)
      (format.unpack data checked) (strict.unpack data checked)) ∧
    (∀ data checked offset, Narrows (format.Refuses strong offset .unpacking)
      (format.unpackAt data checked offset) (strict.unpackAt data checked offset)) ∧
    ∀ data checked, (strict.records data checked).1 <+: (format.records data checked).1 ∧
      Narrows (fun fault => ∃ k : Nat,
          format.Refuses strong (k * (format.layout 0).size) .unpacking fault)
        (completed (format.records data checked)) (completed (strict.records data checked)) := by
  intro strict unknown
  refine ⟨size_narrows within, entries_narrows within, ?_, ?_, ?_, ?_, ?_⟩
  · intro arguments checked
    exact pack_narrows within arguments checked
  · intro offset arguments checked onto
    exact packAt_narrows within offset arguments checked onto
  · intro data checked
    exact unpackAt_narrows within data checked 0
  · intro data checked offset
    exact unpackAt_narrows within data checked offset
  · intro data checked
    exact ⟨records_begin within data checked, records_narrows within data checked⟩

/-- Three bytes do not fit after a count in a field of three. Lenient packing cuts them, and strict
packing refuses that field for its count and for nothing else. -/
theorem stricter_refuses_cut :
    let format : Format := ⟨"<x3p-", Machine.default, Strictness.lenient⟩
    let strong : Strictness := ⟨false, true⟩
    format.strictness.Within strong ∧
      format.pack [.text "abc"] true = .ok [0, 2, 97, 98] ∧
      (format.under strong).pack [.text "abc"] true = .error (.countedTooLong 1 3 3) ∧
      format.strictness.RefusesCount strong (format.layout 0) .packing (.countedTooLong 1 3 3) ∧
      (format.under strong).unpack (.bytes [0, 2, 97, 98]) true = .ok [.text "ab"] ∧
      format.unpack (.bytes [0, 2, 97, 98]) true = .ok [.text "ab"] := by
  have cut : (Format.mk "<x3p-" Machine.default Strictness.lenient).pack [.text "abc"] true =
      .ok [0, 2, 97, 98] := rfl
  have refused : ((Format.mk "<x3p-" Machine.default Strictness.lenient).under ⟨false, true⟩).pack
      [.text "abc"] true = .error (.countedTooLong 1 3 3) := rfl
  have read : ((Format.mk "<x3p-" Machine.default Strictness.lenient).under ⟨false, true⟩).unpack
      (.bytes [0, 2, 97, 98]) true = .ok [.text "ab"] := rfl
  intro format strong
  have within : format.strictness.Within strong := ⟨id, fun _ => rfl⟩
  obtain ⟨_, _, packing, _, unpacking, _⟩ := stricter_refuses format strong within
  refine ⟨within, cut, refused, ?_, read, (unpacking _ true).same _ read⟩
  rcases (packing [.text "abc"] true).cause _ _ cut refused with ⟨_, asked, _⟩ | count
  · cases asked
  · exact count

end Format
end BinaryRecord
