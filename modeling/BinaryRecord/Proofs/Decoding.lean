import BinaryRecord.Unpacking
import BinaryRecord.Proofs.Edits
import BinaryRecord.Proofs.Fields
import Mathlib.Data.List.Forall2

/-!
The value that the bytes of a field stand for, and that reading a field inside of a storage is
nothing but taking its bytes and giving their value.
-/
namespace BinaryRecord

open Storage Bytes

theorem exists_between {α β γ : Type} {R : α → γ → Prop} {S : β → γ → Prop} {as : List α}
    {bs : List β} (paired : List.Forall₂ (fun a b => ∃ c, R a c ∧ S b c) as bs) :
    ∃ cs, List.Forall₂ R as cs ∧ List.Forall₂ S bs cs := by
  induction paired with
  | nil => exact ⟨[], List.Forall₂.nil, List.Forall₂.nil⟩
  | cons head _ ih =>
    obtain ⟨c, left, right⟩ := head
    obtain ⟨cs, lefts, rights⟩ := ih
    exact ⟨c :: cs, List.Forall₂.cons left lefts, List.Forall₂.cons right rights⟩

theorem exists_each {α γ : Type} {R : α → γ → Prop} {as : List α} (each : ∀ a ∈ as, ∃ c, R a c) :
    ∃ cs, List.Forall₂ R as cs := by
  induction as with
  | nil => exact ⟨[], List.Forall₂.nil⟩
  | cons a as ih =>
    obtain ⟨c, head⟩ := each a List.mem_cons_self
    obtain ⟨cs, rest⟩ := ih fun b member => each b (List.mem_cons_of_mem a member)
    exact ⟨c :: cs, List.Forall₂.cons head rest⟩

theorem partner_of_mem {α γ : Type} {R : α → γ → Prop} {as : List α} {cs : List γ}
    (paired : List.Forall₂ R as cs) {a : α} (member : a ∈ as) : ∃ c, R a c := by
  induction paired with
  | nil => cases member
  | cons head _ ih =>
    rcases List.mem_cons.mp member with rfl | later
    · exact ⟨_, head⟩
    · exact ih later

section Runs

variable {ε α β : Type} {f : α → Except ε β}

theorem mapM_ok {as : List α} {bs : List β} :
    as.mapM f = .ok bs ↔ List.Forall₂ (fun a b => f a = .ok b) as bs := by
  induction as generalizing bs with
  | nil =>
    constructor
    · intro done
      cases done
      exact List.Forall₂.nil
    · intro all
      cases all
      rfl
  | cons a as ih =>
    rw [List.mapM_cons]
    constructor
    · intro result
      obtain ⟨b, head, rest⟩ := ok_of_bind result
      obtain ⟨more, tail, done⟩ := ok_of_bind rest
      cases done
      exact List.Forall₂.cons head (ih.mp tail)
    · intro all
      cases all with
      | cons head tail =>
        rw [head, ih.mpr tail]
        rfl

theorem mapM_congr {as : List α} {g : α → Except ε β} (same : ∀ a ∈ as, f a = g a) :
    as.mapM f = as.mapM g := by
  induction as with
  | nil => rfl
  | cons a as ih =>
    have rest := ih fun b member => same b (List.mem_cons_of_mem a member)
    rw [List.mapM_cons, List.mapM_cons, same a List.mem_cons_self, rest]

theorem mapM_mapError (as : List α) (g : ε → ε) :
    as.mapM (fun a => (f a).mapError g) = (as.mapM f).mapError g := by
  induction as with
  | nil => rfl
  | cons a as ih =>
    rw [List.mapM_cons, List.mapM_cons, ih]
    cases f a with
    | error e => rfl
    | ok b => cases as.mapM f <;> rfl

theorem mem_of_mapM_error {as : List α} {e : ε} (failed : as.mapM f = .error e) :
    ∃ a ∈ as, f a = .error e := by
  induction as with
  | nil => cases failed
  | cons a as ih =>
    rw [List.mapM_cons] at failed
    rcases error_of_bind failed with head | ⟨b, _, rest⟩
    · exact ⟨a, List.mem_cons_self, head⟩
    · rcases error_of_bind rest with tail | ⟨more, _, done⟩
      · obtain ⟨x, member, cause⟩ := ih tail
        exact ⟨x, List.mem_cons_of_mem a member, cause⟩
      · cases done

theorem mapM_error {first rest : List α} {a : α} {e : ε}
    (before : ∀ x ∈ first, ∃ b, f x = .ok b) (failed : f a = .error e) :
    (first ++ a :: rest).mapM f = .error e := by
  induction first with
  | nil =>
    rw [List.nil_append, List.mapM_cons, failed]
    rfl
  | cons x first ih =>
    obtain ⟨b, head⟩ := before x List.mem_cons_self
    have tail := ih fun y member => before y (List.mem_cons_of_mem x member)
    rw [List.cons_append, List.mapM_cons, head, tail]
    rfl

end Runs

namespace Bytes

variable {bs : Bytes} {offset : Int} {size : Nat}

theorem toNat_append (first second : Bytes) :
    toNat (first ++ second) = toNat first + 256 ^ first.length * toNat second := by
  induction first with
  | nil => simp [toNat]
  | cons b first ih =>
    simp only [List.cons_append, toNat, ih, List.length_cons, Nat.pow_succ]
    rw [Nat.mul_add, ← Nat.mul_assoc, Nat.mul_comm 256 (256 ^ first.length)]
    omega

theorem slice_inside (inside : Inside bs offset size) :
    bs.slice offset (offset + size) = bs.window offset.toNat size := by
  unfold Inside at inside
  have start : bound bs.length offset = offset.toNat := by
    unfold bound
    rw [if_neg (by omega)]
    omega
  have stop : bound bs.length (offset + size) = offset.toNat + size := by
    unfold bound
    rw [if_neg (by omega)]
    omega
  rw [slice, start, stop, window, List.take_drop]

theorem window_take (start size n : Nat) (short : n ≤ size) :
    bs.window start n = (bs.window start size).take n := by
  rw [window, window, List.take_take, Nat.min_eq_left short]

theorem window_cons (inside : Inside bs offset (size + 1)) :
    ∃ b, bs[offset.toNat]? = some b ∧
      bs.window offset.toNat (size + 1) = b :: bs.window (offset.toNat + 1) size := by
  have fits := inside.fits
  have low : offset.toNat < bs.length := by omega
  refine ⟨bs[offset.toNat], List.getElem?_eq_getElem low, ?_⟩
  rw [window, window, List.drop_eq_getElem_cons low, List.take_succ_cons]

theorem get_inside {b : UInt8} (start : 0 ≤ offset) (byte : bs[offset.toNat]? = some b) :
    Storage.get bs offset = .ok b := by
  have found : bs.at? offset = some b := by
    rw [at?, if_pos start, byte]
  rw [Storage.get, found]

theorem takeWhile_nonzero (raw : Bytes) :
    raw.takeWhile (· != 0) = raw.take ((raw.idxOf? 0).getD raw.length) := by
  induction raw with
  | nil => rfl
  | cons b raw ih =>
    by_cases zero : b = 0
    · subst zero
      rfl
    · have other : (b == 0) = false := by simpa using zero
      have more : (b != 0) = true := by simp [bne, other]
      rw [List.takeWhile_cons, if_pos more, ih, List.idxOf?_cons, other]
      cases raw.idxOf? 0 <;> rfl

end Bytes

namespace PlainText

def decode (raw : Bytes) : String := Utf8.decode (raw.takeWhile (· != 0))

theorem read_of_inside {bs : Bytes} {offset : Int} {length : Nat}
    (inside : Inside bs offset length) :
    read bs offset length = decode (bs.window offset.toNat length) := by
  have size := length_window bs offset.toNat length inside.fits
  have slice := slice_inside inside
  unfold Inside at inside
  have start : bound bs.length offset = offset.toNat := by
    unfold bound
    rw [if_neg (by omega)]
    omega
  unfold read decode content find?
  rw [slice, start, takeWhile_nonzero]
  congr 1
  cases place : (bs.window offset.toNat length).idxOf? 0 with
  | none =>
    rw [Option.getD_none, List.take_length]
    exact slice
  | some k =>
    have short : k ≤ length := by
      have := (List.idxOf?_eq_some_iff.mp place).1
      omega
    have prefixed : Inside bs offset k := by
      unfold Inside
      omega
    have stop : Int.ofNat (offset.toNat + k) = offset + k := by
      change ((offset.toNat + k : Nat) : Int) = _
      omega
    simp only [Option.map_some, Option.getD_some, stop]
    rw [slice_inside prefixed, window_take _ _ _ short]

end PlainText

namespace CountedText

def decode (strict : Bool) (raw : Bytes) (offset : Int) : Except Fault String :=
  match raw with
  | [] => .error (.refused .index .absent)
  | b :: rest =>
    if b.toNat < raw.length then .ok (Utf8.decode (rest.take b.toNat))
    else if strict then .error (.countOverflow offset b.toNat raw.length)
    else .ok (Utf8.decode rest)

theorem read_of_inside {strict : Bool} {bs : Bytes} {offset : Int} {length : Nat}
    (positive : 1 ≤ length) (inside : Inside bs offset length) :
    read strict bs offset length = decode strict (bs.window offset.toNat length) offset := by
  obtain ⟨size, rfl⟩ := Nat.exists_eq_add_of_le' positive
  obtain ⟨b, byte, cons⟩ := window_cons inside
  have whole := length_window bs offset.toNat (size + 1) inside.fits
  have start := inside.1
  have next : (offset + 1).toNat = offset.toNat + 1 := by omega
  have slice : ∀ n : Nat, n ≤ size → readSlice bs (offset + 1) n =
      (bs.window (offset.toNat + 1) size).take n := by
    intro n short
    have prefixed : Inside bs (offset + 1) n := by
      unfold Inside at *
      omega
    rw [readSlice, slice_inside prefixed, next, window_take _ _ _ short]
  unfold read content
  rw [get_inside start byte]
  rw [cons] at whole ⊢
  unfold decode
  dsimp only
  rw [whole]
  change Except.bind (if (b.toNat : Int) < (size + 1 : Nat) then _ else _) _ = _
  by_cases short : b.toNat < size + 1
  · rw [if_pos short, if_pos (by omega), slice _ (by omega)]
    rfl
  · rw [if_neg short, if_neg (by omega)]
    cases strict with
    | true => rfl
    | false =>
      have rest : ((size + 1 : Nat) : Int) - 1 = size := by omega
      have all := slice size (Nat.le_refl size)
      rw [List.take_of_length_le (by simp only [window, List.length_take]; omega)] at all
      rw [rest, all]
      rfl

end CountedText

namespace Codec

/-- The value that the bytes of a field stand for. Its place only stands in a fault. -/
def decode (codec : Codec) (strictness : Strictness) (raw : Bytes) (offset : Int) :
    Except Fault Value :=
  match codec with
  | number n order => .ok (n.decode order raw)
  | quad unsigned order => .ok (.quad (Quadword.ofInt (order.arrange raw).toNat unsigned))
  | char => .ok (.text (String.ofList [Char.ofNat (raw.headD 0).toNat]))
  | truth => .ok (.bool (raw.headD 0 != 0))
  | text => .ok (.text (PlainText.decode raw))
  | counted => (CountedText.decode strictness.counts raw offset).map .text

theorem readWord_of_inside (order : ByteOrder) {bs : Bytes} {offset : Int}
    (inside : Inside bs offset 4) :
    readWord order bs offset = .ok (order.arrange (bs.window offset.toNat 4)).toNat := by
  unfold readWord
  rw [Storage.read, if_pos inside]
  rfl

theorem readQuad_of_inside (unsigned : Bool) (order : ByteOrder) {bs : Bytes} {offset : Int}
    (inside : Inside bs offset 8) :
    readQuad unsigned order bs offset =
      .ok (.quad (Quadword.ofInt (order.arrange (bs.window offset.toNat 8)).toNat unsigned)) := by
  have first : Inside bs offset 4 := by unfold Inside at *; omega
  have second : Inside bs (offset + 4) 4 := by unfold Inside at *; omega
  have place : (offset + 4).toNat = offset.toNat + 4 := by have := inside.1; omega
  have parts : bs.window offset.toNat 8 =
      bs.window offset.toNat 4 ++ bs.window (offset.toNat + 4) 4 := by
    rw [window, window, window, ← List.drop_drop, ← List.take_add]
  have one := length_window bs offset.toNat 4 first.fits
  have two := length_window bs (offset.toNat + 4) 4 (by have := inside.fits; omega)
  have words : ∀ low high : Bytes, low.length = 4 → high.length = 4 →
      Quadword.ofWords low.toNat high.toNat unsigned =
        Quadword.ofInt (toNat (low ++ high)) unsigned := by
    intro low high short long
    have lowSmall := toNat_lt low
    have highSmall := toNat_lt high
    rw [short] at lowSmall
    rw [long] at highSmall
    rw [Quadword.ofWords, toNat_append, short]
    congr 1
    omega
  have lengths : ∀ ws : Bytes, ws.length = 4 → (order.arrange ws).length = 4 := by
    intro ws size
    rw [order.length_arrange, size]
  unfold readQuad
  cases order with
  | little =>
    simp only [wordPlaces, Int.add_zero]
    rw [readWord_of_inside _ first, readWord_of_inside _ second, place, parts]
    exact congrArg (fun x => Except.ok (Value.quad x)) (words _ _ (lengths _ one) (lengths _ two))
  | big =>
    have turned : ByteOrder.big.arrange (bs.window offset.toNat 4 ++ bs.window (offset.toNat + 4) 4) =
        ByteOrder.big.arrange (bs.window (offset.toNat + 4) 4) ++
          ByteOrder.big.arrange (bs.window offset.toNat 4) := List.reverse_append
    simp only [wordPlaces, Int.add_zero]
    rw [readWord_of_inside _ first, readWord_of_inside _ second, place, parts, turned]
    exact congrArg (fun x => Except.ok (Value.quad x)) (words _ _ (lengths _ two) (lengths _ one))

theorem read_of_inside {codec : Codec} {length : Nat} (spans : codec.Spans length)
    (strictness : Strictness) {bs : Bytes} {offset : Int} (inside : Inside bs offset length) :
    codec.read strictness bs offset length =
      codec.decode strictness (bs.window offset.toNat length) offset := by
  cases codec with
  | number n order =>
    change length = n.width at spans
    subst spans
    change (Storage.read bs offset n.width).bind _ = _
    rw [Storage.read, if_pos inside]
    rfl
  | quad unsigned order =>
    change length = 8 at spans
    subst spans
    exact readQuad_of_inside unsigned order inside
  | char =>
    change length = 1 at spans
    subst spans
    obtain ⟨b, byte, cons⟩ := window_cons inside
    unfold read decode
    dsimp only
    rw [get_inside inside.1 byte, cons]
    rfl
  | truth =>
    change length = 1 at spans
    subst spans
    obtain ⟨b, byte, cons⟩ := window_cons inside
    unfold read decode
    dsimp only
    rw [get_inside inside.1 byte, cons]
    rfl
  | text =>
    unfold read decode
    dsimp only
    rw [PlainText.read_of_inside inside]
  | counted =>
    unfold read decode
    dsimp only
    rw [CountedText.read_of_inside spans inside]
    cases CountedText.decode strictness.counts (bs.window offset.toNat length) offset <;> rfl

theorem decode_place {codec : Codec} {strictness : Strictness} {raw : Bytes} {offset : Int}
    {v : Value} (decoded : codec.decode strictness raw offset = .ok v) (other : Int) :
    codec.decode strictness raw other = .ok v := by
  cases codec with
  | counted =>
    obtain ⟨s, found, rfl⟩ := ok_of_map decoded
    have same : CountedText.decode strictness.counts raw other = .ok s := by
      unfold CountedText.decode at *
      split at found
      · cases found
      · split at found
        · rename_i short
          rw [if_pos short]
          exact found
        · rename_i short
          split at found
          · cases found
          · rename_i lenient
            rw [if_neg short, if_neg lenient]
            exact found
    unfold decode
    dsimp only
    rw [same]
    rfl
  | _ => exact decoded

end Codec

namespace Slot

def Reads (slot : Slot) (strictness : Strictness) (bs : Bytes) (v : Value) : Prop :=
  ∃ codec, slot.Uses codec ∧
    codec.decode strictness (bs.window slot.offset.toNat slot.size) slot.offset = .ok v

theorem unpack_of_inside {slot : Slot} {codec : Codec} (uses : slot.Uses codec) (checked : Bool)
    (strictness : Strictness) {bs : Bytes} (inside : Inside bs slot.offset slot.size) (v : Value) :
    slot.unpack codec checked strictness bs = .ok v ↔ slot.Reads strictness bs v := by
  have within : ¬ (checked = true ∧ (bs.length : Int) < slot.stop) := by
    unfold Inside at inside
    unfold stop
    omega
  unfold unpack
  rw [if_neg within, Codec.read_of_inside uses.spans strictness inside, mapError_ok]
  constructor
  · intro decoded
    exact ⟨codec, uses, decoded⟩
  · rintro ⟨other, used, decoded⟩
    cases uses.found.symm.trans used.found
    exact decoded

theorem read_of_unpack {slot : Slot} {codec : Codec} {checked : Bool} {strictness : Strictness}
    {bs : Bytes} {v : Value} (unpacked : slot.unpack codec checked strictness bs = .ok v) :
    codec.read strictness bs slot.offset slot.size = .ok v := by
  unfold unpack at unpacked
  split at unpacked
  · cases unpacked
  · exact mapError_ok.mp unpacked

/-- What unpacking a field comes to. Padding has no value. -/
def unpacked (checked : Bool) (strictness : Strictness) (bs : Bytes) (slot : Slot) :
    Except Fault Value :=
  match slot.codec? with
  | none => .error (.refused .type .absent)
  | some codec => slot.unpack codec checked strictness bs

theorem unpacked_ok {checked : Bool} {strictness : Strictness} {bs : Bytes} {slot : Slot}
    {v : Value} : slot.unpacked checked strictness bs = .ok v ↔
      ∃ codec, slot.codec? = some codec ∧ slot.unpack codec checked strictness bs = .ok v := by
  unfold unpacked
  cases slot.codec? with
  | none => simp
  | some codec => simp

theorem unpacked_eq {slot : Slot} {codec : Codec} (uses : slot.Uses codec) (checked : Bool)
    (strictness : Strictness) {bs : Bytes} (inside : Inside bs slot.offset slot.size) :
    slot.unpacked checked strictness bs =
      (codec.decode strictness (bs.window slot.offset.toNat slot.size) slot.offset).mapError
        (Fault.inUnpacking slot.code.letter slot.offset) := by
  have within : ¬ (checked = true ∧ (bs.length : Int) < slot.stop) := by
    unfold Inside at inside
    unfold stop
    omega
  unfold unpacked unpack
  rw [uses.found]
  dsimp only
  rw [if_neg within, Codec.read_of_inside uses.spans strictness inside]

end Slot

namespace Layout

theorem foldlM_unpackStep (checked : Bool) (strictness : Strictness) (bs : Bytes)
    (slots : List Slot) (read : List Value) :
    slots.foldlM (unpackStep checked strictness bs) read =
      ((slots.filter fun slot => !slot.isPadding).mapM (Slot.unpacked checked strictness bs)).map
        fun values => values.reverse ++ read := by
  induction slots generalizing read with
  | nil => rfl
  | cons slot slots ih =>
    rw [List.foldlM_cons, List.filter_cons]
    cases found : slot.codec? with
    | none =>
      have padding : ¬ (!slot.isPadding) = true := by simp [Slot.isPadding, found]
      have skip : unpackStep checked strictness bs read slot = .ok read := by
        unfold unpackStep
        rw [found]
      rw [if_neg padding, skip]
      exact ih read
    | some codec =>
      have field : (!slot.isPadding) = true := by simp [Slot.isPadding, found]
      have step : unpackStep checked strictness bs read slot =
          (Slot.unpacked checked strictness bs slot).map (· :: read) := by
        unfold unpackStep Slot.unpacked
        rw [found]
      rw [if_pos field, step, List.mapM_cons]
      cases Slot.unpacked checked strictness bs slot with
      | error fault => rfl
      | ok v =>
        refine (ih (v :: read)).trans ?_
        cases (slots.filter fun slot => !slot.isPadding).mapM
            (Slot.unpacked checked strictness bs) with
        | error fault => rfl
        | ok values =>
          change Except.ok (values.reverse ++ v :: read) = .ok ((v :: values).reverse ++ read)
          rw [List.reverse_cons, List.append_assoc, List.singleton_append]

/-- A whole unpacking: a run over the fields, then the fault that ends the walk. -/
theorem unpack_eq (layout : Layout) (checked : Bool) (strictness : Strictness) (bs : Bytes) :
    layout.unpack checked strictness bs =
      (layout.fields.mapM (Slot.unpacked checked strictness bs)).bind fun values =>
        match layout.fault? with
        | some fault => .error fault
        | none => .ok values := by
  unfold unpack
  rw [foldSlots_eq, foldlM_unpackStep]
  change (Except.map _ (layout.fields.mapM (Slot.unpacked checked strictness bs)) >>= _) >>= _ = _
  cases layout.fields.mapM (Slot.unpacked checked strictness bs) with
  | error fault => rfl
  | ok values =>
    cases layout.fault? with
    | some fault => rfl
    | none =>
      change Except.ok (values.reverse ++ []).reverse = _
      rw [List.append_nil, List.reverse_reverse]
      rfl

theorem unpack_congr {first second : Layout} (fields : first.fields = second.fields)
    (faults : first.fault? = second.fault?) (checked : Bool) (strictness : Strictness) (bs : Bytes) :
    first.unpack checked strictness bs = second.unpack checked strictness bs := by
  rw [unpack_eq, unpack_eq, fields, faults]

theorem unpack_fields (layout : Layout) (checked : Bool) (strictness : Strictness) (bs : Bytes)
    (values : List Value) :
    layout.unpack checked strictness bs = .ok values ↔ layout.fault? = none ∧
      List.Forall₂ (fun slot v => ∃ codec, slot.codec? = some codec ∧
        slot.unpack codec checked strictness bs = .ok v) layout.fields values := by
  simp only [← Slot.unpacked_ok, ← mapM_ok]
  rw [unpack_eq]
  constructor
  · intro result
    obtain ⟨read, fields, ended⟩ := ok_of_bind result
    cases whole : layout.fault? with
    | some fault => rw [whole] at ended; cases ended
    | none =>
      rw [whole] at ended
      cases ended
      exact ⟨rfl, fields⟩
  · rintro ⟨whole, fields⟩
    rw [fields, whole]
    rfl

theorem unpack_ok {layout : Layout} {bs : Bytes} (checked : Bool) (strictness : Strictness)
    (uses : ∀ slot ∈ layout.fields, ∃ codec, slot.Uses codec)
    (inside : ∀ slot ∈ layout.fields, Inside bs slot.offset slot.size) (values : List Value) :
    layout.unpack checked strictness bs = .ok values ↔ layout.fault? = none ∧
      List.Forall₂ (fun slot v => slot.Reads strictness bs v) layout.fields values := by
  rw [unpack_fields]
  apply and_congr_right
  intro _
  rw [List.forall₂_iff_zip, List.forall₂_iff_zip]
  apply and_congr_right
  intro _
  apply forall_congr'
  intro slot
  apply forall_congr'
  intro v
  apply imp_congr_right
  intro member
  have field := (List.of_mem_zip member).1
  obtain ⟨codec, used⟩ := uses slot field
  rw [← Slot.unpack_of_inside used checked strictness (inside slot field)]
  constructor
  · rintro ⟨other, found, unpacked⟩
    cases used.found.symm.trans found
    exact unpacked
  · intro unpacked
    exact ⟨codec, used.found, unpacked⟩

end Layout

theorem Format.unpackAt_eq (format : Format) {data : Value} {bs : Bytes}
    (taken : Storage.ofData data = .ok bs) (checked : Bool) (offset : Int) :
    format.unpackAt data checked offset =
      (format.layout offset).unpack checked format.strictness bs := by
  unfold unpackAt
  rw [taken]
  rfl

end BinaryRecord
