import BinaryRecord.Storage

/-!
Windows seen byte by byte, and changes that leave all bytes but some as they are. The window a
change lies in is given by Int bounds, so a field before the start of a storage needs no case.
-/
namespace BinaryRecord.Bytes

theorem length_window (bs : Bytes) (start size : Nat) (fits : start + size ≤ bs.length) :
    (bs.window start size).length = size := by
  simp only [window, List.length_take, List.length_drop]
  omega

theorem getElem?_window (bs : Bytes) (start size i : Nat) :
    (bs.window start size)[i]? = if i < size then bs[start + i]? else none := by
  simp [window, List.getElem?_take]

theorem getElem?_overlay (bs : Bytes) (start : Nat) (new : Bytes)
    (fits : start + new.length ≤ bs.length) (i : Nat) :
    (bs.overlay start new)[i]? =
      if start ≤ i ∧ i < start + new.length then new[i - start]? else bs[i]? := by
  have front : (bs.take start).length = start := by simp; omega
  rw [overlay, List.append_assoc]
  by_cases before : i < start
  · rw [List.getElem?_append_left (by omega), List.getElem?_take_of_lt before, if_neg (by omega)]
  · rw [List.getElem?_append_right (by omega), front]
    by_cases within : i < start + new.length
    · rw [List.getElem?_append_left (by omega), if_pos (by omega)]
    · rw [List.getElem?_append_right (by omega), List.getElem?_drop, if_neg (by omega)]
      congr 1
      omega

theorem window_congr {bs cs : Bytes} {start size : Nat}
    (same : ∀ i, start ≤ i → i < start + size → bs[i]? = cs[i]?) :
    bs.window start size = cs.window start size := by
  apply List.ext_getElem?
  intro i
  rw [getElem?_window, getElem?_window]
  split
  · exact same _ (by omega) (by omega)
  · rfl

section Append

variable {first second : Bytes} {start size : Nat}

theorem window_append_left (fits : start + size ≤ first.length) :
    (first ++ second).window start size = first.window start size := by
  rw [window, window, List.drop_append_of_le_length (by omega),
    List.take_append_of_le_length (by rw [List.length_drop]; omega)]

theorem window_append_right :
    (first ++ second).window (first.length + start) size = second.window start size := by
  rw [window, window, List.drop_length_add_append]

theorem overlay_append_left {new : Bytes} (fits : start + new.length ≤ first.length) :
    (first ++ second).overlay start new = first.overlay start new ++ second := by
  rw [overlay, overlay, List.take_append_of_le_length (by omega),
    List.drop_append_of_le_length fits, List.append_assoc, List.append_assoc, List.append_assoc]

theorem overlay_append_right {new : Bytes} :
    (first ++ second).overlay (first.length + start) new = first ++ second.overlay start new := by
  rw [overlay, overlay, List.take_length_add_append, Nat.add_assoc, List.drop_length_add_append,
    List.append_assoc, List.append_assoc, List.append_assoc]

end Append

theorem overlay_overlay (bs : Bytes) (start : Nat) (first second : Bytes)
    (fits : start + first.length + second.length ≤ bs.length) :
    (bs.overlay start first).overlay (start + first.length) second =
      bs.overlay start (first ++ second) := by
  have length := length_overlay bs start first (by omega)
  apply List.ext_getElem?
  intro i
  rw [getElem?_overlay _ _ _ (by omega), getElem?_overlay _ _ _ (by omega),
    getElem?_overlay _ _ _ (by simp only [List.length_append]; omega), List.length_append]
  by_cases inFirst : start ≤ i ∧ i < start + first.length
  · rw [if_neg (by omega), if_pos inFirst, if_pos (by omega),
      List.getElem?_append_left (by omega)]
  · by_cases inSecond : start + first.length ≤ i ∧ i < start + first.length + second.length
    · rw [if_pos inSecond, if_pos (by omega), List.getElem?_append_right (by omega)]
      congr 1
      omega
    · rw [if_neg inSecond, if_neg inFirst, if_neg (by omega)]

theorem overlay_overlay_before (bs : Bytes) (start : Nat) (first second : Bytes)
    (fits : start + first.length + second.length ≤ bs.length) :
    (bs.overlay (start + first.length) second).overlay start first =
      bs.overlay start (first ++ second) := by
  have length := length_overlay bs (start + first.length) second fits
  apply List.ext_getElem?
  intro i
  rw [getElem?_overlay _ _ _ (by omega), getElem?_overlay _ _ _ fits,
    getElem?_overlay _ _ _ (by simp only [List.length_append]; omega), List.length_append]
  by_cases inFirst : start ≤ i ∧ i < start + first.length
  · rw [if_pos inFirst, if_pos (by omega), List.getElem?_append_left (by omega)]
  · by_cases inSecond : start + first.length ≤ i ∧ i < start + first.length + second.length
    · rw [if_neg inFirst, if_pos inSecond, if_pos (by omega),
        List.getElem?_append_right (by omega)]
      congr 1
      omega
    · rw [if_neg inFirst, if_neg inSecond, if_neg (by omega)]

/-- `after` has the length of `before`, and its bytes too but at the touched places. -/
structure SameExcept (touched : Nat → Prop) (before after : Bytes) : Prop where
  length : after.length = before.length
  untouched : ∀ i, ¬ touched i → after[i]? = before[i]?

namespace SameExcept

theorem refl (touched : Nat → Prop) (bs : Bytes) : SameExcept touched bs bs := by
  constructor
  · rfl
  · intro i _
    rfl

theorem trans {touched : Nat → Prop} {first second third : Bytes}
    (one : SameExcept touched first second) (two : SameExcept touched second third) :
    SameExcept touched first third := by
  constructor
  · exact two.length.trans one.length
  · intro i free
    exact (two.untouched i free).trans (one.untouched i free)

theorem mono {few many : Nat → Prop} {before after : Bytes}
    (change : SameExcept few before after) (more : ∀ i, few i → many i) :
    SameExcept many before after := by
  constructor
  · exact change.length
  · intro i free
    apply change.untouched
    intro touched
    exact free (more i touched)

theorem window {touched : Nat → Prop} {before after : Bytes} {start size : Nat}
    (change : SameExcept touched before after)
    (free : ∀ i, start ≤ i → i < start + size → ¬ touched i) :
    after.window start size = before.window start size := by
  apply window_congr
  intro i low high
  exact change.untouched i (free i low high)

theorem overlay (bs : Bytes) (start : Nat) (new : Bytes) (fits : start + new.length ≤ bs.length) :
    SameExcept (fun i => start ≤ i ∧ i < start + new.length) bs (bs.overlay start new) := by
  constructor
  · exact length_overlay bs start new fits
  · intro i free
    rw [getElem?_overlay bs start new fits, if_neg free]

end SameExcept

end BinaryRecord.Bytes
