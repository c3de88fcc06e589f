/-!
Byte strings, their reading as base-256 numbers, and positions inside them.
A position is an unbounded Int; a negative one counts from the end.
-/
namespace BinaryRecord

abbrev Bytes := List UInt8

namespace Bytes

-- A power is the core library's, also where an algebraic hierarchy offers another.
attribute [local instance (high)] instPowNat

/-- The `w` low digits of `n` in base 256, least significant first. -/
def ofNat : Nat → Nat → Bytes
  | 0, _ => []
  | w + 1, n => UInt8.ofNat (n % 256) :: ofNat w (n / 256)

def toNat : Bytes → Nat
  | [] => 0
  | b :: bs => b.toNat + 256 * toNat bs

theorem length_ofNat (w n : Nat) : (ofNat w n).length = w := by
  induction w generalizing n with
  | zero => rfl
  | succ w ih => simp [ofNat, ih]

theorem toNat_ofNat (w n : Nat) : toNat (ofNat w n) = n % 256 ^ w := by
  induction w generalizing n with
  | zero => simp [ofNat, toNat, Nat.mod_one]
  | succ w ih =>
    have digits : n % (256 * 256 ^ w) = n % 256 + 256 * (n / 256 % 256 ^ w) := Nat.mod_mul
    rw [← Nat.pow_succ'] at digits
    simp only [ofNat, toNat, ih, UInt8.toNat_ofNat', digits]
    omega

theorem toNat_lt (bs : Bytes) : toNat bs < 256 ^ bs.length := by
  induction bs with
  | nil => simp [toNat]
  | cons b bs ih =>
    have := b.toNat_lt
    simp only [toNat, List.length_cons, Nat.pow_succ]
    omega

theorem ofNat_toNat (bs : Bytes) : ofNat bs.length (toNat bs) = bs := by
  induction bs with
  | nil => rfl
  | cons b bs ih =>
    have digit : (b.toNat + 256 * toNat bs) % 256 = b.toNat := by have := b.toNat_lt; omega
    have rest : (b.toNat + 256 * toNat bs) / 256 = toNat bs := by have := b.toNat_lt; omega
    simp [ofNat, toNat, digit, rest, ih]

/-- The bound of a slice: a negative one counts from the end, then the ends of the string hold. -/
def bound (length : Nat) (i : Int) : Nat :=
  if i < 0 then (i + length).toNat else min i.toNat length

def slice (bs : Bytes) (start stop : Int) : Bytes :=
  (bs.take (bound bs.length stop)).drop (bound bs.length start)

/-- The byte at a position counted from either end. -/
def at? (bs : Bytes) (i : Int) : Option UInt8 :=
  if 0 ≤ i then bs[i.toNat]? else if 0 ≤ i + bs.length then bs[(i + bs.length).toNat]? else none

def find? (bs : Bytes) (b : UInt8) (start stop : Int) : Option Nat :=
  ((bs.slice start stop).idxOf? b).map (bound bs.length start + ·)

def window (bs : Bytes) (start size : Nat) : Bytes := (bs.drop start).take size

def splice (bs : Bytes) (start size : Nat) (new : Bytes) : Bytes :=
  bs.take start ++ new ++ bs.drop (start + size)

def overlay (bs : Bytes) (start : Nat) (new : Bytes) : Bytes :=
  bs.take start ++ new ++ bs.drop (start + new.length)

theorem length_overlay (bs : Bytes) (start : Nat) (new : Bytes)
    (fits : start + new.length ≤ bs.length) : (bs.overlay start new).length = bs.length := by
  simp only [overlay, List.length_append, List.length_take, List.length_drop]
  omega

theorem window_overlay (bs : Bytes) (start : Nat) (new : Bytes)
    (fits : start + new.length ≤ bs.length) : (bs.overlay start new).window start new.length = new := by
  have front : (bs.take start).length = start := by simp; omega
  simp only [overlay, window, List.append_assoc, List.drop_append, front]
  simp

theorem overlay_window (bs : Bytes) (start size : Nat) (fits : start + size ≤ bs.length) :
    bs.overlay start (bs.window start size) = bs := by
  have length : (bs.window start size).length = size := by simp [window]; omega
  rw [overlay, length, window, List.append_assoc, ← List.drop_drop, List.take_append_drop,
    List.take_append_drop]

end Bytes
end BinaryRecord
