import BinaryRecord.Proofs.Inverses

/-!
Text fields written and read again. The bytes of either kind of field are those of the text as far as
there is room for them, and strict counting neither writes nor reads a text in part.
-/
namespace BinaryRecord

open Storage Bytes

theorem Storage.Inside.overlay {bs new : Bytes} {offset : Int} {length : Nat}
    (inside : Inside bs offset length) (size : new.length = length) :
    Inside (bs.overlay offset.toNat new) offset length ∧
      (bs.overlay offset.toNat new).window offset.toNat length = new := by
  subst size
  exact ⟨inside.congr (length_overlay bs _ new inside.fits), window_overlay bs _ new inside.fits⟩

namespace PlainText

variable {v : Value} {raw bs : Bytes} {offset : Int} {length : Nat}

theorem write_inside (taken : v.rawText = .ok raw) (inside : Inside bs offset length) :
    write v offset length bs = .ok () (bs.overlay offset.toNat (encode raw length)) := by
  apply (write_edits v offset length bs).written _ _ inside
  rw [taken]
  rfl

theorem read_written (inside : Inside bs offset length) :
    read (bs.overlay offset.toNat (encode raw length)) offset length =
      decode (encode raw length) := by
  obtain ⟨within, window⟩ := inside.overlay (length_encode raw length)
  rw [read_of_inside within, window]

end PlainText

namespace CountedText

variable {strict : Bool} {v : Value} {raw bs : Bytes} {offset : Int} {length : Nat}

theorem write_inside (taken : v.rawText = .ok raw) (positive : 1 ≤ length)
    (inside : Inside bs offset length) (accepted : strict = true → raw.length ≤ room length) :
    write strict v offset length bs = .ok () (bs.overlay offset.toNat (stored raw length)) := by
  have short : ¬ (room length < raw.length ∧ strict = true) := by
    rintro ⟨long, refusing⟩
    have := accepted refusing
    omega
  apply (write_edits strict v offset positive bs).written _ _ inside
  rw [taken]
  exact (encode_eq strict raw offset length).trans (if_neg short)

theorem write_refused (taken : v.rawText = .ok raw) (positive : 1 ≤ length)
    (inside : Inside bs offset length) (long : room length < raw.length) :
    write true v offset length bs = .error (.countedTooLong offset raw.length length) bs := by
  apply (write_edits true v offset positive bs).refused _ _ inside
  rw [taken]
  exact (encode_eq true raw offset length).trans (if_pos ⟨long, rfl⟩)

/-- What is written is the field of the text, and strict counting writes no text in part. -/
theorem write_ok (taken : v.rawText = .ok raw) (positive : 1 ≤ length)
    (inside : Inside bs offset length) {after : Bytes} :
    write strict v offset length bs = .ok () after ↔
      (strict = true → raw.length ≤ room length) ∧
        after = bs.overlay offset.toNat (stored raw length) := by
  by_cases accepted : strict = true → raw.length ≤ room length
  · rw [write_inside taken positive inside accepted, and_iff_right accepted]
    simp [eq_comm]
  · obtain ⟨rfl, long⟩ := Classical.not_imp.mp accepted
    simp [write_refused taken positive inside (Nat.not_le.mp long), long]

theorem read_written (positive : 1 ≤ length) (inside : Inside bs offset length) (strict : Bool) :
    read strict (bs.overlay offset.toNat (stored raw length)) offset length =
      .ok (Utf8.decode (raw.take (room length))) := by
  obtain ⟨within, window⟩ := inside.overlay (length_stored raw positive)
  rw [read_of_inside positive within, window, decode_stored positive]

theorem read_counted (positive : 1 ≤ length) (inside : Inside bs offset length) :
    ∃ count : UInt8, bs[offset.toNat]? = some count ∧
      (length ≤ count.toNat → ∃ fault, read true bs offset length = .error fault ∧
        fault.class? = some .unpacking ∧ fault.chain = Fault.place 'p' offset) ∧
      (count.toNat < length → ∃ s, read true bs offset length = .ok s ∧
        read false bs offset length = .ok s) := by
  obtain ⟨size, rfl⟩ := Nat.exists_eq_add_of_le' positive
  obtain ⟨count, found, window⟩ := window_cons inside
  have bytes := length_window bs offset.toNat (size + 1) inside.fits
  have reads : ∀ strict, read strict bs offset (size + 1 : Nat) =
      decode strict (bs.window offset.toNat (size + 1)) offset :=
    fun _ => read_of_inside positive inside
  rw [window] at bytes reads
  refine ⟨count, found, ?_, ?_⟩
  · intro more
    have large : ¬ count.toNat < size + 1 := Nat.not_lt.mpr more
    refine ⟨.countOverflow offset count.toNat (size + 1 : Nat), ?_, rfl, rfl⟩
    rw [reads, decode, bytes, if_neg large, if_pos rfl]
  · intro within
    have same : ∀ strict, read strict bs offset (size + 1 : Nat) =
        .ok (Utf8.decode ((bs.window (offset.toNat + 1) size).take count.toNat)) := by
      intro strict
      rw [reads, decode, bytes, if_pos within]
    exact ⟨_, same true, same false⟩

/-- Strict counting keeps a text as a whole or refuses it untouched. It reads whatever was written,
in part or not, and of all other fields it refuses those whose count names more bytes than they have. -/
theorem strict_lossless (taken : v.rawText = .ok raw) (positive : 1 ≤ length)
    (inside : Inside bs offset length) :
    ((∃ after, write true v offset length bs = .ok () after) ↔ raw.length ≤ min (length - 1) 255) ∧
    (∀ after, write true v offset length bs = .ok () after →
      after = bs.overlay offset.toNat (UInt8.ofNat raw.length ::
        (raw ++ List.replicate (length - 1 - raw.length) 0)) ∧
      read true after offset length = .ok (Utf8.decode raw) ∧
      ∀ s, v = .text s → Utf8.decode raw = s) ∧
    (min (length - 1) 255 < raw.length → ∃ fault, write true v offset length bs = .error fault bs ∧
      fault.class? = some .packing ∧ fault.chain = Fault.place 'p' offset) ∧
    ((∃ after, write false v offset length bs = .ok () after) ∧
      ∀ strict after, write strict v offset length bs = .ok () after →
        ∃ s, read true after offset length = .ok s) ∧
    ∃ count : UInt8, bs[offset.toNat]? = some count ∧
      (length ≤ count.toNat → ∃ fault, read true bs offset length = .error fault ∧
        fault.class? = some .unpacking ∧ fault.chain = Fault.place 'p' offset) ∧
      (count.toNat < length → ∃ s, read true bs offset length = .ok s ∧
        read false bs offset length = .ok s) := by
  have written : ∀ strict after, write strict v offset length bs = .ok () after ↔
      (strict = true → raw.length ≤ room length) ∧
        after = bs.overlay offset.toNat (stored raw length) :=
    fun _ _ => write_ok taken positive inside
  refine ⟨⟨?_, ?_⟩, ?_, ?_, ⟨?_, ?_⟩, read_counted positive inside⟩
  · rintro ⟨after, result⟩
    exact ((written true after).mp result).1 rfl
  · intro fits
    exact ⟨_, (written true _).mpr ⟨fun _ => fits, rfl⟩⟩
  · intro after result
    obtain ⟨accepted, rfl⟩ := (written true after).mp result
    have fits := accepted rfl
    refine ⟨by rw [stored_fitting fits], ?_, ?_⟩
    · rw [read_written positive inside, List.take_of_length_le fits]
    · rintro s rfl
      cases taken
      exact Utf8.decode_encode s
  · intro long
    exact ⟨_, write_refused taken positive inside long, rfl, rfl⟩
  · exact ⟨_, (written false _).mpr ⟨nofun, rfl⟩⟩
  · intro strict after result
    obtain ⟨_, rfl⟩ := (written strict after).mp result
    exact ⟨_, read_written positive inside true⟩

/-- Three bytes of text fill a field of four; a field of three is left as it is. -/
theorem strict_lossless_full :
    let bs : Bytes := [9, 9, 9, 9, 9, 9]
    (Value.text "aé").rawText = .ok [97, 0xC3, 0xA9] ∧ Inside bs 1 4 ∧ Inside bs 1 3 ∧
      write true (.text "aé") 1 (4 : Nat) bs = .ok () [9, 3, 97, 0xC3, 0xA9, 9] ∧
      read true [9, 3, 97, 0xC3, 0xA9, 9] 1 (4 : Nat) = .ok (Utf8.decode [97, 0xC3, 0xA9]) ∧
      Utf8.decode [97, 0xC3, 0xA9] = "aé" ∧
      ∃ fault, write true (.text "aé") 1 (3 : Nat) bs = .error fault bs ∧
        fault.class? = some .packing ∧ fault.chain = Fault.place 'p' 1 := by
  intro bs
  have raw : (Value.text "aé").rawText = .ok [97, 0xC3, 0xA9] := rfl
  have four : Inside bs 1 4 := by decide
  have three : Inside bs 1 3 := by decide
  have written : write true (.text "aé") 1 (4 : Nat) bs = .ok () [9, 3, 97, 0xC3, 0xA9, 9] := rfl
  obtain ⟨_, lossless, _⟩ := strict_lossless raw (by decide) four
  obtain ⟨_, kept, same⟩ := lossless _ written
  obtain ⟨_, _, refused, _⟩ := strict_lossless raw (by decide) three
  exact ⟨raw, four, three, written, kept, same _ rfl, refused (by decide)⟩

end CountedText
end BinaryRecord
