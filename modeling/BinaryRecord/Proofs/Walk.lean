import BinaryRecord.Proofs.Placement

/-!
The walk in two halves: characters are read to codes with counts, which know nothing of positions,
and the codes are placed one after the other, which knows nothing of characters.
-/
namespace BinaryRecord
namespace Layout

/-- The codes of a format with their counts, 0 where none is written, and the fault that ends it. -/
def scan (strictness : Strictness) (index count : Nat) :
    List Char → List (FieldType × Nat) × Option Fault
  | [] => ([], none)
  | c :: cs =>
    if c.isDigit then scan strictness (index + 1) (count * 10 + (c.toNat - 48)) cs
    else match FieldType.ofLetter? c with
      | none =>
        if strictness.codes then ([], some (.unknownCode c index))
        else scan strictness (index + 1) 0 cs
      | some code =>
        let rest := scan strictness (index + 1) 0 cs
        ((code, count) :: rest.1, rest.2)

def place (convention : Convention) : Int → List (FieldType × Nat) → List Run
  | _, [] => []
  | cursor, (code, count) :: tokens =>
    let run := runAt convention code cursor count
    run :: place convention run.stop tokens

theorem walk_eq (convention : Convention) (strictness : Strictness) (index count : Nat)
    (cursor : Int) (cs : List Char) :
    walk convention strictness index count cursor cs =
      ⟨place convention cursor (scan strictness index count cs).1,
        (scan strictness index count cs).2⟩ := by
  induction cs generalizing index count cursor with
  | nil => rfl
  | cons c cs ih =>
    rw [walk, scan]
    by_cases digit : c.isDigit
    · rw [if_pos digit, if_pos digit, ih]
    · rw [if_neg digit, if_neg digit]
      cases FieldType.ofLetter? c with
      | none =>
        by_cases strict : strictness.codes
        · simp only [strict, if_true, place]
        · simp only [strict]
          exact ih (index + 1) 0 cursor
      | some code => simp only [ih, place]

theorem scan_accepted (strictness : Strictness) (index count : Nat) (cs : List Char)
    (known : strictness.codes = true → ∀ c ∈ cs, c.isDigit = true ∨ FieldType.ofLetter? c ≠ none) :
    (scan strictness index count cs).2 = none := by
  induction cs generalizing index count with
  | nil => rfl
  | cons c cs ih =>
    have rest : strictness.codes = true →
        ∀ c ∈ cs, c.isDigit = true ∨ FieldType.ofLetter? c ≠ none := by
      intro strict d member
      exact known strict d (List.mem_cons_of_mem c member)
    rw [scan]
    by_cases digit : c.isDigit
    · rw [if_pos digit]
      exact ih _ _ rest
    · rw [if_neg digit]
      cases letter : FieldType.ofLetter? c with
      | none =>
        have lenient : ¬ strictness.codes = true := by
          intro strict
          rcases known strict c List.mem_cons_self with h | h
          · exact digit h
          · exact h letter
        simp only [lenient]
        exact ih _ _ rest
      | some code => exact ih _ _ rest

/-- The count that is pending behind some characters. -/
def pending (count : Nat) : List Char → Nat
  | [] => count
  | c :: cs => if c.isDigit then pending (count * 10 + (c.toNat - 48)) cs else pending 0 cs

theorem pending_append (count : Nat) (first second : List Char) :
    pending count (first ++ second) = pending (pending count first) second := by
  induction first generalizing count with
  | nil => rfl
  | cons c first ih =>
    rw [List.cons_append, pending, pending]
    by_cases digit : c.isDigit
    · rw [if_pos digit, if_pos digit, ih]
    · rw [if_neg digit, if_neg digit, ih]

theorem pending_of_last {cs : List Char} (last : ∀ c ∈ cs.getLast?, c.isDigit = false) :
    pending 0 cs = 0 := by
  rcases List.eq_nil_or_concat cs with rfl | ⟨before, c, rfl⟩
  · rfl
  · have other : c.isDigit = false := last c (by simp)
    simp [pending_append, pending, other]

/-- A scan stops at the first fault. Behind a part without one it goes on with the pending count. -/
theorem scan_append (strictness : Strictness) (index count : Nat) (first second : List Char) :
    scan strictness index count (first ++ second) =
      match scan strictness index count first with
      | (tokens, some fault) => (tokens, some fault)
      | (tokens, none) =>
        let rest := scan strictness (index + first.length) (pending count first) second
        (tokens ++ rest.1, rest.2) := by
  induction first generalizing index count with
  | nil => rfl
  | cons c first ih =>
    have place : index + (c :: first).length = index + 1 + first.length := by
      rw [List.length_cons]
      omega
    rw [List.cons_append, scan, scan, pending, place]
    by_cases digit : c.isDigit
    · rw [if_pos digit, if_pos digit, if_pos digit, ih]
    · rw [if_neg digit, if_neg digit, if_neg digit]
      cases FieldType.ofLetter? c with
      | none =>
        by_cases strict : strictness.codes
        · simp only [strict, if_true]
        · simp only [strict]
          exact ih (index + 1) 0
      | some code =>
        simp only [ih]
        generalize scan strictness (index + 1) 0 first = scanned
        obtain ⟨tokens, _ | fault⟩ := scanned <;> rfl

theorem runAt_code (convention : Convention) (code : FieldType) (cursor : Int) (count : Nat) :
    (runAt convention code cursor count).code = code := by
  cases code <;> rfl

theorem runAt_start (convention : Convention) (code : FieldType) (cursor : Int) (count : Nat) :
    (runAt convention code cursor count).start = alignUp cursor (convention.alignment code) := by
  cases code <;> rfl

theorem runAt_codec (convention : Convention) (code : FieldType) (cursor : Int) (count : Nat) :
    (runAt convention code cursor count).codec? = convention.codec? code := by
  cases code <;> rfl

theorem runAt_count (convention : Convention) (code : FieldType) (cursor : Int) (count : Nat) :
    0 < (runAt convention code cursor count).count := by
  cases code <;> simp only [runAt] <;> omega

theorem runAt_size (convention : Convention) (code : FieldType) (cursor : Int) (count : Nat) :
    match code with
    | .text => True
    | .counted => 1 ≤ (runAt convention code cursor count).size
    | code => (runAt convention code cursor count).size = convention.size code := by
  cases code with
  | text => trivial
  | counted => exact Nat.le_max_right count 1
  | _ => rfl

theorem alignment_dvd_size (convention : Convention) (code : FieldType) (cursor : Int)
    (count : Nat) :
    convention.alignment code ∣ (runAt convention code cursor count).size := by
  unfold Convention.alignment
  cases convention.native <;> cases code <;>
    simp [runAt, Convention.size, FieldType.size]

theorem follows_of_mem_runAt {convention : Convention} {code : FieldType} {cursor : Int}
    {count : Nat} {slot : Slot} (member : slot ∈ (runAt convention code cursor count).slots) :
    slot.Follows convention := by
  obtain ⟨k, rfl⟩ := Run.mem_slotsFrom member
  have same := runAt_code convention code cursor count
  refine ⟨?_, ?_, ?_⟩
  · change (runAt convention code cursor count).codec? = _
    rw [runAt_codec]
    exact congrArg convention.codec? same.symm
  · have size := runAt_size convention code cursor count
    cases code <;> exact size
  · change convention.alignment (runAt convention code cursor count).code = 0 ∨
      ((convention.alignment (runAt convention code cursor count).code : Nat) : Int) ∣ _ + _
    rw [same, runAt_start]
    rcases dvd_alignUp cursor (convention.alignment code) with zero | multiple
    · exact Or.inl zero
    · right
      have size := Int.natCast_dvd_natCast.mpr (alignment_dvd_size convention code cursor count)
      exact Int.dvd_add multiple (Int.dvd_mul_of_dvd_right size)

theorem follows_of_mem_place {convention : Convention} {cursor : Int}
    {tokens : List (FieldType × Nat)} {slot : Slot}
    (member : slot ∈ (place convention cursor tokens).flatMap Run.slots) :
    slot.Follows convention := by
  induction tokens generalizing cursor with
  | nil => simp [place] at member
  | cons token tokens ih =>
    simp only [place, List.flatMap_cons, List.mem_append] at member
    rcases member with first | later
    · exact follows_of_mem_runAt first
    · exact ih later

theorem place_ordered (convention : Convention) (cursor : Int) (tokens : List (FieldType × Nat)) :
    Ordered cursor ((place convention cursor tokens).flatMap Run.slots) := by
  induction tokens generalizing cursor with
  | nil => trivial
  | cons token tokens ih =>
    obtain ⟨code, count⟩ := token
    simp only [place, List.flatMap_cons]
    apply Ordered.append
    · apply (Run.slots_ordered _).weaken
      rw [runAt_start]
      exact le_alignUp cursor _
    · rw [Run.finish_slots _ (runAt_count convention code cursor count)]
      exact ih _

theorem place_append (convention : Convention) (cursor : Int) (first second : List (FieldType × Nat)) :
    place convention cursor (first ++ second) = place convention cursor first ++
      place convention (finish cursor ((place convention cursor first).flatMap Run.slots)) second := by
  induction first generalizing cursor with
  | nil => rfl
  | cons token first ih =>
    obtain ⟨code, count⟩ := token
    simp only [List.cons_append, place, List.flatMap_cons, finish_append]
    rw [Run.finish_slots _ (runAt_count convention code cursor count), ih]

theorem finish_place (convention : Convention) (cursor : Int) (tokens : List (FieldType × Nat)) :
    finish cursor ((place convention cursor tokens).flatMap Run.slots) =
      (((place convention cursor tokens).getLast?).map Run.stop).getD cursor := by
  induction tokens generalizing cursor with
  | nil => rfl
  | cons token tokens ih =>
    obtain ⟨code, count⟩ := token
    simp only [place, List.flatMap_cons, finish_append]
    rw [Run.finish_slots _ (runAt_count convention code cursor count), ih, List.getLast?_cons]
    cases (place convention (runAt convention code cursor count).stop tokens).getLast? <;> rfl

theorem place_shapes (convention : Convention) (first second : Int)
    (tokens : List (FieldType × Nat)) :
    ((place convention first tokens).flatMap Run.slots).map Slot.shape =
      ((place convention second tokens).flatMap Run.slots).map Slot.shape := by
  induction tokens generalizing first second with
  | nil => rfl
  | cons token tokens ih =>
    obtain ⟨code, count⟩ := token
    have heads : (runAt convention code first count).slots.map Slot.shape =
        (runAt convention code second count).slots.map Slot.shape := by
      rw [Run.slots, Run.slots, Run.slotsFrom_shapes, Run.slotsFrom_shapes]
      cases code <;> rfl
    simp only [place, List.flatMap_cons, List.map_append, heads]
    rw [ih _ (runAt convention code second count).stop]

theorem runAt_shift (convention : Convention) (code : FieldType) (cursor : Int) (count : Nat)
    {distance : Int} (multiple : (convention.alignment code : Int) ∣ distance) :
    runAt convention code (cursor + distance) count =
      (runAt convention code cursor count).shift distance := by
  have start := alignUp_add cursor multiple
  cases code <;> simp only [runAt, Run.shift, start]

theorem place_shift (convention : Convention) (cursor distance : Int)
    (tokens : List (FieldType × Nat))
    (multiple : ∀ token ∈ tokens, (convention.alignment token.1 : Int) ∣ distance) :
    place convention (cursor + distance) tokens =
      (place convention cursor tokens).map (Run.shift · distance) := by
  induction tokens generalizing cursor with
  | nil => rfl
  | cons token tokens ih =>
    obtain ⟨code, count⟩ := token
    have head := runAt_shift convention code cursor count (multiple _ List.mem_cons_self)
    have rest : ∀ token ∈ tokens, (convention.alignment token.1 : Int) ∣ distance := by
      intro token member
      exact multiple token (List.mem_cons_of_mem _ member)
    simp only [place, List.map_cons]
    rw [head, Run.stop_shift, ih _ rest]

end Layout
end BinaryRecord
