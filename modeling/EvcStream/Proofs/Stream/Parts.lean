import EvcStream.Stream.Splitter
/-!
# The parts of a stream

The front of the input is either complete, and then nothing behind it can change it, or the input
breaks off in it. So every byte string falls into complete parts and a tail. A string that goes on
behind its tail keeps its parts, and the tail with what follows falls into the others.
-/
namespace EvcStream.Splitter

/-- A complete part of the input: a length that no unit can follow, or a unit behind its length. -/
inductive Part where
  | badLength (bytes : List UInt8) (fault : Fault)
  | unit (framed : List UInt8)
  deriving DecidableEq, Repr

def Part.bytes : Part → List UInt8
  | .badLength bytes _ => bytes
  | .unit framed => framed

def parts (maxUnitSize : Nat) (input : List UInt8) : List Part × List UInt8 :=
  match _ : front maxUnitSize input with
  | .incomplete _ => ([], input)
  | .badLength fault rest =>
    let (later, tail) := parts maxUnitSize rest
    (.badLength (input.take NalUnit.lengthSize) fault :: later, tail)
  | .unit framed rest =>
    let (later, tail) := parts maxUnitSize rest
    (.unit framed :: later, tail)
termination_by input.length
decreasing_by
  · rename_i cutting
    have := front_badLength_length cutting
    simp only [NalUnit.lengthSize] at this
    omega
  · rename_i cutting
    have := front_unit_length cutting
    simp only [NalUnit.lengthSize] at this
    omega

section Front

variable {maxUnitSize : Nat} {input rest framed : List UInt8} {fault : Fault}

theorem front_of_short (short : input.length < NalUnit.lengthSize) :
    front maxUnitSize input =
      .incomplete (if input.isEmpty then 0 else NalUnit.lengthSize - input.length) := by
  unfold front
  rw [cut?_eq_none_iff.mpr short]
  split <;> rfl

/-- Once the length is there, it alone decides which bytes the front needs. -/
theorem front_of_long (long : NalUnit.lengthSize ≤ input.length) :
    front maxUnitSize input =
      match NalUnit.length input with
      | .error fault => .badLength fault (input.drop NalUnit.lengthSize)
      | .ok size =>
        if maxUnitSize < size then
          .badLength (.unitExceedsLimit size maxUnitSize) (input.drop NalUnit.lengthSize)
        else match cut? (NalUnit.lengthSize + size) input with
          | none => .incomplete (NalUnit.lengthSize + size - input.length)
          | some (framed, rest) => .unit framed rest := by
  have nonempty : input.isEmpty = false := by
    cases input with
    | nil => simp [NalUnit.lengthSize] at long
    | cons => rfl
  have whole : cut? NalUnit.lengthSize input =
      some (input.take NalUnit.lengthSize, input.drop NalUnit.lengthSize) :=
    cut?_eq_some_iff.mpr ⟨List.length_take_of_le long, (List.take_append_drop _ _).symm⟩
  unfold front
  rw [nonempty, whole]
  rfl

theorem long_of_complete {found : Front} (h : front maxUnitSize input = found)
    (complete : ∀ missing, found ≠ .incomplete missing) : NalUnit.lengthSize ≤ input.length := by
  apply Nat.le_of_not_lt
  intro short
  rw [front_of_short short] at h
  exact complete _ h.symm

theorem front_badLength (h : front maxUnitSize input = .badLength fault rest) :
    rest = input.drop NalUnit.lengthSize ∧
      (NalUnit.length input = .error fault ∨ ∃ size, NalUnit.length input = .ok size ∧
        maxUnitSize < size ∧ fault = .unitExceedsLimit size maxUnitSize) := by
  rw [front_of_long (long_of_complete h nofun)] at h
  split at h
  · next found counted =>
    cases h
    exact ⟨rfl, Or.inl counted⟩
  · next size counted =>
    split at h
    · next large =>
      cases h
      exact ⟨rfl, Or.inr ⟨size, counted, large, rfl⟩⟩
    · split at h <;> cases h

theorem front_unit (h : front maxUnitSize input = .unit framed rest) :
    input = framed ++ rest ∧ ∃ size, NalUnit.length input = .ok size ∧ size ≤ maxUnitSize ∧
      framed.length = NalUnit.lengthSize + size := by
  rw [front_of_long (long_of_complete h nofun)] at h
  split at h
  · cases h
  · next size counted =>
    split at h
    · cases h
    · next small =>
      split at h
      · cases h
      · next cutting =>
        cases h
        obtain ⟨total, whole⟩ := cut?_eq_some_iff.mp cutting
        exact ⟨whole, size, counted, by omega, total⟩

theorem length_append (long : NalUnit.lengthSize ≤ input.length) (more : List UInt8) :
    NalUnit.length (input ++ more) = NalUnit.length input := by
  have whole : cut? NalUnit.lengthSize input =
      some (input.take NalUnit.lengthSize, input.drop NalUnit.lengthSize) :=
    cut?_eq_some_iff.mpr ⟨List.length_take_of_le long, (List.take_append_drop _ _).symm⟩
  have longer : cut? NalUnit.lengthSize (input ++ more) =
      some (input.take NalUnit.lengthSize, input.drop NalUnit.lengthSize ++ more) := by
    apply cut?_eq_some_iff.mpr
    refine ⟨List.length_take_of_le long, ?_⟩
    rw [← List.append_assoc, List.take_append_drop]
  unfold NalUnit.length
  rw [whole, longer]

theorem front_append_of_badLength (h : front maxUnitSize input = .badLength fault rest)
    (more : List UInt8) :
    front maxUnitSize (input ++ more) = .badLength fault (rest ++ more) := by
  have long := long_of_complete h nofun
  have behind : (input ++ more).drop NalUnit.lengthSize = rest ++ more := by
    rw [(front_badLength h).1, List.drop_append_of_le_length long]
  rw [front_of_long (by rw [List.length_append]; omega), length_append long, behind]
  rcases (front_badLength h).2 with zero | ⟨size, counted, large, rfl⟩
  · rw [zero]
  · simp only [counted, large, if_true]

theorem front_append_of_unit (h : front maxUnitSize input = .unit framed rest)
    (more : List UInt8) : front maxUnitSize (input ++ more) = .unit framed (rest ++ more) := by
  have long := long_of_complete h nofun
  obtain ⟨whole, size, counted, small, total⟩ := front_unit h
  have cutting : cut? (NalUnit.lengthSize + size) (input ++ more) =
      some (framed, rest ++ more) := by
    apply cut?_eq_some_iff.mpr
    exact ⟨total, by rw [whole, List.append_assoc]⟩
  rw [front_of_long (by rw [List.length_append]; omega), length_append long, counted]
  simp only [Nat.not_lt.mpr small, if_false, cutting]

theorem eq_nil_of_missing_zero (h : front maxUnitSize input = .incomplete 0) : input = [] := by
  by_cases short : input.length < NalUnit.lengthSize
  · rw [front_of_short short] at h
    split at h
    · next empty => exact List.isEmpty_iff.mp empty
    · simp only [Front.incomplete.injEq] at h
      omega
  · rw [front_of_long (by omega)] at h
    split at h
    · cases h
    · split at h
      · cases h
      · split at h
        · next cutting =>
          have := cut?_eq_none_iff.mp cutting
          simp only [Front.incomplete.injEq] at h
          omega
        · cases h

end Front

section Parts

variable {maxUnitSize missing : Nat} {input rest framed : List UInt8} {fault : Fault}

theorem parts_of_incomplete (h : front maxUnitSize input = .incomplete missing) :
    parts maxUnitSize input = ([], input) := by
  rw [parts]
  split
  · rfl
  · next cutting => rw [h] at cutting; cases cutting
  · next cutting => rw [h] at cutting; cases cutting

theorem parts_of_badLength (h : front maxUnitSize input = .badLength fault rest) :
    parts maxUnitSize input =
      (.badLength (input.take NalUnit.lengthSize) fault :: (parts maxUnitSize rest).1,
        (parts maxUnitSize rest).2) := by
  rw [parts]
  split
  · next cutting => rw [h] at cutting; cases cutting
  · next cutting => rw [h] at cutting; cases cutting; rfl
  · next cutting => rw [h] at cutting; cases cutting

theorem parts_of_unit (h : front maxUnitSize input = .unit framed rest) :
    parts maxUnitSize input =
      (.unit framed :: (parts maxUnitSize rest).1, (parts maxUnitSize rest).2) := by
  rw [parts]
  split
  · next cutting => rw [h] at cutting; cases cutting
  · next cutting => rw [h] at cutting; cases cutting
  · next cutting => rw [h] at cutting; cases cutting; rfl

theorem parts_bytes (maxUnitSize : Nat) (input : List UInt8) :
    (parts maxUnitSize input).1.flatMap Part.bytes ++ (parts maxUnitSize input).2 = input := by
  fun_induction parts maxUnitSize input with
  | case1 input missing cutting => rfl
  | case2 input fault rest cutting later tail split ih =>
    rw [split] at ih
    dsimp only at ih
    rw [List.flatMap_cons, List.append_assoc, ih, (front_badLength cutting).1]
    exact List.take_append_drop _ _
  | case3 input framed rest cutting later tail split ih =>
    rw [split] at ih
    dsimp only at ih
    rw [List.flatMap_cons, List.append_assoc, ih, (front_unit cutting).1]
    rfl

/-- Bytes that follow leave the parts as they are, and go on with the tail. -/
theorem parts_append (maxUnitSize : Nat) (input more : List UInt8) :
    parts maxUnitSize (input ++ more) =
      ((parts maxUnitSize input).1 ++ (parts maxUnitSize ((parts maxUnitSize input).2 ++ more)).1,
        (parts maxUnitSize ((parts maxUnitSize input).2 ++ more)).2) := by
  -- A complete front is found again with more bytes behind it, so both sides recurse alike.
  fun_induction parts maxUnitSize input with
  | case1 input missing cutting => rfl
  | case2 input fault rest cutting later tail split ih =>
    rw [split] at ih
    have same : (input ++ more).take NalUnit.lengthSize = input.take NalUnit.lengthSize :=
      List.take_append_of_le_length (long_of_complete cutting nofun)
    rw [parts_of_badLength (front_append_of_badLength cutting more), ih, same]
    rfl
  | case3 input framed rest cutting later tail split ih =>
    rw [split] at ih
    rw [parts_of_unit (front_append_of_unit cutting more), ih]
    rfl

end Parts
end EvcStream.Splitter
