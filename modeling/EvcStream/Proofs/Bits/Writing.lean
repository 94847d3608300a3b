import EvcStream.Proofs.Bits.Reading
/-!
# Writing bits and reading them back

A writer has written the bits of all steps that it accepted, one behind the other, whatever bit of
a byte they start at. A reader that takes the same steps over the finished bytes gets the values
back, and then has only the zeros before it that complete the last byte.
-/
namespace EvcStream
namespace BitWriter

def Started (w : BitWriter) : Prop := w.pending.length < 8

variable {w : BitWriter}

theorem Started.fresh : Started {} := Nat.zero_lt_succ 7

theorem push_written (started : w.Started) (bit : Bool) :
    (w.push bit).Started ∧ (w.push bit).written = w.written ++ [bit] := by
  unfold Started at started
  have length : (w.pending ++ [bit]).length = w.pending.length + 1 := List.length_append
  unfold push Started written
  by_cases full : (w.pending ++ [bit]).length = 8
  · have whole := Bits.ofByte_toByte (Nat.le_of_eq full)
    rw [full] at whole
    rw [if_pos full]
    refine ⟨Nat.zero_lt_succ 7, ?_⟩
    simp [whole]
  · rw [if_neg full]
    refine ⟨by dsimp only; omega, ?_⟩
    rw [List.append_assoc]

theorem append_written (started : w.Started) (bits : Bits) :
    (w.append bits).Started ∧ (w.append bits).written = w.written ++ bits := by
  induction bits generalizing w with
  | nil => exact ⟨started, (List.append_nil _).symm⟩
  | cons bit bits ih =>
    obtain ⟨still, pushed⟩ := push_written started bit
    obtain ⟨last, others⟩ := ih still
    refine ⟨last, ?_⟩
    rw [append, List.foldl_cons, ← append, others, pushed, List.append_assoc]
    rfl

theorem finish_written (started : w.Started) :
    ∃ padding < 8, Bits.ofBytes w.finish = w.written ++ List.replicate padding false := by
  unfold Started at started
  unfold finish flush hasPending written
  by_cases empty : w.pending = []
  · refine ⟨0, by decide, ?_⟩
    simp [empty]
  · have some := List.length_pos_iff.mpr empty
    refine ⟨8 - w.pending.length, by omega, ?_⟩
    simp [empty, Bits.ofByte_toByte (Nat.le_of_lt started)]

inductive Step where
  | field (count : Nat) (value : UInt32)
  | ue (value : UInt32)
  | se (value : Int32)
  deriving DecidableEq, Repr

namespace Step

def write : Step → BitWriter → Except WriteError BitWriter
  | field count value => BitWriter.field count value.toNat
  | ue value => BitWriter.ue value.toNat
  | se value => BitWriter.se value.toInt

/-- Fields of more than 32 bits, and the two numbers of 32 bits that have no code word. -/
def Refused : Step → Prop
  | field count _ => 32 < count
  | ue value => value.toNat = 2 ^ 32 - 1
  | se value => value.toInt = -2 ^ 31

instance : DecidablePred Refused := fun step => by
  unfold Refused
  split <;> infer_instance

def fault : Step → WriteError
  | field .. => .bitCount
  | ue _ | se _ => .overflow

def spelling : Step → Bits
  | field count value => Bits.ofNat count value.toNat
  | ue value => ExpGolomb.codeWord value.toNat
  | se value => ExpGolomb.codeWord (ExpGolomb.ofSigned value.toInt)

def read : Step → ReadM Int
  | field count _ => do return (← BitReader.bits count : Nat)
  | ue _ => do return (← BitReader.ue : Nat)
  | se _ => BitReader.se

def value : Step → Int
  | field count value => (value.toNat % 2 ^ count : Nat)
  | ue value => value.toNat
  | se value => value.toInt

theorem ofSigned_lt {value : Int32} (least : ¬ value.toInt = -2 ^ 31) :
    2 * value.toInt.natAbs < 2 ^ 32 ∧ ExpGolomb.ofSigned value.toInt + 1 < 2 ^ 32 := by
  have low := value.le_toInt
  have high := value.toInt_lt
  have small : 2 * value.toInt.natAbs < 2 ^ 32 := by omega
  exact ⟨small, ExpGolomb.ofSigned_codable small⟩

theorem write_refused {step : Step} (refused : step.Refused) (w : BitWriter) :
    step.write w = .error step.fault := by
  cases step with
  | field count value => exact if_pos refused
  | ue value =>
    have last : value.toNat = 2 ^ 32 - 1 := refused
    exact if_neg (by omega)
  | se value =>
    have least : value.toInt = -2 ^ 31 := refused
    exact if_neg (by omega)

theorem write_accepted {step : Step} (accepted : ¬ step.Refused) (w : BitWriter) :
    step.write w = .ok (w.append step.spelling) := by
  cases step with
  | field count value => exact if_neg accepted
  | ue value =>
    have small := value.toNat_lt
    have codable : ¬ value.toNat = 2 ^ 32 - 1 := accepted
    exact if_pos (by omega)
  | se value =>
    obtain ⟨small, codable⟩ := ofSigned_lt accepted
    exact (if_pos small).trans (if_pos codable)

theorem reads_back {step : Step} (accepted : ¬ step.Refused) :
    Reads step.read step.spelling step.value := by
  cases step with
  | field count value =>
    have narrow : (Bits.ofNat count value.toNat).length ≤ 32 := by
      rw [Bits.ofNat_length]
      exact Nat.le_of_not_lt accepted
    have field := BitReader.reads_bits _ narrow
    rw [Bits.ofNat_length, Bits.toNat_ofNat] at field
    exact field.map fun number : Nat => (number : Int)
  | ue value =>
    have small := value.toNat_lt
    unfold Refused at accepted
    have codable : value.toNat + 1 < 2 ^ 32 := by omega
    exact (BitReader.reads_ue codable).map fun number : Nat => (number : Int)
  | se value => exact BitReader.reads_se (ofSigned_lt accepted).2

end Step

/-- Writes the low bits of a value in place, the highest one first. -/
def putBits (value : Nat) : Nat → EStateM WriteError BitWriter Unit
  | 0 => pure ()
  | count + 1 => do
    modify (push · (value.testBit count))
    putBits value count

def putField (count value : Nat) : EStateM WriteError BitWriter Unit := do
  if 32 < count then throw .bitCount
  putBits value count

/-- The zeros of a code word and its digits are two fields, so that the second could be refused
when the first has been written. -/
def putCodeWord (value : Nat) : EStateM WriteError BitWriter Unit := do
  if 2 ^ 32 ≤ value + 1 then throw .overflow
  putField (value + 1).log2 0
  putField ((value + 1).log2 + 1) (value + 1)

def putSigned (value : Int) : EStateM WriteError BitWriter Unit := do
  if 2 ^ 32 ≤ 2 * value.natAbs then throw .overflow
  putCodeWord (ExpGolomb.ofSigned value)

def Step.put : Step → EStateM WriteError BitWriter Unit
  | field count value => putField count value.toNat
  | ue value => putCodeWord value.toNat
  | se value => putSigned value.toInt

theorem putBits_run (value count : Nat) (w : BitWriter) :
    putBits value count w = .ok () (w.append (Bits.ofNat count value)) := by
  induction count generalizing w with
  | zero => rfl
  | succ count ih => exact ih (w.push (value.testBit count))

theorem putField_eq (count value : Nat) (w : BitWriter) :
    putField count value w = match field count value w with
      | .ok next => .ok () next
      | .error fault => .error fault w := by
  unfold putField
  by_cases wide : 32 < count
  · rw [if_pos wide, field, if_pos wide]
    rfl
  · rw [if_neg wide, field, if_neg wide]
    exact putBits_run value count w

/-- No field of a code word is too wide, so that nothing is refused behind its zeros. -/
theorem putCodeWord_eq (value : Nat) (w : BitWriter) :
    putCodeWord value w = match ue value w with
      | .ok next => .ok () next
      | .error fault => .error fault w := by
  unfold putCodeWord ue
  by_cases codable : value + 1 < 2 ^ 32
  · have short : (value + 1).log2 < 32 := (Nat.log2_lt (Nat.succ_ne_zero value)).mpr codable
    rw [if_pos codable, if_neg (Nat.not_le.mpr codable)]
    have zeros := putField_eq (value + 1).log2 0 w
    rw [field, if_neg (by omega), Bits.ofNat_zero] at zeros
    have digits := putField_eq ((value + 1).log2 + 1) (value + 1)
      (w.append (List.replicate (value + 1).log2 false))
    rw [field, if_neg (by omega)] at digits
    refine (bind_run_of_ok zeros).trans (digits.trans ?_)
    dsimp only
    rw [ExpGolomb.codeWord, append, append, append, List.foldl_append]
  · rw [if_neg codable, if_pos (Nat.le_of_not_lt codable)]
    rfl

theorem putSigned_eq (value : Int) (w : BitWriter) :
    putSigned value w = match se value w with
      | .ok next => .ok () next
      | .error fault => .error fault w := by
  unfold putSigned se
  by_cases small : 2 * value.natAbs < 2 ^ 32
  · rw [if_pos small, if_neg (Nat.not_le.mpr small)]
    exact putCodeWord_eq (ExpGolomb.ofSigned value) w
  · rw [if_neg small, if_pos (Nat.le_of_not_lt small)]
    rfl

/-- In place or not, a step writes the same, and nothing is done to a writer that refuses it. -/
theorem Step.put_eq (step : Step) (w : BitWriter) :
    step.put w = match step.write w with
      | .ok next => .ok () next
      | .error fault => .error fault w := by
  cases step with
  | field count value => exact putField_eq count value.toNat w
  | ue value => exact putCodeWord_eq value.toNat w
  | se value => exact putSigned_eq value.toInt w

theorem Step.put_error {step : Step} {fault : WriteError} {next : BitWriter}
    (failed : step.put w = .error fault next) : next = w := by
  rw [Step.put_eq] at failed
  split at failed <;> cases failed
  rfl

/-- Takes a step, or stays as it was if the step is refused. -/
def attempt (w : BitWriter) (step : Step) : BitWriter :=
  match step.write w with
  | .ok next => next
  | .error _ => w

def attemptAll (w : BitWriter) (steps : List Step) : BitWriter := steps.foldl attempt w

def accepted (steps : List Step) : List Step := steps.filter fun step => ¬ step.Refused

def putAll (w : BitWriter) (steps : List Step) : BitWriter :=
  steps.foldl (fun w step => match step.put w with | .ok _ next | .error _ next => next) w

theorem putAll_eq (w : BitWriter) (steps : List Step) : w.putAll steps = w.attemptAll steps := by
  unfold putAll attemptAll
  congr
  funext w step
  rw [Step.put_eq, attempt]
  cases step.write w <;> rfl

theorem attempt_refused {step : Step} (refused : step.Refused) : w.attempt step = w := by
  rw [attempt, Step.write_refused refused]

theorem attempt_accepted {step : Step} (accepted : ¬ step.Refused) :
    w.attempt step = w.append step.spelling := by
  rw [attempt, Step.write_accepted accepted]

theorem attemptAll_written (started : w.Started) (steps : List Step) :
    (w.attemptAll steps).Started ∧
      (w.attemptAll steps).written = w.written ++ (accepted steps).flatMap Step.spelling := by
  induction steps generalizing w with
  | nil => exact ⟨started, (List.append_nil _).symm⟩
  | cons step steps ih =>
    rw [attemptAll, List.foldl_cons, ← attemptAll]
    by_cases refused : step.Refused
    · have dropped : accepted (step :: steps) = accepted steps := by simp [accepted, refused]
      rw [attempt_refused refused, dropped]
      exact ih started
    · have kept : accepted (step :: steps) = step :: accepted steps := by
        simp [accepted, refused]
      obtain ⟨still, written⟩ := append_written started step.spelling
      rw [attempt_accepted refused, kept, List.flatMap_cons, ← List.append_assoc, ← written]
      exact ih still

theorem reads_all {steps : List Step} (all : ∀ step ∈ steps, ¬ step.Refused) :
    Reads (steps.mapM Step.read) (steps.flatMap Step.spelling) (steps.map Step.value) := by
  induction steps with
  | nil => exact Reads.pure []
  | cons step later ih =>
    obtain ⟨first, others⟩ := List.forall_mem_cons.mp all
    rw [List.mapM_cons]
    exact (Step.reads_back first).bind ((ih others).map (step.value :: ·))

/-- In any state a writer refuses just the fields that are too wide and the numbers without a code
word, and then has neither given out nor begun anything. The bytes that it leaves are read back as
the numbers of all other steps, and less than a byte of zeros is left behind them. -/
theorem steps_read_back (steps : List Step) :
    (∀ (w : BitWriter) (step : Step),
      ((∃ fault, step.write w = .error fault) ↔ step.Refused) ∧
      (step.Refused → w.attempt step = w)) ∧
    ∃ s padding, padding < 8 ∧
      ((accepted steps).mapM Step.read).run (BitReader.ofBytes (attemptAll {} steps).finish) =
        .ok ((accepted steps).map Step.value) s ∧
      s.unread = List.replicate padding false := by
  constructor
  · intro w step
    refine ⟨⟨?_, fun refused => ⟨_, Step.write_refused refused w⟩⟩, attempt_refused⟩
    rintro ⟨fault, failed⟩
    by_cases refused : step.Refused
    · exact refused
    · rw [Step.write_accepted refused] at failed
      cases failed
  · obtain ⟨started, written⟩ := attemptAll_written Started.fresh steps
    obtain ⟨padding, few, finished⟩ := finish_written started
    have unread : (BitReader.ofBytes (attemptAll {} steps).finish).unread =
        (accepted steps).flatMap Step.spelling ++ List.replicate padding false := by
      refine finished.trans ?_
      rw [written]
      rfl
    have all : ∀ step ∈ accepted steps, ¬ step.Refused := by simp [accepted]
    obtain ⟨s, read, behind⟩ := reads_all all _ _ unread
    exact ⟨s, padding, few, read, behind⟩

end BitWriter
end EvcStream
