import EvcStream.AccessUnit
import Mathlib.Algebra.Group.Nat.Defs
import Mathlib.Data.List.DropRight
import Mathlib.Order.Bounds.Basic
/-!
# The buffer of an access unit

A buffer holds what has been appended to it since it was cleared. Its capacity is told by the most
that it ever held: the first doubling of the initial capacity that is enough for it. An append that
is refused has asked for more than can be counted, and changes nothing.
-/
namespace EvcStream.UnitBuffer

variable {b c : UnitBuffer} {m n : Nat}

theorem grow_isSome_mono {capacity : Nat} {positive : 0 < capacity} (le : m ≤ n)
    (h : (grow n capacity positive).isSome) : (grow m capacity positive).isSome := by
  fun_induction grow n capacity positive with
  | case1 capacity positive fits =>
    rw [grow, if_pos (Nat.le_trans le fits)]
    rfl
  | case2 capacity positive larger bounded ih =>
    rw [grow, if_pos bounded]
    split
    · rfl
    · exact ih h
  | case3 => cases h

/-- The capacity for some bytes lies on the way to the capacity for others. -/
theorem grow_isSome_of_grow {capacity : Nat} {positive : 0 < capacity}
    {larger : { larger : Nat // 0 < larger }} (doubled : grow m capacity positive = some larger)
    (h : (grow n capacity positive).isSome) : (grow n larger.1 larger.2).isSome := by
  fun_induction grow m capacity positive with
  | case1 capacity positive fits =>
    cases doubled
    exact h
  | case2 capacity positive small bounded ih =>
    apply ih doubled
    rw [grow] at h
    split at h
    · next fits =>
      rw [grow, if_pos (by omega)]
      rfl
    · exact h
  | case3 => cases doubled

theorem grow_isSome_of_half {capacity : Nat} {positive : 0 < capacity} (half : 2 * n ≤ sizeBound) :
    (grow n capacity positive).isSome := by
  fun_induction grow n capacity positive with
  | case1 => rfl
  | case2 capacity positive larger bounded ih => exact ih
  | case3 capacity positive larger unbounded => omega

/-- Doubling the capacity can make room for this many bytes. -/
def CanHold (b : UnitBuffer) (n : Nat) : Prop :=
  n < sizeBound ∧ (grow n b.capacity b.capacity_pos).isSome

instance (b : UnitBuffer) (n : Nat) : Decidable (b.CanHold n) :=
  inferInstanceAs (Decidable (_ ∧ _))

theorem canHold_of_half (b : UnitBuffer) (half : 2 * n ≤ sizeBound) : b.CanHold n := by
  refine ⟨?_, grow_isSome_of_half half⟩
  unfold sizeBound at half ⊢
  omega

theorem CanHold.mono (h : b.CanHold n) (le : m ≤ n) : b.CanHold m :=
  ⟨Nat.lt_of_le_of_lt le h.1, grow_isSome_mono le h.2⟩

theorem CanHold.of_capacity (h : b.CanHold n) (same : c.capacity = b.capacity) :
    c.CanHold n := by
  unfold CanHold
  simp only [same]
  exact h

/-- A buffer refuses bytes for want of room, and for nothing else. -/
theorem append_isOk_iff (b : UnitBuffer) (bytes : List UInt8) :
    (∃ larger, b.append bytes = .ok larger) ↔ b.CanHold (b.length + bytes.length) := by
  unfold append CanHold
  dsimp only
  by_cases small : b.length + bytes.length < sizeBound
  · rw [if_pos small]
    cases grow (b.length + bytes.length) b.capacity b.capacity_pos <;> simp [small]
  · rw [if_neg small]
    simp [small]

theorem append_error {bytes : List UInt8} {fault : Fault} (h : b.append bytes = .error fault) :
    fault = .accessUnitTooLarge := by
  unfold append at h
  dsimp only at h
  split at h
  · split at h
    · cases h
      rfl
    · cases h
  · cases h
    rfl

theorem append_bytes {bytes : List UInt8} (h : b.append bytes = .ok c) :
    c.bytes = b.bytes ++ bytes := by
  unfold append at h
  dsimp only at h
  split at h
  · split at h
    · cases h
    · cases h
      rfl
  · cases h

theorem append_canHold {bytes : List UInt8} (h : b.append bytes = .ok c) (room : b.CanHold n) :
    c.CanHold n := by
  refine ⟨room.1, ?_⟩
  unfold append at h
  dsimp only at h
  split at h
  · split at h
    · cases h
    · next doubled =>
      cases h
      exact grow_isSome_of_grow doubled room.2
  · cases h

/-- Appends bytes in place: first the sizes are checked, then the capacity is raised, then the bytes
are copied. -/
def extend (bytes : List UInt8) : EStateM Fault UnitBuffer Unit := do
  let b ← get
  let needed := b.length + bytes.length
  if sizeBound ≤ needed then throw .accessUnitTooLarge
  if b.capacity < needed then
    match grow needed b.capacity b.capacity_pos with
    | none => throw .accessUnitTooLarge
    | some ⟨capacity, capacity_pos⟩ => modify fun b => { b with capacity, capacity_pos }
  modify fun b => { b with bytes := b.bytes ++ bytes }

/-- Doubles a capacity in at most so many rounds. Gives the capacity that is enough, or nothing if
the doubled one is not a size. -/
def growWithin (needed : Nat) : Nat → Nat → Option (Option Nat)
  | 0, _ => none
  | rounds + 1, capacity =>
    if needed ≤ capacity then some (some capacity)
    else if 2 * capacity < sizeBound then growWithin needed rounds (2 * capacity)
    else some none

/-- No doubling that is a size is enough. -/
def Outgrows (needed capacity : Nat) : Prop :=
  ∃ j, (∀ i ≤ j, capacity * 2 ^ i < needed) ∧ sizeBound ≤ capacity * 2 ^ (j + 1)

section
variable {b c : UnitBuffer} {needed capacity : Nat} {positive : 0 < capacity}
  {larger : { larger : Nat // 0 < larger }} {bytes : List UInt8}

theorem doubled_mul_pow (capacity i : Nat) : 2 * capacity * 2 ^ i = capacity * 2 ^ (i + 1) := by
  rw [Nat.pow_succ, Nat.mul_comm 2, Nat.mul_assoc, Nat.mul_comm 2]

theorem lt_of_doubled {j : Nat} (small : capacity < needed)
    (before : ∀ i < j, 2 * capacity * 2 ^ i < needed) : ∀ i < j + 1, capacity * 2 ^ i < needed := by
  intro i less
  cases i with
  | zero => rwa [Nat.pow_zero, Nat.mul_one]
  | succ i =>
    rw [← doubled_mul_pow]
    exact before i (Nat.lt_of_succ_lt_succ less)

/-- A size of 64 bits is doubled 63 times at most. -/
theorem growWithin_eq {rounds : Nat} (positive : 0 < capacity)
    (enough : sizeBound ≤ capacity * 2 ^ (rounds + 1)) :
    growWithin needed (rounds + 1) capacity =
      some ((grow needed capacity positive).map Subtype.val) := by
  induction rounds generalizing capacity with
  | zero =>
    have last : ¬ 2 * capacity < sizeBound := by omega
    rw [growWithin, grow, if_neg last, if_neg last]
    split <;> rfl
  | succ rounds ih =>
    rw [growWithin, grow]
    split
    · rfl
    · split
      · apply ih
        rwa [doubled_mul_pow]
      · rfl

theorem grow_some (grown : grow needed capacity positive = some larger) :
    ∃ j, larger.1 = capacity * 2 ^ j ∧ needed ≤ capacity * 2 ^ j ∧
      (∀ i < j, capacity * 2 ^ i < needed) ∧ (j = 0 ∨ capacity * 2 ^ j < sizeBound) := by
  fun_induction grow needed capacity positive with
  | case1 capacity positive fits =>
    cases grown
    refine ⟨0, (Nat.mul_one _).symm, by omega, ?_, Or.inl rfl⟩
    intro i less
    exact absurd less (Nat.not_lt_zero i)
  | case2 capacity positive small bounded ih =>
    obtain ⟨j, same, fits, before, size⟩ := ih grown
    rw [doubled_mul_pow] at same fits size
    refine ⟨j + 1, same, fits, lt_of_doubled (Nat.lt_of_not_le small) before, Or.inr ?_⟩
    rcases size with rfl | size
    · omega
    · exact size
  | case3 => cases grown

theorem grow_eq_none_iff (positive : 0 < capacity) :
    grow needed capacity positive = none ↔ Outgrows needed capacity := by
  constructor
  · intro refused
    fun_induction grow needed capacity positive with
    | case1 => cases refused
    | case2 capacity positive small bounded ih =>
      obtain ⟨j, before, beyond⟩ := ih refused
      rw [doubled_mul_pow] at beyond
      refine ⟨j + 1, ?_, beyond⟩
      intro i le
      refine lt_of_doubled (Nat.lt_of_not_le small) ?_ i (Nat.lt_succ_of_le le)
      intro i less
      exact before i (Nat.le_of_lt_succ less)
    | case3 capacity positive small beyond =>
      refine ⟨0, ?_, by omega⟩
      intro i le
      obtain rfl := Nat.le_zero.mp le
      omega
  · rintro ⟨j, before, beyond⟩
    cases grown : grow needed capacity positive with
    | none => rfl
    | some larger =>
      obtain ⟨k, -, fits, -, size⟩ := grow_some grown
      -- The doubling that is enough comes behind those that are not, and is no size any more.
      have behind : j < k := by
        apply Nat.lt_of_not_le
        intro le
        exact Nat.not_lt.mpr fits (before k le)
      have least : capacity * 2 ^ (j + 1) ≤ capacity * 2 ^ k :=
        Nat.mul_le_mul_left _ (Nat.pow_le_pow_right (by decide) behind)
      omega

theorem append_capacity (appended : b.append bytes = .ok c) :
    c.length ≤ c.capacity ∧
      ∃ j, c.capacity = b.capacity * 2 ^ j ∧ ∀ i < j, b.capacity * 2 ^ i < c.length := by
  have length : c.length = b.length + bytes.length := by
    rw [UnitBuffer.length, append_bytes appended, List.length_append]
    rfl
  unfold append at appended
  dsimp only at appended
  split at appended
  · split at appended
    · cases appended
    · next capacity positive grown =>
      obtain ⟨j, same, fits, before, -⟩ := grow_some grown
      cases appended
      rw [length]
      exact ⟨fits.trans (Nat.le_of_eq same.symm), j, same, before⟩
  · cases appended

theorem append_error_iff (b : UnitBuffer) (bytes : List UInt8) :
    (∃ fault, b.append bytes = .error fault) ↔
      sizeBound ≤ b.length + bytes.length ∨ Outgrows (b.length + bytes.length) b.capacity := by
  rw [← grow_eq_none_iff b.capacity_pos]
  unfold append
  dsimp only
  split
  · next small =>
    have counted : ¬ sizeBound ≤ b.length + bytes.length := by omega
    cases grow (b.length + bytes.length) b.capacity b.capacity_pos <;> simp [counted]
  · next large => simp [Nat.le_of_not_lt large]

/-- In place or not, the same is appended, and nothing is done to a buffer that refuses. -/
theorem extend_eq (bytes : List UInt8) (b : UnitBuffer) :
    extend bytes b = match b.append bytes with
      | .ok c => .ok () c
      | .error fault => .error fault b := by
  unfold extend append
  rw [bind_run_of_ok (rfl : (get : EStateM Fault UnitBuffer UnitBuffer) b = .ok b b)]
  dsimp only
  by_cases large : sizeBound ≤ b.length + bytes.length
  · rw [if_pos large, if_neg (Nat.not_lt.mpr large)]
    rfl
  rw [if_neg large, if_pos (Nat.lt_of_not_le large)]
  by_cases full : b.capacity < b.length + bytes.length
  · rw [if_pos full]
    cases grow (b.length + bytes.length) b.capacity b.capacity_pos <;> rfl
  · rw [if_neg full, grow, if_pos (Nat.le_of_not_lt full)]
    rfl

end

inductive Step where
  | append (bytes : List UInt8)
  | clear
  deriving DecidableEq, Repr

def Step.run : Step → EStateM Fault UnitBuffer Unit
  | append bytes => extend bytes
  | clear => modify UnitBuffer.clear

structure Trial where
  step : Step
  succeeded : Bool
  deriving DecidableEq, Repr

def Trial.added : Trial → List UInt8
  | ⟨.append bytes, true⟩ => bytes
  | _ => []

structure History where
  buffer : UnitBuffer
  trials : List Trial := []
  peak : Nat := 0
  deriving DecidableEq, Repr

namespace History

def next (h : History) (step : Step) : History :=
  match step.run h.buffer with
  | .ok _ buffer =>
    { buffer, trials := h.trials ++ [⟨step, true⟩], peak := max h.peak buffer.length }
  | .error _ buffer =>
    { buffer, trials := h.trials ++ [⟨step, false⟩], peak := max h.peak buffer.length }

def ofSteps (capacity : Nat) (steps : List Step) : History :=
  steps.foldl next { buffer := ofCapacity capacity }

def sinceClear (h : History) : List Trial := h.trials.rtakeWhile (·.step ≠ .clear)

/-- The capacity is the first doubling of the initial one that is enough for the peak. -/
structure Coherent (initial : Nat) (h : History) : Prop where
  bytes : h.buffer.bytes = h.sinceClear.flatMap Trial.added
  length : h.buffer.length ≤ h.peak
  capacity : ∃ j, h.buffer.capacity = initial * 2 ^ j ∧
    IsLeast { j | h.peak ≤ initial * 2 ^ j } j

variable {h : History} {initial : Nat}

theorem next_ok {step : Step} {b : UnitBuffer} (ran : step.run h.buffer = .ok () b) :
    h.next step =
      ⟨b, h.trials ++ [⟨step, true⟩], max h.peak b.length⟩ := by
  rw [next, ran]

theorem next_error {step : Step} {b : UnitBuffer} {fault : Fault}
    (ran : step.run h.buffer = .error fault b) :
    h.next step =
      ⟨b, h.trials ++ [⟨step, false⟩], max h.peak b.length⟩ := by
  rw [next, ran]

theorem sinceClear_append (h : History) (b : UnitBuffer) (bytes : List UInt8) (succeeded : Bool)
    (peak : Nat) :
    sinceClear ⟨b, h.trials ++ [⟨.append bytes, succeeded⟩], peak⟩ =
      h.sinceClear ++ [⟨.append bytes, succeeded⟩] :=
  List.rtakeWhile_concat_pos _ _ _ rfl

theorem sinceClear_clear (h : History) (b : UnitBuffer) (succeeded : Bool) (peak : Nat) :
    sinceClear ⟨b, h.trials ++ [⟨.clear, succeeded⟩], peak⟩ = [] :=
  List.rtakeWhile_concat_neg _ _ _ (by simp)

/-- The first doubling that is enough for the peak, and then for more, is the first one that is
enough for both. -/
theorem isLeast_max {peak length j k : Nat} (least : IsLeast { j | peak ≤ initial * 2 ^ j } j)
    (fits : length ≤ initial * 2 ^ j * 2 ^ k) (before : ∀ i < k, initial * 2 ^ j * 2 ^ i < length) :
    IsLeast { j | max peak length ≤ initial * 2 ^ j } (j + k) := by
  constructor
  · have grown : initial * 2 ^ j ≤ initial * 2 ^ (j + k) :=
      Nat.mul_le_mul_left _ (Nat.pow_le_pow_right (by decide) (Nat.le_add_right j k))
    rw [Nat.mul_assoc, ← Nat.pow_add] at fits
    exact Nat.max_le.mpr ⟨Nat.le_trans least.1 grown, fits⟩
  · intro i enough
    obtain ⟨peakFits, lengthFits⟩ := Nat.max_le.mp enough
    obtain ⟨more, rfl⟩ := Nat.exists_eq_add_of_le (least.2 peakFits)
    rw [Nat.pow_add, ← Nat.mul_assoc] at lengthFits
    have late : ¬ more < k := fun early => Nat.not_lt.mpr lengthFits (before more early)
    omega

theorem Coherent.next (coherent : Coherent initial h) (step : Step) :
    Coherent initial (h.next step) := by
  obtain ⟨bytes, length, j, capacity, least⟩ := coherent
  cases step with
  | clear =>
    have same : max h.peak h.buffer.clear.length = h.peak := Nat.max_eq_left (Nat.zero_le _)
    rw [next_ok (rfl : Step.run .clear h.buffer = .ok () h.buffer.clear), same]
    refine ⟨?_, Nat.zero_le _, j, capacity, least⟩
    rw [sinceClear_clear]
    rfl
  | append more =>
    have ran : Step.run (.append more) h.buffer = _ := extend_eq more h.buffer
    cases appended : h.buffer.append more with
    | error fault =>
      rw [appended] at ran
      rw [next_error ran, Nat.max_eq_left length]
      refine ⟨?_, length, j, capacity, least⟩
      rw [sinceClear_append]
      simpa [Trial.added] using bytes
    | ok b =>
      rw [appended] at ran
      obtain ⟨fits, k, grown, before⟩ := append_capacity appended
      rw [capacity] at grown before
      rw [grown] at fits
      rw [next_ok ran]
      refine ⟨?_, Nat.le_max_right _ _, j + k, ?_, isLeast_max least fits before⟩
      · rw [sinceClear_append, append_bytes appended, bytes]
        simp [Trial.added]
      · rw [grown, Nat.pow_add, Nat.mul_assoc]

theorem ofSteps_coherent (capacity : Nat) (steps : List Step) :
    Coherent (max capacity 1) (ofSteps capacity steps) := by
  have start : Coherent (max capacity 1) { buffer := ofCapacity capacity } := by
    refine ⟨rfl, Nat.le_refl 0, 0, (Nat.mul_one _).symm, Nat.zero_le _, ?_⟩
    intro j _
    exact Nat.zero_le j
  suffices run : ∀ h, Coherent (max capacity 1) h → Coherent (max capacity 1) (steps.foldl next h)
    from run _ start
  intro h coherent
  induction steps generalizing h with
  | nil => exact coherent
  | cons step steps ih => exact ih _ (coherent.next step)

end History

/-- After any appends and clears a buffer holds what has been appended, where it was not refused,
since it was cleared, and its capacity is the first doubling of the initial one that is enough for
the most that there has been. The next append ends; it is refused only if what is needed, or each
doubling that would be enough, is not a size, and then the buffer is as it was. -/
theorem buffer_refines (capacity : Nat) (steps : List Step) :
    let h := History.ofSteps capacity steps
    let b := h.buffer
    b.bytes = h.sinceClear.flatMap Trial.added ∧
    b.length ≤ b.capacity ∧
    (∃ j, b.capacity = max capacity 1 * 2 ^ j ∧
      IsLeast { j | h.peak ≤ max capacity 1 * 2 ^ j } j) ∧
    ∀ bytes : List UInt8,
      let needed := b.length + bytes.length
      growWithin needed 64 b.capacity =
        some ((grow needed b.capacity b.capacity_pos).map Subtype.val) ∧
      (extend bytes b = match b.append bytes with
        | .ok c => .ok () c
        | .error fault => .error fault b) ∧
      ((∃ fault s, extend bytes b = .error fault s) ↔
        sizeBound ≤ needed ∨ Outgrows needed b.capacity) ∧
      ∀ fault s, extend bytes b = .error fault s → s.bytes = b.bytes ∧ s.capacity = b.capacity := by
  intro h b
  obtain ⟨contents, length, j, doubled, least⟩ := History.ofSteps_coherent capacity steps
  refine ⟨contents, ?_, ⟨j, doubled, least⟩, ?_⟩
  · rw [doubled]
    exact Nat.le_trans length least.1
  intro bytes needed
  have same := extend_eq bytes b
  refine ⟨?_, same, ?_, ?_⟩
  · apply growWithin_eq
    exact Nat.le_mul_of_pos_left _ b.capacity_pos
  · rw [← append_error_iff, same]
    cases b.append bytes <;> simp
  · intro fault s failed
    rw [same] at failed
    cases appended : b.append bytes with
    | ok c =>
      rw [appended] at failed
      cases failed
    | error other =>
      rw [appended] at failed
      cases failed
      exact ⟨rfl, rfl⟩

/-- Thirteen bytes have doubled a capacity of four twice, and it stays so when they are cleared.
More bytes than can be counted are refused then. -/
theorem buffer_refines_cleared :
    let steps : List Step :=
      [.append [1, 2, 3], .append [4, 5, 6, 7, 8, 9, 10, 11, 12, 13], .clear]
    let h := History.ofSteps 4 steps
    let bytes : List UInt8 := List.replicate sizeBound 0
    h.buffer.bytes = [] ∧ h.buffer.capacity = 16 ∧ IsLeast { j | h.peak ≤ 4 * 2 ^ j } 2 ∧
      ∃ fault s, extend bytes h.buffer = .error fault s ∧
        s.bytes = h.buffer.bytes ∧ s.capacity = h.buffer.capacity := by
  intro steps h bytes
  have cleared : h.buffer.bytes = [] := by decide +kernel
  have capacity : h.buffer.capacity = 16 := by decide +kernel
  have many : sizeBound ≤ h.buffer.length + bytes.length := by
    rw [List.length_replicate]
    exact Nat.le_add_left _ _
  obtain ⟨-, -, ⟨j, doubled, least⟩, appends⟩ := buffer_refines 4 steps
  obtain ⟨-, -, refused, unchanged⟩ := appends bytes
  have twice : 2 ^ j = 2 ^ 2 := by
    have total : 16 = 4 * 2 ^ j := capacity.symm.trans doubled
    omega
  obtain rfl : j = 2 := Nat.pow_right_injective (Nat.le_refl 2) twice
  obtain ⟨fault, s, failed⟩ := refused.mpr (Or.inl many)
  exact ⟨cleared, capacity, least, fault, s, failed, unchanged fault s failed⟩

end EvcStream.UnitBuffer
