import EvcStream.Proofs.PictureOrder
import Mathlib.Algebra.Order.Group.Unbundled.Int
import Mathlib.Data.Int.ModEq
import Mathlib.Data.List.Chain
/-!
# Coded counts

A slice header brings a count without its high bits. As long as no count is further from the one
before than half of what the low bits can tell apart, the full count is recovered: it is the only
one with these low bits around the count before. Of two counts that are equally far the higher one
is meant.
-/
namespace EvcStream.PictureOrder

/-- The numbers around `previous` that their low bits tell apart. -/
def Around (bound previous count : Int) : Prop :=
  previous - bound / 2 < count ∧ count ≤ previous + bound / 2

/-- The number around `previous` with these low bits. -/
def recovered (bound previous lsb : Int) : Int :=
  let lowest := previous - bound / 2 + 1
  lowest + (lsb - lowest) % bound

/-- An even number of values of the low bits, of which the range of counts holds whole rounds. -/
structure CountBound (bound : Int) : Prop where
  positive : 0 < bound
  even : bound / 2 + bound / 2 = bound
  divides : bound ∣ 2 ^ 31

variable {bound previous lsb count : Int}

theorem CountBound.two_pow {width : Nat} (short : width < 31) : CountBound (2 ^ (width + 1)) where
  positive := by exact_mod_cast Nat.two_pow_pos (width + 1)
  even := by
    rw [Int.pow_succ]
    omega
  divides := pow_dvd_pow 2 (by omega)

theorem Around.eq_of_emod_eq {other : Int} (b : CountBound bound)
    (near : Around bound previous count) (close : Around bound previous other)
    (same : count % bound = other % bound) : count = other := by
  have divides : bound ∣ other - count := Int.ModEq.dvd same
  have apart : |other - count| < bound := by
    obtain ⟨nearLow, nearHigh⟩ := near
    obtain ⟨closeLow, closeHigh⟩ := close
    have even := b.even
    rw [abs_lt]
    omega
  have none := Int.eq_zero_of_abs_lt_dvd divides apart
  omega

theorem around_recovered (b : CountBound bound) :
    Around bound previous (recovered bound previous lsb) := by
  have least := Int.emod_nonneg (lsb - (previous - bound / 2 + 1)) (Int.ne_of_gt b.positive)
  have most := Int.emod_lt_of_pos (lsb - (previous - bound / 2 + 1)) b.positive
  have even := b.even
  unfold Around recovered
  dsimp only
  omega

theorem recovered_emod : recovered bound previous lsb % bound = lsb % bound := by
  unfold recovered
  dsimp only
  rw [Int.add_emod_emod, add_sub_cancel]

theorem recovered_unique (b : CountBound bound) :
    count % bound = lsb % bound ∧ Around bound previous count ↔
      count = recovered bound previous lsb := by
  constructor
  · rintro ⟨same, near⟩
    exact near.eq_of_emod_eq b (around_recovered b) (same.trans recovered_emod.symm)
  · rintro rfl
    exact ⟨recovered_emod, around_recovered b⟩

theorem base_recovered (b : CountBound bound) (previous lsb steps : Int)
    (near : Around bound previous (previous - previous % bound + bound * steps + lsb)) :
    previous - previous % bound + bound * steps + lsb = recovered bound previous lsb := by
  refine (recovered_unique b).mp ⟨?_, near⟩
  have base : previous - previous % bound = bound * (previous / bound) := by
    have := Int.mul_ediv_add_emod previous bound
    omega
  rw [base, ← Int.mul_add, Int.add_comm, Int.add_mul_emod_self_left]

/-- A multiple of the bound that is too large or too small for the range stays so with low bits. -/
theorem CountBound.not_inRange_add (b : CountBound bound) {high : Int} (whole : bound ∣ high)
    (least : 0 ≤ lsb) (most : lsb < bound) (outside : ¬ InRange high) : ¬ InRange (high + lsb) := by
  have positive := b.positive
  obtain ⟨steps, rfl⟩ := whole
  obtain ⟨half, range⟩ := b.divides
  unfold InRange at outside ⊢
  by_cases above : 2 ^ 31 ≤ bound * steps
  · omega
  · have below : bound * steps < bound * -half := by
      rw [Int.mul_neg, ← range]
      omega
    have next : bound * (steps + 1) ≤ bound * -half :=
      Int.mul_le_mul_of_nonneg_left
        (Int.lt_of_mul_lt_mul_left below (Int.le_of_lt positive)) (Int.le_of_lt positive)
    rw [Int.mul_add, Int.mul_one, Int.mul_neg, ← range] at next
    omega

/-- To check the part above the low bits first changes nothing. -/
theorem checked_high (b : CountBound bound) {high : Int} (whole : bound ∣ high)
    (least : 0 ≤ lsb) (most : lsb < bound) :
    (checked high >>= fun high => checked (high + lsb)) = checked (high + lsb) := by
  by_cases inRange : InRange high
  · rw [checked_of_inRange inRange]
    rfl
  · rw [checked_of_not_inRange inRange,
      checked_of_not_inRange (b.not_inRange_add whole least most inRange)]
    rfl

theorem highPart_recovers (b : CountBound bound) (least : 0 ≤ lsb) (most : lsb < bound) :
    (highPart previous lsb bound >>= fun high => checked (high + lsb)) =
      checked (recovered bound previous lsb) := by
  have whole : bound ∣ previous - previous % bound := Int.dvd_self_sub_emod
  have lowest := Int.emod_nonneg previous (Int.ne_of_gt b.positive)
  have highest := Int.emod_lt_of_pos previous b.positive
  have even := b.even
  unfold highPart
  dsimp only
  split
  · next fell =>
    have up := base_recovered b previous lsb 1 (by unfold Around; omega)
    rw [Int.mul_one] at up
    rw [checked_high b (Int.dvd_add whole (Int.dvd_refl bound)) least most, up]
  · split
    · next rose =>
      have down := base_recovered b previous lsb (-1) (by unfold Around; omega)
      rw [Int.mul_neg, Int.mul_one] at down
      rw [checked_high b (Int.dvd_sub whole (Int.dvd_refl bound)) least most, Int.sub_eq_add_neg,
        down]
    · next close =>
      have same := base_recovered b previous lsb 0 (by unfold Around; omega)
      rw [Int.mul_zero, Int.add_zero] at same
      exact congrArg checked same

def moveTo (order : PictureOrder) (count : Int) : PictureOrder :=
  { order with count, previous := order.count }

section
variable {width lsb : Nat} (order : PictureOrder)

theorem deriveCoded_nonIdr (bounded : signed32 (2 ^ width) = bound) (b : CountBound bound) :
    order.deriveCoded false width lsb =
      if lsb < bound then order.moveTo <$> checked (recovered bound order.count lsb)
      else .error (.orderLsbTooLarge lsb bound) := by
  unfold deriveCoded
  rw [bounded]
  dsimp only
  split
  · next most =>
    rw [← highPart_recovers b (by omega) most, map_bind]
    rfl
  · rfl

theorem deriveCoded_idr (bounded : signed32 (2 ^ width) = bound) (b : CountBound bound) :
    order.deriveCoded true width lsb =
      if lsb < bound then .ok (order.moveTo lsb) else .error (.orderLsbTooLarge lsb bound) := by
  unfold deriveCoded
  rw [bounded]
  dsimp only
  split
  · next most =>
    have inRange : InRange (0 + lsb) := by
      have := Int.le_of_dvd (by decide) b.divides
      unfold InRange
      omega
    rw [if_pos rfl, pure_bind, checked_of_inRange inRange, Int.zero_add]
    rfl
  · rfl

end

def Carries (bound : Int) (slice : CodedSlice) (count : Int) : Prop :=
  slice.type = .nonIdr ∧ slice.header.orderLsb = count % bound

section
variable {sps : SequenceParameterSet} {width : Nat}
  (coded : sps.log2MaxOrderLsbMinus4 = some width)
  (short : width ≤ SequenceParameterSet.maxLog2MaxOrderLsbMinus4)

include coded

theorem counts_of_coded : sps.countsInSlices = true := by
  rw [SequenceParameterSet.countsInSlices, coded]
  rfl

theorem orderLsbWidth_of_coded : sps.orderLsbWidth = width + 4 := by
  rw [SequenceParameterSet.orderLsbWidth, coded]
  rfl

include short

theorem signed32_maxOrderLsb : signed32 (2 ^ sps.orderLsbWidth) = sps.maxOrderLsb := by
  have : sps.orderLsbWidth < 31 := by
    rw [orderLsbWidth_of_coded coded]
    exact Nat.lt_of_le_of_lt (Nat.add_le_add_right short 4) (by decide)
  rw [signed32_two_pow this, SequenceParameterSet.maxOrderLsb, Int.natCast_pow]
  rfl

theorem countBound_maxOrderLsb : CountBound sps.maxOrderLsb := by
  have b : CountBound (2 ^ (width + 3 + 1)) :=
    .two_pow (Nat.lt_of_le_of_lt (Nat.add_le_add_right short 3) (by decide))
  rw [SequenceParameterSet.maxOrderLsb, orderLsbWidth_of_coded coded]
  exact_mod_cast b

variable {slice : CodedSlice} (order : PictureOrder)

theorem derive_nonIdr (type : slice.type = .nonIdr) :
    (derive sps slice).run order =
      if slice.header.orderLsb < sps.maxOrderLsb then
        if InRange (recovered sps.maxOrderLsb order.count slice.header.orderLsb) then
          .ok (recovered sps.maxOrderLsb order.count slice.header.orderLsb)
            (order.moveTo (recovered sps.maxOrderLsb order.count slice.header.orderLsb))
        else .error .orderOverflow order
      else .error (.orderLsbTooLarge slice.header.orderLsb sps.maxOrderLsb) order := by
  rw [derive_coded false type (counts_of_coded coded),
    deriveCoded_nonIdr order (signed32_maxOrderLsb coded short)
      (countBound_maxOrderLsb coded short)]
  simp only [Int.ofNat_lt, checked]
  split
  · split <;> rfl
  · rfl

theorem derive_idr (type : slice.type = .idr) :
    (derive sps slice).run order =
      if slice.header.orderLsb < sps.maxOrderLsb then
        .ok slice.header.orderLsb (order.moveTo slice.header.orderLsb)
      else .error (.orderLsbTooLarge slice.header.orderLsb sps.maxOrderLsb) order := by
  rw [derive_coded true type (counts_of_coded coded),
    deriveCoded_idr order (signed32_maxOrderLsb coded short) (countBound_maxOrderLsb coded short)]
  simp only [Int.ofNat_lt]
  split <;> rfl

/-- A slice whose count is around the one before gets it back if it fits the range. -/
theorem derive_carried {count : Int} (carried : Carries sps.maxOrderLsb slice count)
    (near : Around sps.maxOrderLsb order.count count) :
    (derive sps slice).run order =
      if InRange count then .ok count (order.moveTo count) else .error .orderOverflow order := by
  have b := countBound_maxOrderLsb coded short
  obtain ⟨type, lsb⟩ := carried
  have same : count % sps.maxOrderLsb = slice.header.orderLsb % sps.maxOrderLsb := by
    rw [lsb, Int.emod_emod_of_dvd _ (Int.dvd_refl _)]
  have most : slice.header.orderLsb < sps.maxOrderLsb := by
    have := Int.emod_lt_of_pos count b.positive
    omega
  rw [derive_nonIdr coded short order type, if_pos most, ← (recovered_unique b).mp ⟨same, near⟩]

/-- A run gives back counts of which each is around the one before, if all fit the range. -/
theorem deriveAll_carried {slices : List CodedSlice} {counts : List Int}
    (carried : List.Forall₂ (Carries sps.maxOrderLsb) slices counts)
    (near : (order.count :: counts).IsChain (Around sps.maxOrderLsb)) :
    (∃ last, (deriveAll sps slices).run order = .ok counts last) ↔
      ∀ count ∈ counts, InRange count := by
  induction carried generalizing order with
  | nil => exact ⟨by simp, fun _ => ⟨order, rfl⟩⟩
  | @cons slice count slices counts first others ih =>
    obtain ⟨close, near⟩ := List.isChain_cons_cons.mp near
    have derived := derive_carried coded short order first close
    rw [List.forall_mem_cons, ← ih (order.moveTo count) near]
    constructor
    · rintro ⟨last, ran⟩
      obtain ⟨next, one, rest⟩ := deriveAll_cons_ok ran
      rw [derived] at one
      split at one
      · next inRange =>
        cases one
        exact ⟨inRange, last, rest⟩
      · cases one
    · rintro ⟨inRange, last, rest⟩
      rw [if_pos inRange] at derived
      exact ⟨last, deriveAll_cons derived rest⟩

end

/-- A slice that starts afresh counts as its low bits say. The count of any other slice is the only
number around the count before that has its low bits. Without such a count, or where it does not
fit the range, nothing changes. So a run gives back all counts that are around each other. -/
theorem coded_counts_recovered {sps : SequenceParameterSet} {width : Nat}
    (coded : sps.log2MaxOrderLsbMinus4 = some width)
    (short : width ≤ SequenceParameterSet.maxLog2MaxOrderLsbMinus4) :
    (∀ (order : PictureOrder) (temporalId : Nat) (header : SliceHeader), ∃ count : Int,
      (∀ other : Int, other % sps.maxOrderLsb = header.orderLsb % sps.maxOrderLsb ∧
        Around sps.maxOrderLsb order.count other ↔ other = count) ∧
      (derive sps ⟨.nonIdr, temporalId, header⟩).run order =
        if header.orderLsb < sps.maxOrderLsb then
          if InRange count then .ok count { order with count, previous := order.count }
          else .error .orderOverflow order
        else .error (.orderLsbTooLarge header.orderLsb sps.maxOrderLsb) order) ∧
    (∀ (order : PictureOrder) (temporalId : Nat) (header : SliceHeader),
      (derive sps ⟨.idr, temporalId, header⟩).run order =
        if header.orderLsb < sps.maxOrderLsb then
          .ok header.orderLsb { order with count := header.orderLsb, previous := order.count }
        else .error (.orderLsbTooLarge header.orderLsb sps.maxOrderLsb) order) ∧
    (∀ (order : PictureOrder) (first : CodedSlice) (later : List CodedSlice) (counts : List Int),
      first.type = .idr → first.header.orderLsb = 0 →
      List.Forall₂ (Carries sps.maxOrderLsb) later counts →
      (0 :: counts).IsChain (Around sps.maxOrderLsb) →
      ((∃ last, (deriveAll sps (first :: later)).run order = .ok (0 :: counts) last) ↔
        ∀ count ∈ counts, InRange count)) := by
  have b := countBound_maxOrderLsb coded short
  refine ⟨?_, ?_, ?_⟩
  · intro order temporalId header
    exact ⟨recovered sps.maxOrderLsb order.count header.orderLsb, fun _ => recovered_unique b,
      derive_nonIdr coded short order rfl⟩
  · intro order temporalId header
    exact derive_idr coded short order rfl
  · intro order first later counts type zero carried near
    have started : (derive sps first).run order = .ok 0 (order.moveTo 0) := by
      rw [derive_idr coded short order type, zero, if_pos (by exact Nat.two_pow_pos _)]
      rfl
    rw [← deriveAll_carried coded short (order.moveTo 0) carried near]
    constructor
    · rintro ⟨last, ran⟩
      obtain ⟨next, one, rest⟩ := deriveAll_cons_ok ran
      cases started.symm.trans one
      exact ⟨last, rest⟩
    · rintro ⟨last, rest⟩
      exact ⟨last, deriveAll_cons started rest⟩

/-- Sixteen values of the low bits: a count that is half of them behind a negative one, and a run
that goes below its start. -/
theorem coded_counts_recovered_below_zero :
    let sps : SequenceParameterSet := { log2MaxOrderLsbMinus4 := some 0 }
    let lsb (orderLsb : Nat) : SliceHeader := { orderLsb }
    let slices := [⟨.nonIdr, 0, lsb 8⟩, ⟨.nonIdr, 1, lsb 1⟩, ⟨.nonIdr, 2, lsb 12⟩]
    (derive sps ⟨.nonIdr, 0, lsb 5⟩).run { count := -3 } = .ok 5 { count := 5, previous := -3 } ∧
      ∃ last, (deriveAll sps (⟨.idr, 0, lsb 0⟩ :: slices)).run {} = .ok [0, 8, 1, -4] last := by
  intro sps lsb slices
  obtain ⟨nonIdr, -, runs⟩ := @coded_counts_recovered sps 0 rfl (by decide)
  constructor
  · obtain ⟨count, only, derived⟩ := nonIdr { count := -3 } 0 (lsb 5)
    have meant : 5 = count := (only 5).mp (by unfold Around; decide)
    subst meant
    exact derived
  · have carried : List.Forall₂ (Carries sps.maxOrderLsb) slices [8, 1, -4] :=
      .cons ⟨rfl, rfl⟩ (.cons ⟨rfl, rfl⟩ (.cons ⟨rfl, rfl⟩ .nil))
    have near : [0, 8, 1, -4].IsChain (Around sps.maxOrderLsb) := by
      unfold Around
      decide
    exact (runs {} ⟨.idr, 0, lsb 0⟩ slices [8, 1, -4] rfl rfl carried near).mpr (by decide)

end EvcStream.PictureOrder
