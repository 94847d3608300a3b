import EvcStream.Proofs.Machine.Order
import EvcStream.Proofs.PictureOrder.Hierarchy
import Mathlib.Algebra.Ring.Parity
/-!
# Implied counts from any order

Pictures get lost, and a sequence parameter set can change the length of the sub-GOP under an
order, so a slice may meet any order. It lands on the next place of its layer, around the sub-GOP
and with a new anchor where the sub-GOP ends. The search for this place comes to an end because
every layer up to that of the length has one, and its count is exact: an odd multiple of the scale
of the layer away from the anchor, and less than a sub-GOP before it.
-/
namespace EvcStream.PictureOrder

/-- The place of a slice of an inner layer: the one behind the last picture if it is of this layer,
and otherwise the first one that is. -/
def landing (order : PictureOrder) (log2Length temporalId : Nat) : Nat :=
  if layer (order.nextPlace log2Length) = temporalId then order.nextPlace log2Length
  else 2 ^ (temporalId - 1)

/-- The order behind a slice that does not start afresh, if counts had no bounds. -/
def landed (order : PictureOrder) (log2Length temporalId : Nat) : PictureOrder :=
  let place := if temporalId = 0 then 0 else order.landing log2Length temporalId
  let previous :=
    if temporalId = 0 ∨ (order.place + 1) % 2 ^ log2Length = 0 then
      order.previous + 2 ^ log2Length
    else order.previous
  { count := previous + shift log2Length place, previous, place }

structure Lands (log2Length temporalId : Nat) (order next : PictureOrder) : Prop where
  place_ge : 2 ^ (temporalId - 1) ≤ next.place
  place_lt : next.place < 2 ^ temporalId
  previous : next.previous =
    if (order.place + 1) % 2 ^ log2Length = 0 then order.previous + 2 ^ log2Length
    else order.previous
  count_gt : next.previous - 2 ^ log2Length < next.count
  count_lt : next.count < next.previous
  odd : ∃ m, Odd m ∧ next.count - next.previous = m * 2 ^ (log2Length - temporalId)

variable {order : PictureOrder} {log2Length temporalId : Nat}

theorem nextPlace_eq_zero_iff :
    order.nextPlace log2Length = 0 ↔ (order.place + 1) % 2 ^ log2Length = 0 := by
  have scale : (0 : Int) < 2 ^ log2Length := by exact_mod_cast Nat.two_pow_pos log2Length
  have least := Int.emod_nonneg (order.place + 1) (Int.ne_of_gt scale)
  unfold nextPlace
  push_cast
  omega

section
variable (order) (positive : 0 < temporalId) (fits : temporalId ≤ log2Length)
include positive fits

theorem layer_landing : layer (order.landing log2Length temporalId) = temporalId := by
  have layers := Nat.pow_le_pow_right Nat.two_pos fits
  rw [landing, ← seek_eq_ite positive layers (order.nextPlace_lt log2Length)]
  exact layer_seek positive layers (order.nextPlace_lt log2Length)

theorem shift_landing :
    shift log2Length (order.landing log2Length temporalId) =
      offset log2Length temporalId (order.landing log2Length temporalId) := by
  have layered := layer_landing order positive fits
  rw [shift, layered]
  refine if_neg fun anchor => ?_
  rw [anchor, layer_zero] at layered
  exact Nat.ne_of_lt positive layered

end

theorem offset_odd (fits : temporalId ≤ log2Length) (place : Nat) :
    ∃ m, Odd m ∧ offset log2Length temporalId place = m * 2 ^ (log2Length - temporalId) := by
  obtain ⟨rest, rfl⟩ := Nat.exists_eq_add_of_le fits
  refine ⟨2 * (place - 2 ^ temporalId) + 1, ⟨_, rfl⟩, ?_⟩
  rw [offset, Nat.add_sub_cancel_left, Int.pow_add]
  ring

theorem landed_zero :
    order.landed log2Length 0 =
      { count := order.previous + 2 ^ log2Length, previous := order.previous + 2 ^ log2Length,
        place := 0 } := by
  simp [landed]

theorem landed_inner (positive : 0 < temporalId) (fits : temporalId ≤ log2Length) :
    order.landed log2Length temporalId =
      let place := order.landing log2Length temporalId
      let previous :=
        if (order.place + 1) % 2 ^ log2Length = 0 then order.previous + 2 ^ log2Length
        else order.previous
      { count := previous + offset log2Length temporalId place, previous, place } := by
  simp only [landed, Nat.ne_of_gt positive, if_false, false_or, shift_landing order positive fits]

theorem lands_landed (positive : 0 < temporalId) (fits : temporalId ≤ log2Length) :
    Lands log2Length temporalId order (order.landed log2Length temporalId) := by
  obtain ⟨first, last⟩ := (layer_eq_iff positive).mp (layer_landing order positive fits)
  have inside := Nat.lt_of_lt_of_le last (Nat.pow_le_pow_right Nat.two_pos fits)
  have near := (shift_bounds inside).1
  have before := offset_neg fits last
  obtain ⟨m, odd, multiple⟩ := offset_odd fits (order.landing log2Length temporalId)
  rw [shift_landing order positive fits] at near
  rw [landed_inner positive fits]
  constructor
  all_goals dsimp only
  · exact_mod_cast first
  · exact_mod_cast last
  · omega
  · omega
  · exact ⟨m, odd, by omega⟩

theorem checked_bind {α : Type} {count : Int} (next : Int → Except Fault α) :
    checked count >>= next = if InRange count then next count else .error .orderOverflow := by
  unfold checked
  split <;> rfl

/-- Nothing but the counts can stand in the way of a slice. -/
theorem deriveImplied_landed (short : log2Length < 31) (fits : temporalId ≤ log2Length)
    (inRange : InRange order.previous) :
    order.deriveImplied false log2Length temporalId =
      if InRange (order.landed log2Length temporalId).previous ∧
          InRange (order.landed log2Length temporalId).count then
        .ok (order.landed log2Length temporalId)
      else .error .orderOverflow := by
  unfold deriveImplied nextAnchor
  rw [if_neg Bool.false_ne_true, signed32_two_pow short]
  by_cases anchor : temporalId = 0
  · subst anchor
    rw [dif_pos rfl, landed_zero, checked_bind]
    simp only [and_self]
    rfl
  have positive := Nat.pos_of_ne_zero anchor
  have sought := seek_eq_ite positive (Nat.pow_le_pow_right Nat.two_pos fits)
    (order.nextPlace_lt log2Length)
  rw [← landing] at sought
  rw [dif_neg anchor, dif_pos fits, landed_inner positive fits]
  simp only [sought, nextPlace_eq_zero_iff]
  by_cases ends : (order.place + 1) % 2 ^ log2Length = 0
  · simp only [if_pos ends, checked_bind, ite_and]
    rfl
  · simp only [if_neg ends, checked_bind, pure_bind, inRange, true_and]
    rfl

theorem deriveImplied_above (short : log2Length < 31) (above : log2Length < temporalId) :
    order.deriveImplied false log2Length temporalId =
      .error (.temporalIdTooLarge temporalId (2 ^ log2Length)) := by
  unfold deriveImplied
  rw [if_neg Bool.false_ne_true, dif_neg (by omega), dif_neg (by omega), signed32_two_pow short]

/-- Whatever order a slice meets, the search for its place ends, with no number out of its bounds
on the way. A layer that the sub-GOP does not have is refused, and so are counts of more than 32
bits, and either leaves the order as it was. -/
theorem derive_lands {sps : SequenceParameterSet} {slice : CodedSlice}
    (implied : sps.countsInSlices = false) (short : sps.subGop.log2Length ≤ 29)
    (type : slice.type = .nonIdr) (low : -1 ≤ order.place) (high : order.place < 2 ^ 31 - 1)
    (inRange : InRange order.previous) :
    let log2Length := sps.subGop.log2Length
    let next := order.landed log2Length slice.temporalId
    Machine.advanceOrder order slice.type slice.temporalId sps slice.header =
        .ok (order.advance slice.type slice.temporalId sps slice.header) ∧
      (derive sps slice).run order =
        (if log2Length < slice.temporalId then
          .error (.temporalIdTooLarge slice.temporalId (2 ^ log2Length)) order
        else if InRange next.previous ∧ InRange next.count then .ok next.count next
        else .error .orderOverflow order) ∧
      (slice.temporalId = 0 →
        next.count = order.previous + 2 ^ log2Length ∧
          next.previous = order.previous + 2 ^ log2Length ∧ next.place = 0) ∧
      (0 < slice.temporalId → slice.temporalId ≤ log2Length →
        Lands log2Length slice.temporalId order next) := by
  intro log2Length next
  refine ⟨?_, ?_, ?_, lands_landed⟩
  · exact Machine.advanceOrder_implied implied short low high
  · rw [derive_implied false type implied]
    by_cases above : log2Length < slice.temporalId
    · rw [if_pos above, deriveImplied_above (by omega) above]
      rfl
    · rw [if_neg above, deriveImplied_landed (by omega) (Nat.le_of_not_lt above) inRange]
      split <;> rfl
  · intro anchor
    unfold next
    rw [anchor, landed_zero]
    exact ⟨rfl, rfl, rfl⟩

/-- The order stands at place 20 of a sub-GOP of 32 pictures, and the sub-GOPs of the slices have
four. One slice takes the first of the two places of its layer, and for the other one there is no
such layer. -/
theorem derive_lands_in_shorter :
    let sps : SequenceParameterSet := { subGop := { log2Length := 2 } }
    let order : PictureOrder := { count := 9, previous := 32, place := 20 }
    let next : PictureOrder := { count := 29, previous := 32, place := 2 }
    (Machine.advanceOrder order .nonIdr 2 sps {} = .ok (order.advance .nonIdr 2 sps {}) ∧
      (derive sps ⟨.nonIdr, 2, {}⟩).run order = .ok 29 next ∧ Lands 2 2 order next) ∧
    (derive sps ⟨.nonIdr, 3, {}⟩).run order = .error (.temporalIdTooLarge 3 4) order := by
  intro sps order next
  have landing : order.landed 2 2 = next := by decide +kernel
  obtain ⟨machine, derived, -, lands⟩ := @derive_lands order sps ⟨.nonIdr, 2, {}⟩ rfl (by decide)
    rfl (by decide) (by decide) (by decide)
  obtain ⟨-, refused, -, -⟩ := @derive_lands order sps ⟨.nonIdr, 3, {}⟩ rfl (by decide) rfl
    (by decide) (by decide) (by decide)
  refine ⟨⟨machine, ?_, ?_⟩, refused⟩
  · rw [derived]
    simp only [sps, landing]
    rfl
  · rw [← landing]
    exact lands (by decide) (by decide)

end EvcStream.PictureOrder
