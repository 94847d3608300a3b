import EvcStream.Picture
/-!
# Picture order

The picture order count places a picture in output order. A slice header may carry the low bits
of the count, and the count is then the one with these bits that lies closest to the count before.
Otherwise the count follows from the temporal layer: a sub-GOP is decoded layer by layer behind
its anchor, and the place of a picture in decoding order gives its place in output order.

Counts are 32-bit numbers. A count that does not fit is refused, and then nothing changes.
-/
namespace EvcStream

structure PictureOrder where
  /-- The count of the last picture. -/
  count : Int := 0
  /-- The count before it, or the anchor of the current sub-GOP. -/
  previous : Int := 0
  /-- Place of the last picture in its sub-GOP, in decoding order. -/
  place : Int := 0
  deriving DecidableEq, Repr

namespace PictureOrder

def signed32 (n : Int) : Int := n.bmod (2 ^ (32 : Nat))

def InRange (count : Int) : Prop := -2 ^ (31 : Nat) ≤ count ∧ count < 2 ^ (31 : Nat)

instance (count : Int) : Decidable (InRange count) := inferInstanceAs (Decidable (_ ∧ _))

def checked (count : Int) : Except Fault Int :=
  if InRange count then .ok count else .error .orderOverflow

/-- The part of the count above the low bits: a step further if the low bits fell by half their
range or more, a step back if they rose by more than half of it. -/
def highPart (previous lsb bound : Int) : Except Fault Int :=
  let previousLsb := previous % bound
  let previousHigh := previous - previousLsb
  if lsb < previousLsb ∧ bound / 2 ≤ previousLsb - lsb then checked (previousHigh + bound)
  else if previousLsb < lsb ∧ bound / 2 < lsb - previousLsb then checked (previousHigh - bound)
  else .ok previousHigh

def deriveCoded (order : PictureOrder) (isIdr : Bool) (width lsb : Nat) :
    Except Fault PictureOrder :=
  let bound := signed32 (2 ^ width)
  if lsb < bound then do
    let high ← if isIdr then pure 0 else highPart order.count lsb bound
    let count ← checked (high + lsb)
    return { order with count, previous := order.count }
  else .error (.orderLsbTooLarge lsb bound)

/-- The temporal layer of a place: the anchor has layer 0, and each further layer fills the
places up to the next power of two. -/
def layer (place : Nat) : Nat := if place = 0 then 0 else place.log2 + 1

theorem layer_eq_iff {place temporalId : Nat} (positive : 0 < temporalId) :
    layer place = temporalId ↔ 2 ^ (temporalId - 1) ≤ place ∧ place < 2 ^ temporalId := by
  obtain ⟨t, rfl⟩ : ∃ t, temporalId = t + 1 := ⟨temporalId - 1, by omega⟩
  unfold layer
  split
  · next zero =>
    subst zero
    have := Nat.two_pow_pos t
    simp only [Nat.add_sub_cancel]
    omega
  · next nonzero =>
    simp only [Nat.add_sub_cancel, Nat.add_right_cancel_iff, Nat.log2_eq_iff nonzero]

def distance (temporalId length place : Nat) : Nat :=
  if place < 2 ^ (temporalId - 1) then 2 ^ (temporalId - 1) - place
  else if place < 2 ^ temporalId then 0
  else length - place + 2 ^ (temporalId - 1)

theorem distance_next_lt {temporalId length place : Nat} (positive : 0 < temporalId)
    (fits : 2 ^ temporalId ≤ length) (inside : place < length)
    (elsewhere : layer place ≠ temporalId) :
    distance temporalId length ((place + 1) % length) < distance temporalId length place := by
  rw [Ne, layer_eq_iff positive] at elsewhere
  have lower := Nat.two_pow_pos (temporalId - 1)
  have upper : 2 ^ temporalId = 2 * 2 ^ (temporalId - 1) := by
    rw [← Nat.pow_succ']
    congr 1
    omega
  unfold distance
  generalize 2 ^ (temporalId - 1) = low at *
  by_cases wraps : place + 1 = length
  · rw [wraps, Nat.mod_self]
    repeat' split
    all_goals omega
  · rw [Nat.mod_eq_of_lt (by omega)]
    repeat' split
    all_goals omega

/-- The next place of a layer, from `place` on and around the sub-GOP. -/
def seek (temporalId length : Nat) (positive : 0 < temporalId)
    (fits : 2 ^ temporalId ≤ length) (place : Nat) (inside : place < length) : Nat :=
  if elsewhere : layer place ≠ temporalId then
    have := distance_next_lt positive fits inside elsewhere
    seek temporalId length positive fits ((place + 1) % length) (Nat.mod_lt _ (by omega))
  else place
termination_by distance temporalId length place

/-- The distance of a picture from the anchor in front of it, which it always precedes in output
order: layer `t` holds the odd multiples of `2 ^ (log2Length - t)`. -/
def offset (log2Length temporalId place : Nat) : Int :=
  (2 * place + 1 : Int) * 2 ^ (log2Length - temporalId) - 2 * 2 ^ log2Length

def nextAnchor (order : PictureOrder) (log2Length : Nat) : Except Fault Int :=
  checked (order.previous + signed32 (2 ^ log2Length))

def nextPlace (order : PictureOrder) (log2Length : Nat) : Nat :=
  ((order.place + 1) % (2 ^ log2Length : Nat)).toNat

theorem nextPlace_lt (order : PictureOrder) (log2Length : Nat) :
    order.nextPlace log2Length < 2 ^ log2Length := by
  have positive := Nat.two_pow_pos log2Length
  have := Int.emod_lt_of_pos (order.place + 1) (by omega : (0 : Int) < (2 ^ log2Length : Nat))
  unfold nextPlace
  omega

def deriveImplied (order : PictureOrder) (isIdr : Bool) (log2Length temporalId : Nat) :
    Except Fault PictureOrder :=
  if isIdr then .ok { count := 0, previous := 0, place := -1 }
  else if _ : temporalId = 0 then do
    let anchor ← order.nextAnchor log2Length
    return { count := anchor, previous := anchor, place := 0 }
  else if fits : temporalId ≤ log2Length then do
    let start := order.nextPlace log2Length
    let previous ← if start = 0 then order.nextAnchor log2Length else pure order.previous
    let place := seek temporalId (2 ^ log2Length) (by omega)
      (Nat.pow_le_pow_right (by omega) fits) start (order.nextPlace_lt log2Length)
    let count ← checked (previous + offset log2Length temporalId place)
    return { count, previous, place }
  else .error (.temporalIdTooLarge temporalId (signed32 (2 ^ log2Length)))

def advance (order : PictureOrder) (type : NalUnitType) (temporalId : Nat)
    (sps : SequenceParameterSet) (header : SliceHeader) : Except Fault PictureOrder :=
  if type.isSlice then
    if sps.countsInSlices then
      order.deriveCoded (type = .idr) sps.orderLsbWidth header.orderLsb
    else order.deriveImplied (type = .idr) sps.subGop.log2Length temporalId
  else .error (.noPictureOrder type)

end PictureOrder
end EvcStream
