import EvcStream.Proofs.Machine.Basic
import EvcStream.Proofs.PictureOrder.Coded
import EvcStream.Proofs.Store.Reachable
/-!
# Picture order on a machine

Counts are signed numbers of 32 bits here. Only the last sum of a count is allowed to leave them,
which is refused; everything on the way has to fit. It does, as the count before fits and the place
stays within the longest sub-GOP, also where a new sequence parameter set makes the sub-GOP shorter
than the place. Implied counts would do so from any place, and in sub-GOPs of up to `2 ^ 29`
pictures.
-/
namespace EvcStream.Machine

open PictureOrder (signed32 checked InRange)

/-- What holds of the order behind any slices. -/
structure Placed (order : PictureOrder) : Prop where
  count : InRange order.count
  previous : InRange order.previous
  place : -1 ≤ order.place
  place_lt : order.place < 2 ^ SubGop.maxLog2Length

theorem Placed.initial : Placed {} := by
  constructor <;> decide

theorem signed32_eq {n : Int} (inRange : InRange n) : signed32 n = n := by
  obtain ⟨low, high⟩ := inRange
  exact Int.bmod_eq_of_le_mul_two (by omega) (by omega)

def orderBound (sps : SequenceParameterSet) : Checked Int := do
  let width ← word 8 (sps.log2MaxOrderLsbMinus4.getD 0 + 4)
  return signed32 (← shl 32 1 width)

def fell (previousLsb lsb bound : Int) : Checked Bool :=
  if lsb < previousLsb then do return bound / 2 ≤ (← int 32 (previousLsb - lsb))
  else return false

def rose (previousLsb lsb bound : Int) : Checked Bool :=
  if previousLsb < lsb then do return bound / 2 < (← int 32 (lsb - previousLsb))
  else return false

/-- The part of the count above the low bits, which a mask tells from the others. -/
def highPart (previous lsb bound : Int) : Checked (Except Fault Int) := do
  let mask ← int 32 (bound - 1)
  let previousLsb := previous % (mask + 1)
  let previousHigh ← int 32 (previous - previousLsb)
  if ← fell previousLsb lsb bound then return checked (previousHigh + bound)
  else if ← rose previousLsb lsb bound then return checked (previousHigh - bound)
  else return .ok previousHigh

def deriveCoded (order : PictureOrder) (isIdr : Bool) (sps : SequenceParameterSet) (lsb : Nat) :
    Checked (Except Fault PictureOrder) := do
  let bound ← orderBound sps
  if lsb < bound then
    match ← if isIdr then pure (.ok 0) else highPart order.count lsb bound with
    | .error fault => return .error fault
    | .ok high =>
      return (checked (high + lsb)).map fun count => { order with count, previous := order.count }
  else return .error (.orderLsbTooLarge lsb bound)

section
variable {sps : SequenceParameterSet} {order next : PictureOrder} {previous lsb bound : Int}

theorem orderBound_eq (short : sps.orderLsbWidth ≤ 16) :
    orderBound sps = .ok (signed32 (2 ^ sps.orderLsbWidth)) := by
  have small : 2 ^ sps.orderLsbWidth < 2 ^ 32 := Nat.pow_lt_pow_right (by decide) (by omega)
  unfold orderBound
  unfold SequenceParameterSet.orderLsbWidth at short small ⊢
  rw [word_eq (by omega)]
  simp only [ok_bind]
  rw [shl_eq_of_lt (by omega) (by omega)]
  simp only [ok_bind, pure_eq_ok, Nat.one_mul]
  norm_cast

/-- The low bits are gone from a number of 32 bits, and a number of 32 bits is left. -/
theorem inRange_high (inRange : InRange previous) (positive : 0 < bound)
    (divides : bound ∣ 2 ^ 31) :
    InRange (previous - previous % bound) := by
  obtain ⟨low, high⟩ := inRange
  obtain ⟨half, whole⟩ := divides
  have rest := Int.emod_nonneg previous (Int.ne_of_gt positive)
  have least : -half ≤ previous / bound := by
    rw [Int.le_ediv_iff_mul_le positive, Int.neg_mul, Int.mul_comm, ← whole]
    exact low
  have multiple := Int.mul_le_mul_of_nonneg_left least (Int.le_of_lt positive)
  rw [Int.mul_neg, ← whole] at multiple
  have split := Int.mul_ediv_add_emod previous bound
  unfold InRange
  omega

theorem highPart_eq (inRange : InRange previous) (positive : 0 < bound) (divides : bound ∣ 2 ^ 31)
    (nonnegative : 0 ≤ lsb) (small : lsb < bound) :
    highPart previous lsb bound = .ok (PictureOrder.highPart previous lsb bound) := by
  have high := inRange_high inRange positive divides
  have rest := Int.emod_nonneg previous (Int.ne_of_gt positive)
  have short := Int.emod_lt_of_pos previous positive
  have large := Int.le_of_dvd (by decide) divides
  unfold highPart PictureOrder.highPart fell rose
  rw [int_eq (by omega) (by omega)]
  simp only [ok_bind, Int.sub_add_cancel]
  rw [int_eq high.1 high.2]
  simp only [ok_bind]
  generalize previous % bound = previousLsb at *
  rw [int_eq (by omega) (by omega), int_eq (by omega) (by omega)]
  by_cases less : lsb < previousLsb
  · have notRose : ¬ previousLsb < lsb := by omega
    by_cases far : bound / 2 ≤ previousLsb - lsb <;> simp [less, far, notRose]
  · by_cases more : previousLsb < lsb
    · by_cases far : bound / 2 < lsb - previousLsb <;> simp [less, more, far]
    · simp [less, more]

theorem deriveCoded_eq {isIdr : Bool} {lsb : Nat} (placed : Placed order)
    (short : sps.orderLsbWidth ≤ 16) :
    deriveCoded order isIdr sps lsb = .ok (order.deriveCoded isIdr sps.orderLsbWidth lsb) := by
  unfold deriveCoded PictureOrder.deriveCoded
  rw [orderBound_eq short, PictureOrder.signed32_two_pow (by omega)]
  simp only [ok_bind]
  split
  · next small =>
    have positive : (0 : Int) < 2 ^ sps.orderLsbWidth := by
      exact_mod_cast Nat.two_pow_pos sps.orderLsbWidth
    have divides : (2 : Int) ^ sps.orderLsbWidth ∣ 2 ^ 31 := pow_dvd_pow 2 (by omega)
    generalize (2 : Int) ^ sps.orderLsbWidth = bound at *
    cases isIdr with
    | true =>
      rw [if_pos rfl, if_pos rfl]
      simp only [pure_eq_ok, ok_bind, pure_bind]
      cases checked (0 + lsb) <;> rfl
    | false =>
      rw [if_neg Bool.false_ne_true, if_neg Bool.false_ne_true,
        highPart_eq placed.count positive divides (Int.natCast_nonneg lsb) small]
      simp only [ok_bind]
      cases PictureOrder.highPart order.count lsb bound with
      | error fault => rfl
      | ok high => cases checked (high + lsb) <;> rfl
  · rfl

end

def leadingZeros (n : Nat) : Nat := if n = 0 then 32 else 31 - n.log2

def layer (place : Int) : Checked Nat :=
  if place ≤ 0 then return 0 else minus 32 (leadingZeros place.toNat)

def following (length place : Int) : Checked Int := do rem 32 (← int 32 (place + 1)) length

/-- The next place of a layer, which has to come within so many steps. -/
def seek (temporalId : Nat) (length : Int) : Nat → Int → Checked Int
  | 0, _ => .error .endless
  | steps + 1, place => do
    if (← layer place) = temporalId then return place
    else seek temporalId length steps (← following length place)

def offset (log2Length temporalId : Nat) (place : Int) : Checked Int := do
  let odd ← int 32 ((← int 32 (2 * place)) + 1)
  let scaled ← shlInt odd (← minus log2Length temporalId)
  int 32 (scaled - (← shlInt 2 log2Length))

def deriveInner (log2Length temporalId : Nat) (length start previous : Int) :
    Checked (Except Fault PictureOrder) := do
  let place ← seek temporalId length length.toNat start
  let offset ← offset log2Length temporalId place
  return (checked (previous + offset)).map fun count => { count, previous, place }

def deriveImplied (order : PictureOrder) (isIdr : Bool) (log2Length temporalId : Nat) :
    Checked (Except Fault PictureOrder) :=
  if isIdr then return .ok { count := 0, previous := 0, place := -1 }
  else do
    let length := signed32 (← shl 32 1 log2Length)
    let anchor := checked (order.previous + length)
    if temporalId = 0 then
      return anchor.map fun count => { count, previous := count, place := 0 }
    else if log2Length < temporalId then return .error (.temporalIdTooLarge temporalId length)
    else
      let start ← following length order.place
      match if start = 0 then anchor else .ok order.previous with
      | .error fault => return .error fault
      | .ok previous => deriveInner log2Length temporalId length start previous

section
variable {order next : PictureOrder} {log2Length temporalId length place : Nat}

theorem layer_eq (small : place < 2 ^ 32) : layer place = .ok (PictureOrder.layer place) := by
  unfold layer PictureOrder.layer leadingZeros
  by_cases zero : place = 0
  · subst zero
    rfl
  · have short := (Nat.log2_lt zero).mpr small
    rw [if_neg (by omega), Int.toNat_natCast, if_neg zero, if_neg zero, minus_eq (by omega)]
    congr 1
    omega

theorem following_eq {place : Int} (low : -1 ≤ place) (high : place < 2 ^ 31 - 1)
    (nonempty : 0 < length) : following length place = .ok ((place + 1) % length) := by
  rw [following, int_eq (by omega) (by omega), ok_bind, rem_eq (by omega)]

/-- The steps suffice as every one brings the next place of the layer closer. -/
theorem seek_eq (positive : 0 < temporalId) (fits : 2 ^ temporalId ≤ length)
    (small : length ≤ 2 ^ 29) (inside : place < length) {steps : Nat}
    (enough : PictureOrder.distance temporalId length place < steps) :
    seek temporalId length steps place =
      .ok (PictureOrder.seek temporalId length positive fits place inside : Nat) := by
  induction steps generalizing place with
  | zero => omega
  | succ steps ih =>
    rw [seek, layer_eq (by omega), PictureOrder.seek]
    simp only [ok_bind]
    by_cases here : PictureOrder.layer place = temporalId
    · rw [if_pos here, dif_neg (Decidable.not_not.mpr here)]
      rfl
    · have closer := PictureOrder.distance_next_lt positive fits inside here
      have rest := ih (Nat.mod_lt (place + 1) (by omega)) (Nat.lt_of_lt_of_le closer (by omega))
      rw [if_neg here, dif_pos here, following_eq (by omega) (by omega) (by omega),
        ok_bind]
      exact rest

theorem shlInt_eq_of_lt {n : Int} {amount : Nat} (short : amount < 32) (nonnegative : 0 ≤ n)
    (small : n * 2 ^ amount < 2 ^ 31) : shlInt n amount = .ok (n * 2 ^ amount) := by
  have scale : (0 : Int) ≤ 2 ^ amount := by exact_mod_cast Nat.zero_le (2 ^ amount)
  have kept := Int.mul_nonneg nonnegative scale
  rw [shlInt_eq short, signed32_eq]
  constructor <;> omega

/-- No distance in a sub-GOP is as long as twice the sub-GOP. -/
theorem offset_eq (short : log2Length ≤ 29) (fits : temporalId ≤ log2Length)
    (inside : place < 2 ^ temporalId) :
    offset log2Length temporalId place = .ok (PictureOrder.offset log2Length temporalId place) := by
  have whole : (2 : Int) ^ log2Length ≤ 2 ^ 29 := by
    exact_mod_cast Nat.pow_le_pow_right Nat.two_pos short
  have narrow : 2 ^ temporalId ≤ 2 ^ 29 :=
    Nat.pow_le_pow_right Nat.two_pos (Nat.le_trans fits short)
  have scale : (0 : Int) ≤ 2 ^ (log2Length - temporalId) := by
    exact_mod_cast Nat.zero_le (2 ^ (log2Length - temporalId))
  have before := PictureOrder.offset_neg fits inside
  have after := Int.mul_nonneg (by omega : (0 : Int) ≤ 2 * place + 1) scale
  unfold offset
  unfold PictureOrder.offset at before ⊢
  rw [int_eq (by omega) (by omega), ok_bind, int_eq (by omega) (by omega), ok_bind, minus_eq fits,
    ok_bind, shlInt_eq_of_lt (by omega) (by omega) (by omega), ok_bind,
    shlInt_eq_of_lt (by omega) (by decide) (by omega), ok_bind]
  exact int_eq (by omega) (by omega)

/-- A walk around the sub-GOP is enough for the next place of a layer. -/
theorem distance_lt (positive : 0 < temporalId) (fits : 2 ^ temporalId ≤ length)
    (inside : place < length) : PictureOrder.distance temporalId length place < length := by
  obtain ⟨t, rfl⟩ := Nat.exists_eq_succ_of_ne_zero (Nat.ne_of_gt positive)
  have lower := Nat.two_pow_pos t
  rw [Nat.pow_succ] at fits
  unfold PictureOrder.distance
  simp only [Nat.succ_eq_add_one, Nat.add_sub_cancel, Nat.pow_succ]
  repeat' split
  all_goals omega

theorem deriveInner_eq {start : Nat} (positive : 0 < temporalId) (fits : temporalId ≤ log2Length)
    (short : log2Length ≤ 29) (inside : start < 2 ^ log2Length) (previous : Int) :
    deriveInner log2Length temporalId (2 ^ log2Length : Nat) start previous = .ok (do
      let place := PictureOrder.seek temporalId (2 ^ log2Length) positive
        (Nat.pow_le_pow_right Nat.two_pos fits) start inside
      let count ← checked (previous + PictureOrder.offset log2Length temporalId place)
      return { count, previous, place }) := by
  have layers := Nat.pow_le_pow_right Nat.two_pos fits
  have small : 2 ^ log2Length ≤ 2 ^ 29 := Nat.pow_le_pow_right Nat.two_pos short
  have layered := PictureOrder.layer_seek positive layers inside
  obtain ⟨-, found⟩ := (PictureOrder.layer_eq_iff positive).mp layered
  unfold deriveInner
  rw [Int.toNat_natCast, seek_eq positive layers small inside (distance_lt positive layers inside),
    ok_bind, offset_eq short fits found, ok_bind]
  dsimp only
  cases checked (previous + PictureOrder.offset log2Length temporalId _) <;> rfl

/-- The place may come from a longer sub-GOP, and be as high as 32 bits allow. -/
theorem deriveImplied_eq {isIdr : Bool} (low : -1 ≤ order.place) (high : order.place < 2 ^ 31 - 1)
    (short : log2Length ≤ 29) :
    deriveImplied order isIdr log2Length temporalId =
      .ok (order.deriveImplied isIdr log2Length temporalId) := by
  have small : 2 ^ log2Length ≤ 2 ^ 29 := Nat.pow_le_pow_right Nat.two_pos short
  unfold deriveImplied PictureOrder.deriveImplied
  cases isIdr with
  | true => rfl
  | false =>
  rw [if_neg Bool.false_ne_true, if_neg Bool.false_ne_true,
    shl_eq_of_lt (by omega) (by omega), ok_bind, Nat.one_mul,
    Nat.cast_pow, Nat.cast_ofNat]
  by_cases anchor : temporalId = 0
  · rw [if_pos anchor, dif_pos anchor]
    unfold PictureOrder.nextAnchor
    cases checked (order.previous + signed32 (2 ^ log2Length)) <;> rfl
  rw [if_neg anchor, dif_neg anchor]
  by_cases fits : temporalId ≤ log2Length
  · rw [if_neg (Nat.not_lt.mpr fits), dif_pos fits]
    have start := order.nextPlace_lt log2Length
    have startEq : (order.place + 1) % (2 ^ log2Length : Nat) = order.nextPlace log2Length := by
      have := Int.emod_nonneg (order.place + 1) (b := (2 ^ log2Length : Nat)) (by omega)
      unfold PictureOrder.nextPlace
      omega
    have lengthEq : signed32 (2 ^ log2Length) = (2 ^ log2Length : Nat) := by
      rw [PictureOrder.signed32_two_pow (by omega)]
      norm_cast
    unfold PictureOrder.nextAnchor
    rw [lengthEq, following_eq low high (Nat.two_pow_pos log2Length), startEq, ok_bind]
    have inner := deriveInner_eq (Nat.pos_of_ne_zero anchor) fits short start
    by_cases first : order.nextPlace log2Length = 0
    · rw [if_pos (by omega)]
      simp only [if_pos first]
      cases checked (order.previous + (2 ^ log2Length : Nat)) with
      | error fault => rfl
      | ok previous => exact inner previous
    · rw [if_neg (by omega)]
      simp only [if_neg first]
      exact inner order.previous
  · rw [if_pos (Nat.lt_of_not_le fits), dif_neg fits]
    rfl

end

def advanceOrder (order : PictureOrder) (type : NalUnitType) (temporalId : Nat)
    (sps : SequenceParameterSet) (header : SliceHeader) : Checked (Except Fault PictureOrder) :=
  if type.isSlice then
    if sps.countsInSlices then deriveCoded order (type = .idr) sps header.orderLsb
    else deriveImplied order (type = .idr) sps.subGop.log2Length temporalId
  else return .error (.noPictureOrder type)

section
variable {order next : PictureOrder} {type : NalUnitType} {temporalId : Nat}
  {sps : SequenceParameterSet} {header : SliceHeader}

theorem advanceOrder_implied (implied : sps.countsInSlices = false)
    (short : sps.subGop.log2Length ≤ 29) (low : -1 ≤ order.place)
    (high : order.place < 2 ^ 31 - 1) :
    advanceOrder order type temporalId sps header =
      .ok (order.advance type temporalId sps header) := by
  unfold advanceOrder PictureOrder.advance
  by_cases slice : type.isSlice = true
  · rw [if_pos slice, if_pos slice, implied, if_neg Bool.false_ne_true, if_neg Bool.false_ne_true]
    exact deriveImplied_eq low high short
  · rw [if_neg slice, if_neg slice]
    rfl

theorem advanceOrder_eq (placed : Placed order) (bounded : sps.Bounded) :
    advanceOrder order type temporalId sps header =
      .ok (order.advance type temporalId sps header) := by
  by_cases coded : sps.countsInSlices = true
  · unfold advanceOrder PictureOrder.advance
    by_cases slice : type.isSlice = true
    · rw [if_pos slice, if_pos slice, if_pos coded, if_pos coded]
      exact deriveCoded_eq placed bounded.orderLsbWidth
    · rw [if_neg slice, if_neg slice]
      rfl
  · exact advanceOrder_implied (eq_false_of_ne_true coded)
      (Nat.le_trans bounded.subGop (by decide)) placed.place
      (Int.lt_trans placed.place_lt (by decide))

theorem inRange_of_checked {count value : Int} (counted : checked count = .ok value) :
    InRange value := by
  by_cases inRange : InRange count
  · rwa [PictureOrder.checked_ok counted]
  · rw [PictureOrder.checked_of_not_inRange inRange] at counted
    cases counted

theorem Placed.deriveCoded {isIdr : Bool} {width lsb : Nat} (placed : Placed order)
    (derived : order.deriveCoded isIdr width lsb = .ok next) : Placed next := by
  unfold PictureOrder.deriveCoded at derived
  dsimp only at derived
  split at derived
  · obtain ⟨high, -, derived⟩ := Fault.bind_ite_ok derived
    obtain ⟨count, counted, derived⟩ := Fault.bind_ok derived
    cases derived
    exact ⟨inRange_of_checked counted, placed.count, placed.place, placed.place_lt⟩
  · cases derived

theorem Placed.deriveImplied {isIdr : Bool} {log2Length : Nat} (placed : Placed order)
    (short : log2Length ≤ SubGop.maxLog2Length)
    (derived : order.deriveImplied isIdr log2Length temporalId = .ok next) : Placed next := by
  cases isIdr with
  | true =>
    cases derived
    constructor <;> decide
  | false =>
  unfold PictureOrder.deriveImplied at derived
  rw [if_neg Bool.false_ne_true] at derived
  split at derived
  · obtain ⟨anchor, moved, derived⟩ := Fault.bind_ok derived
    cases derived
    have inRange := inRange_of_checked moved
    have first : -1 ≤ (0 : Int) ∧ (0 : Int) < 2 ^ SubGop.maxLog2Length := by decide
    exact ⟨inRange, inRange, first.1, first.2⟩
  split at derived
  · next inner fits =>
    dsimp only at derived
    obtain ⟨previous, moved, derived⟩ := Fault.bind_ite_ok derived
    obtain ⟨count, counted, derived⟩ := Fault.bind_ok derived
    cases derived
    have positive := Nat.pos_of_ne_zero inner
    have layered := PictureOrder.layer_seek positive (Nat.pow_le_pow_right Nat.two_pos fits)
      (order.nextPlace_lt log2Length)
    obtain ⟨-, inside⟩ := (PictureOrder.layer_eq_iff positive).mp layered
    have small := Nat.pow_le_pow_right Nat.two_pos (Nat.le_trans fits short)
    refine ⟨inRange_of_checked counted, ?_, ?_, ?_⟩
    · split at moved
      · exact inRange_of_checked moved
      · cases moved
        exact placed.previous
    · exact Int.le_trans (by decide) (Int.natCast_nonneg _)
    · dsimp only
      exact_mod_cast Nat.lt_of_lt_of_le inside small
  · cases derived

theorem Placed.advance (placed : Placed order) (bounded : sps.Bounded)
    (advanced : order.advance type temporalId sps header = .ok next) : Placed next := by
  cases coded : sps.countsInSlices with
  | true => exact placed.deriveCoded (PictureOrder.advance_coded advanced coded)
  | false => exact placed.deriveImplied bounded.subGop (PictureOrder.advance_implied advanced coded)

end
end EvcStream.Machine
