import EvcStream.PictureOrder
/-!
# Picture order of one slice and of a run

What each branch of the derivation gives, and where it stops. A run of slices is the derivation of
one after the other.
-/
namespace EvcStream.PictureOrder

variable {order next : PictureOrder}

theorem checked_ok {count value : Int} (h : checked count = .ok value) : value = count := by
  unfold checked at h
  split at h
  · cases h
    rfl
  · cases h

theorem checked_of_inRange {count : Int} (inRange : InRange count) : checked count = .ok count :=
  if_pos inRange

theorem checked_of_not_inRange {count : Int} (outside : ¬ InRange count) :
    checked count = .error .orderOverflow := if_neg outside

theorem deriveCoded_previous {isIdr : Bool} {width lsb : Nat}
    (h : order.deriveCoded isIdr width lsb = .ok next) : next.previous = order.count := by
  unfold deriveCoded at h
  dsimp only at h
  split at h
  · obtain ⟨high, -, h⟩ := Fault.bind_ite_ok h
    obtain ⟨count, -, h⟩ := Fault.bind_ok h
    cases h
    rfl
  · cases h

/-- From outside of a layer its places are entered at the first one. -/
theorem seek_eq_ite {temporalId length place : Nat} (positive : 0 < temporalId)
    (fits : 2 ^ temporalId ≤ length) (inside : place < length) :
    seek temporalId length positive fits place inside =
      if layer place = temporalId then place else 2 ^ (temporalId - 1) := by
  fun_induction seek temporalId length positive fits place inside with
  | case1 place inside elsewhere closer ih =>
    rw [ih, if_neg elsewhere]
    split
    · next entered =>
      rw [Ne, layer_eq_iff positive] at elsewhere
      rw [layer_eq_iff positive] at entered
      have lower := Nat.two_pow_pos (temporalId - 1)
      by_cases wraps : place + 1 = length
      · rw [wraps, Nat.mod_self] at entered
        omega
      · rw [Nat.mod_eq_of_lt (by omega)] at entered ⊢
        omega
    · rfl
  | case2 place inside here => rw [if_pos (Decidable.not_not.mp here)]

theorem layer_first {temporalId : Nat} (positive : 0 < temporalId) :
    layer (2 ^ (temporalId - 1)) = temporalId :=
  (layer_eq_iff positive).mpr ⟨Nat.le_refl _, Nat.two_pow_pred_lt_two_pow positive⟩

theorem layer_seek {temporalId length place : Nat} (positive : 0 < temporalId)
    (fits : 2 ^ temporalId ≤ length) (inside : place < length) :
    layer (seek temporalId length positive fits place inside) = temporalId := by
  rw [seek_eq_ite]
  split
  · next here => exact here
  · exact layer_first positive

/-- The places of a layer end at a power of two, and the last of them still falls short. -/
theorem offset_neg {log2Length temporalId place : Nat} (fits : temporalId ≤ log2Length)
    (inside : place < 2 ^ temporalId) : offset log2Length temporalId place < 0 := by
  obtain ⟨rest, rfl⟩ := Nat.exists_eq_add_of_le fits
  have scale : (0 : Int) < 2 ^ rest := by exact_mod_cast Nat.two_pow_pos rest
  have inside : (2 * place + 1 : Int) < 2 * 2 ^ temporalId := by
    have : (place : Int) < 2 ^ temporalId := by exact_mod_cast inside
    omega
  rw [offset, Nat.add_sub_cancel_left, Int.pow_add, ← Int.mul_assoc]
  exact Int.sub_neg_of_lt (Int.mul_lt_mul_of_pos_right inside scale)

theorem deriveImplied_anchor {log2Length : Nat}
    (h : order.deriveImplied false log2Length 0 = .ok next) :
    next.count = order.previous + signed32 (2 ^ log2Length) ∧ next.previous = next.count := by
  obtain ⟨anchor, moved, h⟩ := Fault.bind_ok h
  cases h
  exact ⟨checked_ok moved, rfl⟩

theorem signed32_two_pow {width : Nat} (short : width < 31) : signed32 (2 ^ width) = 2 ^ width := by
  have every : ∀ width : Fin 31, signed32 (2 ^ width.val) = 2 ^ width.val := by decide
  exact every ⟨width, short⟩

theorem signed32_pos {log2Length : Nat} (short : log2Length ≤ SubGop.maxLog2Length) :
    0 < signed32 (2 ^ log2Length) := by
  rw [signed32_two_pow (Nat.lt_of_le_of_lt short (by decide))]
  exact_mod_cast Nat.two_pow_pos log2Length

theorem deriveImplied_inner {log2Length temporalId : Nat} (inner : temporalId ≠ 0)
    (h : order.deriveImplied false log2Length temporalId = .ok next) :
    next.count < next.previous := by
  unfold deriveImplied at h
  rw [if_neg Bool.false_ne_true, dif_neg inner] at h
  split at h
  · next fits =>
    dsimp only at h
    obtain ⟨previous, -, h⟩ := Fault.bind_ite_ok h
    obtain ⟨count, counted, h⟩ := Fault.bind_ok h
    cases h
    have layered := layer_seek (Nat.pos_of_ne_zero inner)
      (Nat.pow_le_pow_right (by omega) fits) (order.nextPlace_lt log2Length)
    obtain ⟨-, inside⟩ := (layer_eq_iff (Nat.pos_of_ne_zero inner)).mp layered
    have before := offset_neg fits inside
    have count_eq := checked_ok counted
    dsimp only
    omega
  · cases h

/-- An implied count never passes its anchor. -/
theorem deriveImplied_le {isIdr : Bool} {log2Length temporalId : Nat}
    (h : order.deriveImplied isIdr log2Length temporalId = .ok next) :
    next.count ≤ next.previous := by
  cases isIdr with
  | true =>
    cases h
    exact Int.le_refl 0
  | false =>
    by_cases anchor : temporalId = 0
    · subst anchor
      exact Int.le_of_eq (deriveImplied_anchor h).2.symm
    · exact Int.le_of_lt (deriveImplied_inner anchor h)

section
variable {type : NalUnitType} {temporalId : Nat} {sps : SequenceParameterSet}
  {header : SliceHeader}

theorem advance_coded (h : order.advance type temporalId sps header = .ok next)
    (counts : sps.countsInSlices = true) :
    order.deriveCoded (type = .idr) sps.orderLsbWidth header.orderLsb = .ok next := by
  rw [advance] at h
  by_cases slice : type.isSlice = true
  · rw [if_pos slice, if_pos counts] at h
    exact h
  · rw [if_neg slice] at h
    cases h

theorem advance_implied (h : order.advance type temporalId sps header = .ok next)
    (implied : sps.countsInSlices = false) :
    order.deriveImplied (type = .idr) sps.subGop.log2Length temporalId = .ok next := by
  rw [advance] at h
  by_cases slice : type.isSlice = true
  · rwa [if_pos slice, implied, if_neg Bool.false_ne_true] at h
  · rw [if_neg slice] at h
    cases h

end

/-- What the order of a picture depends on, next to the sequence parameter set. -/
structure CodedSlice where
  type : NalUnitType
  temporalId : Nat
  header : SliceHeader
  deriving DecidableEq, Repr

/-- The answer to a slice, and the order behind it: a fault leaves the order as it was. -/
def settle (order : PictureOrder) :
    Except Fault PictureOrder → EStateM.Result Fault PictureOrder Int
  | .ok next => .ok next.count next
  | .error fault => .error fault order

def derive (sps : SequenceParameterSet) (slice : CodedSlice) : EStateM Fault PictureOrder Int :=
  fun order => order.settle (order.advance slice.type slice.temporalId sps slice.header)

def deriveAll (sps : SequenceParameterSet) (slices : List CodedSlice) :
    EStateM Fault PictureOrder (List Int) :=
  slices.mapM (derive sps)

variable {sps : SequenceParameterSet} {slice : CodedSlice} {earlier later : List CodedSlice}
  {order next last : PictureOrder} {count : Int} {counts more : List Int}

section
variable (isIdr : Bool) (type : slice.type = bif isIdr then .idr else .nonIdr)
include type

theorem isSlice_of_type : slice.type.isSlice = true := by
  rw [type]
  cases isIdr <;> rfl

theorem decide_idr : decide (slice.type = .idr) = isIdr := by
  rw [type]
  cases isIdr <;> rfl

theorem derive_coded (counts : sps.countsInSlices = true) :
    (derive sps slice).run order =
      order.settle (order.deriveCoded isIdr sps.orderLsbWidth slice.header.orderLsb) := by
  change settle order (advance order _ _ _ _) = _
  rw [advance, if_pos (isSlice_of_type isIdr type), if_pos counts, decide_idr isIdr type]

theorem derive_implied (implied : sps.countsInSlices = false) :
    (derive sps slice).run order =
      order.settle (order.deriveImplied isIdr sps.subGop.log2Length slice.temporalId) := by
  change settle order (advance order _ _ _ _) = _
  rw [advance, if_pos (isSlice_of_type isIdr type), implied, if_neg Bool.false_ne_true,
    decide_idr isIdr type]

end

theorem deriveAll_cons (derived : (derive sps slice).run order = .ok count next)
    (rest : (deriveAll sps later).run next = .ok counts last) :
    (deriveAll sps (slice :: later)).run order = .ok (count :: counts) last := by
  unfold deriveAll at rest ⊢
  simp only [List.mapM_cons, EStateM.run_bind, derived, rest, EStateM.run_pure]

theorem deriveAll_append (front : (deriveAll sps earlier).run order = .ok counts next)
    (back : (deriveAll sps later).run next = .ok more last) :
    (deriveAll sps (earlier ++ later)).run order = .ok (counts ++ more) last := by
  unfold deriveAll at front back ⊢
  simp only [List.mapM_append, EStateM.run_bind, front, back, EStateM.run_pure]

theorem deriveAll_cons_ok
    (ran : (deriveAll sps (slice :: later)).run order = .ok (count :: counts) last) :
    ∃ next, (derive sps slice).run order = .ok count next ∧
      (deriveAll sps later).run next = .ok counts last := by
  unfold deriveAll at ran ⊢
  rw [List.mapM_cons] at ran
  obtain ⟨first, next, derived, ran⟩ := bind_run_ok ran
  obtain ⟨others, stopped, rest, ran⟩ := bind_run_ok ran
  cases ran
  exact ⟨next, derived, rest⟩

end EvcStream.PictureOrder
