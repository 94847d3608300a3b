import EvcStream.Proofs.PictureOrder
import EvcStream.Proofs.PictureOrder.Hierarchy
import Mathlib.Data.List.Perm.Basic
import Mathlib.Tactic.Push
/-!
# Implied counts

Without counts in the slices, a picture finds its place in the sub-GOP by its layer: it takes the
next place of this layer behind the last picture. So it does not matter which other layers were
decoded in between, and the counts of a sub-GOP come out each once.
-/
namespace EvcStream.PictureOrder

variable {order : PictureOrder}

theorem seek_eq {temporalId length place target : Nat} (positive : 0 < temporalId)
    (fits : 2 ^ temporalId ≤ length) (inside : place < length) (found : layer target = temporalId)
    (ahead : place ≤ target)
    (others : ∀ between, place ≤ between → between < target → layer between ≠ temporalId) :
    seek temporalId length positive fits place inside = target := by
  rw [seek_eq_ite]
  by_contra elsewhere
  split at elsewhere
  · next here => exact others place (Nat.le_refl place) (by omega) here
  · next outside =>
    rw [layer_eq_iff positive] at found outside
    exact others _ (by omega) (by omega) (layer_first positive)

theorem deriveImplied_zero {log2Length : Nat} (short : log2Length < 31)
    (inRange : InRange (order.previous + 2 ^ log2Length)) :
    order.deriveImplied false log2Length 0 =
      .ok { count := order.previous + 2 ^ log2Length,
            previous := order.previous + 2 ^ log2Length, place := 0 } := by
  unfold deriveImplied nextAnchor
  rw [if_neg Bool.false_ne_true, dif_pos rfl, signed32_two_pow short, checked_of_inRange inRange]
  rfl

theorem deriveImplied_place {log2Length last place : Nat} (inside : place < 2 ^ log2Length)
    (stands : order.place = last) (behind : last < place)
    (others : ∀ between, last < between → between < place → layer between ≠ layer place)
    (inRange : InRange (order.previous + shift log2Length place)) :
    order.deriveImplied false log2Length (layer place) =
      .ok { order with count := order.previous + shift log2Length place, place := place } := by
  have positive : 0 < layer place := layer_pos (Nat.zero_lt_of_lt behind)
  have fits : layer place ≤ log2Length := layer_le inside
  have start : order.nextPlace log2Length = last + 1 := by
    have next : ((last : Int) + 1) % (2 ^ log2Length : Nat) = last + 1 :=
      Int.emod_eq_of_lt (by omega) (by omega)
    rw [nextPlace, stands, next]
    rfl
  have sought : seek (layer place) (2 ^ log2Length) positive
      (Nat.pow_le_pow_right Nat.two_pos fits) (order.nextPlace log2Length)
      (order.nextPlace_lt log2Length) = place :=
    seek_eq positive _ _ rfl (by omega)
      fun between after before => others between (by omega) before
  have shifted : offset log2Length (layer place) place = shift log2Length place := by
    rw [shift, if_neg (by omega)]
  unfold deriveImplied
  rw [if_neg Bool.false_ne_true, dif_neg (Nat.ne_of_gt positive), dif_pos fits]
  dsimp only
  rw [if_neg (by omega), pure_bind, sought, shifted, checked_of_inRange inRange]
  rfl

def keep (kept : Nat → Bool) (slices : List CodedSlice) : List CodedSlice :=
  slices.filter fun slice => kept slice.temporalId

def keepCounts (kept : Nat → Bool) (slices : List CodedSlice) (counts : List Int) : List Int :=
  ((slices.zip counts).filter fun counted => kept counted.1.temporalId).map Prod.snd

variable {kept : Nat → Bool} {sps : SequenceParameterSet} {log2Length : Nat}

theorem keep_all (slices : List CodedSlice) : keep (fun _ => true) slices = slices :=
  List.filter_true slices

theorem keepCounts_all {slices : List CodedSlice} {counts : List Int}
    (same : counts.length = slices.length) : keepCounts (fun _ => true) slices counts = counts := by
  rw [keepCounts, List.filter_true, List.map_snd_zip (Nat.le_of_eq same)]

section
variable {slice : CodedSlice} {later : List CodedSlice} {count : Int} {counts : List Int}

theorem keep_cons :
    keep kept (slice :: later) =
      if kept slice.temporalId then slice :: keep kept later else keep kept later :=
  List.filter_cons

theorem keepCounts_cons :
    keepCounts kept (slice :: later) (count :: counts) =
      if kept slice.temporalId then count :: keepCounts kept later counts
      else keepCounts kept later counts := by
  unfold keepCounts
  rw [List.zip_cons_cons, List.filter_cons]
  dsimp only
  split <;> rfl

end

theorem keepCounts_append {front back : List CodedSlice} {early late : List Int}
    (same : front.length = early.length) :
    keepCounts kept (front ++ back) (early ++ late) =
      keepCounts kept front early ++ keepCounts kept back late := by
  rw [keepCounts, List.zip_append same, List.filter_append, List.map_append]
  rfl

/-- What was kept of the pictures in front of `place` has been decoded, and no more. -/
def Reached (kept : Nat → Bool) (place : Nat) (order : PictureOrder) : Prop :=
  ∃ last : Nat, order.place = last ∧ last < place ∧
    ∀ between, last < between → between < place → kept (layer between) = false

theorem Reached.skip {place : Nat} (reached : Reached kept place order)
    (dropped : kept (layer place) = false) : Reached kept (place + 1) order := by
  obtain ⟨last, stands, behind, others⟩ := reached
  refine ⟨last, stands, by omega, fun between after before => ?_⟩
  by_cases here : between = place
  · rwa [here]
  · exact others between after (by omega)

section
variable (implied : sps.countsInSlices = false) (length : sps.subGop.log2Length = log2Length)
include implied length

/-- A picture that is kept gets the count of its place, whatever was left out before. -/
theorem derive_place {place : Nat} {slice : CodedSlice} (reached : Reached kept place order)
    (type : slice.type = .nonIdr) (at_layer : slice.temporalId = layer place)
    (taken : kept slice.temporalId = true) (inside : place < 2 ^ log2Length)
    (inRange : InRange (order.previous + shift log2Length place)) :
    ∃ next, (derive sps slice).run order = .ok (order.previous + shift log2Length place) next ∧
      next.previous = order.previous ∧ Reached kept (place + 1) next := by
  obtain ⟨last, stands, behind, others⟩ := reached
  have elsewhere : ∀ between, last < between → between < place → layer between ≠ layer place := by
    intro between after before same
    rw [at_layer, ← same, others between after before] at taken
    cases taken
  refine ⟨{ order with count := order.previous + shift log2Length place, place := place },
    ?_, rfl, place, rfl, Nat.lt_succ_self place, by omega⟩
  rw [derive_implied false type implied, length, at_layer,
    deriveImplied_place inside stands behind elsewhere inRange]
  rfl

theorem deriveAll_places {place count : Nat} {slices : List CodedSlice} {anchor : Int}
    (rest : place + count = 2 ^ log2Length) (types : ∀ slice ∈ slices, slice.type = .nonIdr)
    (layers : slices.map (·.temporalId) = (List.range' place count).map layer)
    (inRange : ∀ place < 2 ^ log2Length, InRange (anchor + shift log2Length place))
    (reached : Reached kept place order) (anchored : order.previous = anchor) :
    ∃ last, (deriveAll sps (keep kept slices)).run order =
        .ok (keepCounts kept slices
          ((List.range' place count).map fun place => anchor + shift log2Length place)) last ∧
      last.previous = anchor := by
  induction count generalizing place slices order with
  | zero =>
    obtain rfl : slices = [] := List.map_eq_nil_iff.mp layers
    exact ⟨order, rfl, anchored⟩
  | succ count ih =>
    rw [List.range'_succ, List.map_cons] at layers ⊢
    obtain ⟨slice, later, rfl, at_layer, layers⟩ := List.map_eq_cons_iff.mp layers
    obtain ⟨type, types⟩ := List.forall_mem_cons.mp types
    subst anchored
    rw [keep_cons, keepCounts_cons]
    by_cases taken : kept slice.temporalId = true
    · obtain ⟨next, derived, stays, reached⟩ := derive_place implied length reached type at_layer
        taken (by omega) (inRange place (by omega))
      obtain ⟨last, ran, anchored⟩ := ih (by omega) types layers reached stays
      rw [if_pos taken, if_pos taken]
      exact ⟨last, deriveAll_cons derived ran, anchored⟩
    · rw [if_neg taken, if_neg taken]
      rw [at_layer, Bool.not_eq_true] at taken
      exact ih (by omega) types layers (reached.skip taken) rfl

variable (short : log2Length < 31)
include short

theorem derive_anchor (kept : Nat → Bool) {slice : CodedSlice} (type : slice.type = .nonIdr)
    (at_anchor : slice.temporalId = 0) (inRange : InRange (order.previous + 2 ^ log2Length)) :
    ∃ next, (derive sps slice).run order = .ok (order.previous + 2 ^ log2Length) next ∧
      next.previous = order.previous + 2 ^ log2Length ∧ Reached kept 1 next := by
  refine ⟨⟨order.previous + 2 ^ log2Length, order.previous + 2 ^ log2Length, 0⟩, ?_, rfl,
    0, rfl, Nat.one_pos, by omega⟩
  rw [derive_implied false type implied, length, at_anchor, deriveImplied_zero short inRange]
  rfl

variable (anchors : kept 0 = true)
include anchors

/-- A sub-GOP gets its counts, and its anchor stays in the order. -/
theorem deriveAll_subGop {slices : List CodedSlice}
    (types : ∀ slice ∈ slices, slice.type = .nonIdr)
    (layers : slices.map (·.temporalId) = hierarchy log2Length)
    (least : 0 ≤ order.previous) (fits : order.previous + 2 ^ log2Length < 2 ^ 31) :
    ∃ next, (deriveAll sps (keep kept slices)).run order =
        .ok (keepCounts kept slices (subGopCounts log2Length (order.previous + 2 ^ log2Length)))
          next ∧
      next.previous = order.previous + 2 ^ log2Length := by
  have positive := Nat.two_pow_pos log2Length
  have inRange : ∀ place < 2 ^ log2Length,
      InRange (order.previous + 2 ^ log2Length + shift log2Length place) := by
    intro place inside
    have := shift_bounds inside
    unfold InRange
    omega
  rw [hierarchy_eq, range_two_pow] at layers
  obtain ⟨slice, later, rfl, at_anchor, layers⟩ := List.map_eq_cons_iff.mp layers
  obtain ⟨type, types⟩ := List.forall_mem_cons.mp types
  obtain ⟨first, derived, moved, reached⟩ := derive_anchor implied length short kept type at_anchor
    (by simpa using inRange 0 positive)
  obtain ⟨next, ran, stays⟩ := deriveAll_places implied length (by omega) types layers inRange
    reached moved
  rw [keep_cons, subGopCounts_eq, keepCounts_cons, at_anchor, layer_zero, if_pos anchors,
    if_pos anchors]
  exact ⟨next, deriveAll_cons derived ran, stays⟩

theorem deriveAll_subGops {n : Nat} {slices : List CodedSlice}
    (types : ∀ slice ∈ slices, slice.type = .nonIdr)
    (layers : slices.map (·.temporalId) = (List.replicate n (hierarchy log2Length)).flatten)
    (least : 0 ≤ order.previous) (fits : order.previous + n * 2 ^ log2Length < 2 ^ 31) :
    ∃ last, (deriveAll sps (keep kept slices)).run order =
      .ok (keepCounts kept slices (subGopsCounts log2Length order.previous n)) last := by
  induction n generalizing slices order with
  | zero =>
    obtain rfl : slices = [] := List.map_eq_nil_iff.mp layers
    exact ⟨order, rfl⟩
  | succ n ih =>
    rw [List.replicate_succ, List.flatten_cons] at layers
    obtain ⟨front, back, rfl, early, late⟩ := List.map_eq_append_iff.mp layers
    obtain ⟨front_types, back_types⟩ := List.forall_mem_append.mp types
    have positive : (0 : Int) < 2 ^ log2Length := by exact_mod_cast Nat.two_pow_pos log2Length
    have others : (0 : Int) ≤ n * 2 ^ log2Length := Int.mul_nonneg (by omega) (by omega)
    rw [Int.natCast_succ, Int.add_mul, Int.one_mul] at fits
    obtain ⟨next, ran, moved⟩ := deriveAll_subGop implied length short anchors front_types early
      least (by omega)
    obtain ⟨last, rest⟩ := ih back_types late (by rw [moved]; omega) (by rw [moved]; omega)
    have same : front.length =
        (subGopCounts log2Length (order.previous + 2 ^ log2Length)).length := by
      rw [← List.length_map, early, hierarchy_length, subGopCounts_length]
    rw [moved] at rest
    rw [subGopsCounts_succ, keepCounts_append same, keep, List.filter_append]
    exact ⟨last, deriveAll_append ran rest⟩

end

/-- Behind a slice that starts afresh, `n` sub-GOPs in decoding order get the counts up to their
number of pictures, each sub-GOP its own, and each count once. Without some of the layers, the
pictures that are left get the same counts as with all of them. -/
theorem implied_counts_enumerate {sps : SequenceParameterSet} {n : Nat} {first : CodedSlice}
    {slices : List CodedSlice} (implied : sps.countsInSlices = false)
    (short : sps.subGop.log2Length ≤ 29) (fits : n * sps.subGop.length ≤ 2 ^ 31 - 1)
    (idr : first.type = .idr) (types : ∀ slice ∈ slices, slice.type = .nonIdr)
    (layers : slices.map (·.temporalId) =
      (List.replicate n (hierarchy sps.subGop.log2Length)).flatten)
    (order : PictureOrder) :
    ∃ counts : Nat → List Int,
      (∃ last, (deriveAll sps (first :: slices)).run order =
        .ok (0 :: (List.range n).flatMap counts) last) ∧
      ((List.range n).flatMap counts).Perm
        ((List.range' 1 (n * sps.subGop.length)).map Nat.cast) ∧
      (∀ g < n, (counts g).Perm
        ((List.range' (g * sps.subGop.length + 1) sps.subGop.length).map Nat.cast)) ∧
      ∀ kept : Nat → Bool, kept 0 = true →
        ∃ last, (deriveAll sps (first :: keep kept slices)).run order =
          .ok (0 :: keepCounts kept slices ((List.range n).flatMap counts)) last := by
  have length : sps.subGop.length = 2 ^ sps.subGop.log2Length := rfl
  rw [length] at fits ⊢
  have started : (derive sps first).run order = .ok 0 ⟨0, 0, -1⟩ := by
    rw [derive_implied true idr implied]
    rfl
  have runs : ∀ kept : Nat → Bool, kept 0 = true →
      ∃ last, (deriveAll sps (first :: keep kept slices)).run order =
        .ok (0 :: keepCounts kept slices (subGopsCounts sps.subGop.log2Length 0 n)) last := by
    intro kept anchors
    have ends : (0 : Int) + n * 2 ^ sps.subGop.log2Length < 2 ^ 31 := by
      have : ((n * 2 ^ sps.subGop.log2Length : Nat) : Int) < 2 ^ 31 := by omega
      rw [Int.zero_add]
      exact_mod_cast this
    have rest : ∃ last, (deriveAll sps (keep kept slices)).run ⟨0, 0, -1⟩ =
        .ok (keepCounts kept slices (subGopsCounts sps.subGop.log2Length 0 n)) last :=
      deriveAll_subGops implied rfl (by omega) anchors types layers (Int.le_refl 0) ends
    obtain ⟨last, ran⟩ := rest
    exact ⟨last, deriveAll_cons started ran⟩
  have enumerated := subGopsCounts_perm sps.subGop.log2Length n
  have same : (subGopsCounts sps.subGop.log2Length 0 n).length = slices.length := by
    have pictures := congrArg List.length layers
    rw [List.length_map] at pictures
    rw [enumerated.length_eq, pictures]
    simp [countsBehind]
  refine ⟨fun g => subGopCounts sps.subGop.log2Length (0 + (g + 1) * 2 ^ sps.subGop.log2Length),
    ?_, enumerated, fun g _ => subGopCounts_perm (by push_cast; ring), runs⟩
  have full := runs (fun _ => true) rfl
  rwa [keep_all, keepCounts_all same] at full

/-- Two sub-GOPs of four pictures, with and without the second of their three layers. -/
theorem implied_counts_enumerate_without_layer :
    let sps : SequenceParameterSet := { subGop := { log2Length := 2 } }
    let first : CodedSlice := ⟨.idr, 0, {}⟩
    let slices : List CodedSlice := [0, 1, 2, 2, 0, 1, 2, 2].map (⟨.nonIdr, ·, {}⟩)
    ∃ counts : Nat → List Int,
      (∃ last, (deriveAll sps (first :: slices)).run {} =
        .ok (0 :: (counts 0 ++ counts 1)) last) ∧
      (counts 0).Perm [1, 2, 3, 4] ∧ (counts 1).Perm [5, 6, 7, 8] ∧
      ∃ last, (deriveAll sps (first :: keep (· != 1) slices)).run {} =
        .ok (0 :: keepCounts (· != 1) slices (counts 0 ++ counts 1)) last := by
  intro sps first slices
  obtain ⟨counts, full, -, each, kept⟩ := @implied_counts_enumerate sps 2 first slices rfl
    (by decide) (by decide) rfl (by decide) (by decide) {}
  have both : (List.range 2).flatMap counts = counts 0 ++ counts 1 := by
    simp [List.range_succ]
  rw [both] at full kept
  exact ⟨counts, full, each 0 (by decide), each 1 (by decide), kept (· != 1) rfl⟩

end EvcStream.PictureOrder
