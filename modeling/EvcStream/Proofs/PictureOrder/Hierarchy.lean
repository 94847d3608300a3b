import EvcStream.PictureOrder
import Mathlib.Algebra.Group.Int.Defs
import Mathlib.Data.List.Perm.Basic
import Mathlib.Tactic.Ring
/-!
# The hierarchy of a sub-GOP

A sub-GOP is decoded layer by layer: first its anchor, then layer after layer, each with as many
pictures as all layers before it together. In output order the pictures of the last layer stand
between those of all others, so that the places of a sub-GOP are those of one of half the length,
spread out, and the gaps between them.
-/
namespace EvcStream.PictureOrder

def hierarchy (log2Length : Nat) : List Nat :=
  0 :: (List.range' 1 log2Length).flatMap fun layer => List.replicate (2 ^ (layer - 1)) layer

def shift (log2Length place : Nat) : Int :=
  if place = 0 then 0 else offset log2Length (layer place) place

/-- How far the picture shown at position `i` of its sub-GOP is from the anchor, which is shown
last. -/
def rank (log2Length i : Nat) : Int := i + 1 - 2 ^ log2Length

@[simp] theorem layer_zero : layer 0 = 0 := rfl

@[simp] theorem shift_zero (log2Length : Nat) : shift log2Length 0 = 0 := rfl

theorem layer_upper {log2Length i : Nat} (inside : i < 2 ^ log2Length) :
    layer (2 ^ log2Length + i) = log2Length + 1 := by
  rw [layer_eq_iff (Nat.succ_pos log2Length), Nat.pow_succ, Nat.succ_sub_one]
  omega

theorem layer_le {log2Length place : Nat} (inside : place < 2 ^ log2Length) :
    layer place ≤ log2Length := by
  by_contra! above
  obtain ⟨lowest, -⟩ := (layer_eq_iff (Nat.zero_lt_of_lt above)).mp rfl
  have := Nat.pow_le_pow_right (n := 2) Nat.two_pos (Nat.le_sub_one_of_lt above)
  omega

theorem layer_pos {place : Nat} (inner : 0 < place) : 0 < layer place := by
  unfold layer
  rw [if_neg (Nat.ne_of_gt inner)]
  exact Nat.succ_pos _

theorem range_two_pow_succ (log2Length : Nat) :
    List.range (2 ^ (log2Length + 1)) =
      List.range (2 ^ log2Length) ++ (List.range (2 ^ log2Length)).map (2 ^ log2Length + ·) := by
  rw [Nat.pow_succ, Nat.mul_two, List.range_add]

theorem range_two_pow (log2Length : Nat) :
    List.range (2 ^ log2Length) = 0 :: List.range' 1 (2 ^ log2Length - 1) := by
  rw [List.range_eq_range', ← Nat.sub_add_cancel (Nat.two_pow_pos log2Length), List.range'_succ]
  rfl

theorem hierarchy_eq (log2Length : Nat) :
    hierarchy log2Length = (List.range (2 ^ log2Length)).map layer := by
  induction log2Length with
  | zero => rfl
  | succ log2Length ih =>
    have upper : ((List.range (2 ^ log2Length)).map (2 ^ log2Length + ·)).map layer =
        List.replicate (2 ^ log2Length) (log2Length + 1) := by
      rw [List.eq_replicate_iff]
      simp +contextual [layer_upper]
    rw [range_two_pow_succ, List.map_append, upper, ← ih, hierarchy, List.range'_1_concat,
      List.flatMap_append, ← List.cons_append]
    simp [hierarchy, Nat.add_comm 1]

@[simp] theorem hierarchy_length (log2Length : Nat) :
    (hierarchy log2Length).length = 2 ^ log2Length := by
  rw [hierarchy_eq, List.length_map, List.length_range]

theorem shift_lower {log2Length place : Nat} (inside : place < 2 ^ log2Length) :
    shift (log2Length + 1) place = 2 * shift log2Length place := by
  unfold shift
  split
  · rfl
  · rw [offset, offset, Nat.succ_sub (layer_le inside), Int.pow_succ, Int.pow_succ]
    ring

theorem shift_upper {log2Length i : Nat} (inside : i < 2 ^ log2Length) :
    shift (log2Length + 1) (2 ^ log2Length + i) = rank (log2Length + 1) (2 * i) := by
  have := Nat.two_pow_pos log2Length
  rw [shift, if_neg (by omega), layer_upper inside, offset, Nat.sub_self, rank, Int.pow_succ]
  push_cast
  ring

theorem rank_odd (log2Length i : Nat) :
    rank (log2Length + 1) (2 * i + 1) = 2 * rank log2Length i := by
  rw [rank, rank, Int.pow_succ]
  push_cast
  ring

theorem range_two_mul_perm {α : Type} (f : Nat → α) (m : Nat) :
    ((List.range m).map (fun i => f (2 * i + 1)) ++ (List.range m).map (fun i => f (2 * i))).Perm
      ((List.range (2 * m)).map f) := by
  induction m with
  | zero => exact .refl []
  | succ m ih =>
    have last : ([f (2 * m + 1)] ++ ((List.range m).map (fun i => f (2 * i)) ++ [f (2 * m)])).Perm
        ((List.range m).map (fun i => f (2 * i)) ++ [f (2 * m)] ++ [f (2 * m + 1)]) :=
      List.perm_append_comm
    have moved := (last.append_left ((List.range m).map fun i => f (2 * i + 1))).trans
      (by simpa only [List.append_assoc] using ih.append_right ([f (2 * m)] ++ [f (2 * m + 1)]))
    rw [Nat.mul_succ]
    simpa only [List.range_succ, List.map_append, List.map_cons, List.map_nil,
      List.append_assoc] using moved

/-- The places of a sub-GOP are shown at its positions, each at one of them. -/
theorem shift_perm (log2Length : Nat) :
    ((List.range (2 ^ log2Length)).map (shift log2Length)).Perm
      ((List.range (2 ^ log2Length)).map (rank log2Length)) := by
  induction log2Length with
  | zero => exact .refl _
  | succ log2Length ih =>
    have lower : (List.range (2 ^ log2Length)).map (shift (log2Length + 1)) =
        ((List.range (2 ^ log2Length)).map (shift log2Length)).map (2 * ·) := by
      rw [List.map_map, List.map_inj_left]
      exact fun place inside => shift_lower (List.mem_range.mp inside)
    have upper : ((List.range (2 ^ log2Length)).map (2 ^ log2Length + ·)).map
          (shift (log2Length + 1)) =
        (List.range (2 ^ log2Length)).map fun i => rank (log2Length + 1) (2 * i) := by
      rw [List.map_map, List.map_inj_left]
      exact fun i inside => shift_upper (List.mem_range.mp inside)
    have odd : ((List.range (2 ^ log2Length)).map (rank log2Length)).map (2 * ·) =
        (List.range (2 ^ log2Length)).map fun i => rank (log2Length + 1) (2 * i + 1) := by
      rw [List.map_map, List.map_inj_left]
      exact fun i _ => (rank_odd log2Length i).symm
    have spread := ih.map (2 * ·)
    rw [odd] at spread
    rw [range_two_pow_succ, List.map_append, lower, upper, ← range_two_pow_succ, Nat.pow_succ']
    exact (spread.append_right _).trans
      (range_two_mul_perm (rank (log2Length + 1)) (2 ^ log2Length))

theorem shift_bounds {log2Length place : Nat} (inside : place < 2 ^ log2Length) :
    -2 ^ log2Length < shift log2Length place ∧ shift log2Length place ≤ 0 := by
  have shown := (shift_perm log2Length).mem_iff.mp
    (List.mem_map_of_mem (List.mem_range.mpr inside))
  obtain ⟨i, below, same⟩ := List.mem_map.mp shown
  have below : (i : Int) < 2 ^ log2Length := by exact_mod_cast List.mem_range.mp below
  rw [← same, rank]
  omega

def subGopCounts (log2Length : Nat) (anchor : Int) : List Int :=
  (List.range (2 ^ log2Length)).map fun place => anchor + shift log2Length place

theorem subGopCounts_eq (log2Length : Nat) (anchor : Int) :
    subGopCounts log2Length anchor = anchor :: (List.range' 1 (2 ^ log2Length - 1)).map
      fun place => anchor + shift log2Length place := by
  rw [subGopCounts, range_two_pow, List.map_cons, shift_zero, Int.add_zero]

@[simp] theorem subGopCounts_length (log2Length : Nat) (anchor : Int) :
    (subGopCounts log2Length anchor).length = 2 ^ log2Length := by
  rw [subGopCounts, List.length_map, List.length_range]

def subGopsCounts (log2Length : Nat) (start : Int) (n : Nat) : List Int :=
  (List.range n).flatMap fun g : Nat => subGopCounts log2Length (start + (g + 1) * 2 ^ log2Length)

/-- The counts of `count` pictures with `before` pictures in front of them, in output order. -/
def countsBehind (before count : Nat) : List Int :=
  (List.range' (before + 1) count).map Nat.cast

theorem subGopsCounts_succ (log2Length : Nat) (start : Int) (n : Nat) :
    subGopsCounts log2Length start (n + 1) =
      subGopCounts log2Length (start + 2 ^ log2Length) ++
        subGopsCounts log2Length (start + 2 ^ log2Length) n := by
  unfold subGopsCounts
  rw [List.range_succ_eq_map, List.flatMap_cons, List.flatMap_map, Nat.cast_zero, Int.zero_add,
    Int.one_mul]
  congr 2
  funext g
  congr 1
  push_cast
  ring

theorem subGopCounts_perm {log2Length before : Nat} {anchor : Int}
    (behind : anchor = before + 2 ^ log2Length) :
    (subGopCounts log2Length anchor).Perm (countsBehind before (2 ^ log2Length)) := by
  have shown := (shift_perm log2Length).map (anchor + ·)
  rw [List.map_map, List.map_map] at shown
  refine shown.trans (.of_eq ?_)
  rw [countsBehind, List.range'_eq_map_range, List.map_map, List.map_inj_left]
  intro i _
  rw [Function.comp_apply, Function.comp_apply, rank, behind]
  push_cast
  ring

theorem flatMap_countsBehind (length n : Nat) :
    ((List.range n).flatMap fun g => countsBehind (g * length) length) =
      countsBehind 0 (n * length) := by
  induction n with
  | zero => rw [Nat.zero_mul]; rfl
  | succ n ih =>
    rw [List.range_succ, List.flatMap_append, ih, List.flatMap_singleton, countsBehind,
      countsBehind, countsBehind, ← List.map_append, Nat.zero_add, Nat.add_comm (n * length) 1,
      List.range'_append_1, Nat.succ_mul]

theorem subGopsCounts_perm (log2Length n : Nat) :
    (subGopsCounts log2Length 0 n).Perm (countsBehind 0 (n * 2 ^ log2Length)) := by
  rw [← flatMap_countsBehind]
  exact List.Perm.flatMap_left _ fun g _ => subGopCounts_perm (by push_cast; ring)

end EvcStream.PictureOrder
