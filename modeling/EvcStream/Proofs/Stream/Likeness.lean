import EvcStream.Proofs.Machine.Scanning
/-!
# What likeness depends on

A walk finds the same units again when more bytes follow, wherever the bytes were cut. So likeness
to a stream is a matter of the units at the front: there have to be enough of them, and once there
are, nothing behind them can take the likeness away.
-/
namespace EvcStream

namespace NalUnit

theorem split_append {start : Nat} {bytes rest : List UInt8} {u : NalUnit}
    (cutting : split start bytes = .ok (u, rest)) (more : List UInt8) :
    split start (bytes ++ more) = .ok (u, rest ++ more) := by
  have framable := split_framable cutting
  have whole := (split_ok cutting).2.2
  rw [whole, List.append_assoc, ← split_start cutting]
  exact split_framed framable.header framable.size (rest ++ more)

end NalUnit

namespace NalWalk

/-- What breaks off at the end may become a unit, or a fault. The units in front of it stay. -/
theorem units_prefix_append (start : Nat) (bytes more : List UInt8) :
    (startingAt start bytes).units <+: (startingAt start (bytes ++ more)).units := by
  fun_induction startingAt start bytes with
  | case1 => exact List.nil_prefix
  | case2 start bytes u rest cutting shorter walk ih =>
    rw [startingAt_ok (NalUnit.split_append cutting more)]
    exact (List.prefix_cons_inj u).mpr ih

end NalWalk

/-- Both kinds of parameter set, and an IDR slice or at least four others. -/
structure Suffices (units : List NalUnit) : Prop where
  sequence : ∃ u ∈ units, u.header.type = .sps
  picture : ∃ u ∈ units, u.header.type = .pps
  slices : (∃ u ∈ units, u.header.type = .idr) ∨ 4 ≤ units.countP (·.header.type = .nonIdr)

theorem Suffices.of_prefix {units more : List NalUnit} (h : Suffices units)
    (front : units <+: more) : Suffices more := by
  obtain ⟨⟨sps, spsIn, spsType⟩, ⟨pps, ppsIn, ppsType⟩, slices⟩ := h
  refine ⟨⟨sps, front.subset spsIn, spsType⟩, ⟨pps, front.subset ppsIn, ppsType⟩, ?_⟩
  rcases slices with ⟨idr, idrIn, idrType⟩ | many
  · exact .inl ⟨idr, front.subset idrIn, idrType⟩
  · exact .inr (many.trans (front.sublist.countP_le))

theorem NalWalk.count_pos_iff {walk : NalWalk} {type : NalUnitType} :
    0 < walk.count type ↔ ∃ u ∈ walk.units, u.header.type = type := by
  simp only [NalWalk.count, List.countP_pos_iff, decide_eq_true_eq]

theorem likeness_eq_score_iff (bytes : List UInt8) :
    likeness bytes = streamScore ↔ Suffices (NalWalk.of bytes).units := by
  have score : streamScore ≠ 0 := by decide
  rw [likeness]
  split
  · next enough =>
    simp only [NalWalk.count_pos_iff] at enough
    exact ⟨fun _ => ⟨enough.1, enough.2.1, enough.2.2⟩, fun _ => rfl⟩
  · next short =>
    simp only [NalWalk.count_pos_iff] at short
    constructor
    · intro zero
      exact absurd zero.symm score
    · rintro ⟨sequence, picture, slices⟩
      exact absurd ⟨sequence, picture, slices⟩ short

namespace Machine

namespace Tally

def add (tally : Tally) (type : NalUnitType) : Checked Tally :=
  if isCounted type then do
    let count ← int 32 (tally type + 1)
    return Function.update tally type count
  else return tally

def scan : List NalUnit → Tally → Checked Tally
  | [], tally => return tally
  | u :: later, tally =>
    match NalUnitHeader.decode (u.framed.drop NalUnit.lengthSize) with
    | .error _ => return tally
    | .ok header => do scan later (← tally.add header.type)

variable {units : List NalUnit} {u : NalUnit} {tally : Tally}

theorem add_cases (nonnegative : 0 ≤ tally u.header.type) :
    tally.add u.header.type = .ok (tally.counted u) ∨
      tally.add u.header.type = .error .overflow ∧ 2 ^ 31 ≤ tally u.header.type + 1 := by
  unfold add counted
  split
  · by_cases small : tally u.header.type + 1 < 2 ^ 31
    · rw [int_eq (by omega) small]
      exact .inl rfl
    · have overflow : int 32 (tally u.header.type + 1) = .error .overflow :=
        if_neg fun fits => small fits.2
      rw [overflow]
      exact .inr ⟨rfl, Int.not_lt.mp small⟩
  · exact .inl rfl

/-- Counting gives the number of units, unless there are too many of them for a count. -/
theorem scan_cases (framable : ∀ u ∈ units, u.Framable) (nonnegative : ∀ type, 0 ≤ tally type) :
    scan units tally = .ok (units.foldl counted tally) ∨
      scan units tally = .error .overflow ∧ ∃ type, 2 ^ 31 ≤ tally type + units.length := by
  induction units generalizing tally with
  | nil => exact .inl rfl
  | cons u units ih =>
    obtain ⟨first, others⟩ := List.forall_mem_cons.mp framable
    have unit : u.framed.drop NalUnit.lengthSize = u.bytes :=
      List.drop_left' (BigEndian.encode_length _ _)
    rw [scan, unit, first.header, List.foldl_cons, List.length_cons, Nat.cast_add, Nat.cast_one]
    dsimp only
    rcases add_cases (nonnegative u.header.type) with added | ⟨overflow, large⟩
    · rw [added, ok_bind]
      have grown := counted_bounds tally u
      have later := ih others fun type => (nonnegative type).trans (grown type).1
      refine later.imp_right (And.imp_right ?_)
      rintro ⟨type, large⟩
      have one := (grown type).2
      exact ⟨type, by omega⟩
    · rw [overflow]
      exact .inr ⟨rfl, u.header.type, by omega⟩

theorem add_small {type : NalUnitType} {next : Tally} (small : ∀ type, tally type < 2 ^ 31)
    (added : tally.add type = .ok next) : ∀ type, next type < 2 ^ 31 := by
  unfold add at added
  split at added
  · obtain ⟨count, checked, rest⟩ := bind_ok added
    cases rest
    have fits : count < 2 ^ 31 := by
      unfold int at checked
      split at checked
      · next inside =>
        cases checked
        exact inside.2
      · cases checked
    intro other
    by_cases same : other = type
    · subst same
      rwa [Function.update_self]
    · rw [Function.update_of_ne same]
      exact small other
  · cases added
    exact small

theorem scan_small {last : Tally} (small : ∀ type, tally type < 2 ^ 31)
    (scanned : scan units tally = .ok last) : ∀ type, last type < 2 ^ 31 := by
  induction units generalizing tally with
  | nil =>
    cases scanned
    exact small
  | cons u units ih =>
    unfold scan at scanned
    split at scanned
    · cases scanned
      exact small
    · obtain ⟨next, added, rest⟩ := bind_ok scanned
      exact ih (add_small small added) rest

end Tally

def likenessOf (units : List NalUnit) : Checked Nat := do
  return (← Tally.scan units fun _ => 0).score

theorem likenessOf_cases (bytes : List UInt8) :
    likenessOf (NalWalk.of bytes).units = .ok (EvcStream.likeness bytes) ∨
      likenessOf (NalWalk.of bytes).units = .error .overflow ∧
        2 ^ 31 ≤ (NalWalk.of bytes).units.length := by
  have framable : ∀ u ∈ (NalWalk.of bytes).units, u.Framable := fun u member =>
    NalWalk.framable_of_mem member
  have zero : ∀ type, 0 ≤ (fun _ => 0 : Tally) type := fun _ => Int.le_refl 0
  rw [likenessOf]
  rcases Tally.scan_cases framable zero with counted | ⟨overflow, type, large⟩
  · rw [counted, ok_bind]
    refine .inl (congrArg Except.ok (Tally.score_eq fun type known => ?_))
    rw [Tally.foldl_counted _ _ known, Int.zero_add]
    rfl
  · rw [overflow]
    exact .inr ⟨rfl, by omega⟩

theorem likenessOf_overflow {bytes : List UInt8} {type : NalUnitType}
    (known : Tally.isCounted type = true) (many : 2 ^ 31 ≤ (NalWalk.of bytes).count type) :
    likenessOf (NalWalk.of bytes).units = .error .overflow := by
  have framable : ∀ u ∈ (NalWalk.of bytes).units, u.Framable := fun u member =>
    NalWalk.framable_of_mem member
  have zero : ∀ type, 0 ≤ (fun _ => 0 : Tally) type := fun _ => Int.le_refl 0
  rw [likenessOf]
  rcases Tally.scan_cases framable zero with counted | ⟨overflow, -⟩
  · have small := Tally.scan_small (fun _ => by decide) counted type
    rw [Tally.foldl_counted _ _ known, Int.zero_add] at small
    unfold NalWalk.count at many
    omega
  · rw [overflow]
    rfl

end Machine

/-- With fewer than `2 ^ 31` units the counts give a score: that of a stream if and only if the
units that a walk finds suffice, and zero otherwise. Whatever is added behind the bytes, the walk
finds the same units first, and a stream stays one while there are fewer than `2 ^ 31` units. -/
theorem likeness_exact (bytes : List UInt8) :
    let units := (NalWalk.of bytes).units
    (units.length < 2 ^ 31 → Machine.likenessOf units = .ok (likeness bytes)) ∧
      (likeness bytes = streamScore ↔
        (∃ u ∈ units, u.header.type = .sps) ∧ (∃ u ∈ units, u.header.type = .pps) ∧
          ((∃ u ∈ units, u.header.type = .idr) ∨
            4 ≤ units.countP (·.header.type = .nonIdr))) ∧
      (likeness bytes ≠ streamScore → likeness bytes = 0) ∧
      ∀ suffix, let longer := (NalWalk.of (bytes ++ suffix)).units
        units <+: longer ∧
          (likeness bytes = streamScore → likeness (bytes ++ suffix) = streamScore) ∧
          (longer.length < 2 ^ 31 → Machine.likenessOf units = .ok streamScore →
            Machine.likenessOf longer = .ok streamScore) := by
  have counted (bytes : List UInt8) (few : (NalWalk.of bytes).units.length < 2 ^ 31) :
      Machine.likenessOf (NalWalk.of bytes).units = .ok (likeness bytes) := by
    rcases Machine.likenessOf_cases bytes with scored | ⟨-, many⟩
    · exact scored
    · exact absurd few (Nat.not_lt.mpr many)
  intro units
  refine ⟨counted bytes, ?_, ?_, ?_⟩
  · rw [likeness_eq_score_iff]
    constructor
    · rintro ⟨sequence, picture, slices⟩
      exact ⟨sequence, picture, slices⟩
    · rintro ⟨sequence, picture, slices⟩
      exact ⟨sequence, picture, slices⟩
  · rw [likeness]
    split
    · exact fun other => absurd rfl other
    · exact fun _ => rfl
  · intro suffix longer
    have front : units <+: longer := NalWalk.units_prefix_append 0 bytes suffix
    have still (stream : likeness bytes = streamScore) :
        likeness (bytes ++ suffix) = streamScore := by
      rw [likeness_eq_score_iff] at stream ⊢
      exact stream.of_prefix front
    refine ⟨front, still, ?_⟩
    intro few scored
    have score := counted bytes (Nat.lt_of_le_of_lt front.length_le few)
    rw [scored] at score
    rw [counted _ few, still (Except.ok.inj score).symm]

/-- A stream that is cut in its fifth unit, and one where this unit turns out to be malformed. -/
theorem likeness_exact_cut :
    let bytes : List UInt8 := [0, 0, 0, 2, 52, 0, 0, 0, 0, 3, 2, 0, 7, 0, 0, 0, 2, 4, 0,
      0, 0, 0, 2, 50, 0, 0, 0, 0, 3, 128]
    let suffix : List UInt8 := [0, 0, 0, 0, 0, 2, 50, 0]
    let units := (NalWalk.of bytes).units
    let longer := (NalWalk.of (bytes ++ suffix)).units
    units.length = 4 ∧ Machine.likenessOf units = .ok streamScore ∧
      units <+: longer ∧ longer.length < 2 ^ 31 ∧ Machine.likenessOf longer = .ok streamScore ∧
      likeness (bytes ++ suffix) = streamScore := by
  intro bytes suffix units longer
  obtain ⟨counted, -, -, extended⟩ := likeness_exact bytes
  have four : units.length = 4 := by decide +kernel
  have stream : likeness bytes = streamScore := by decide +kernel
  have few : units.length < 2 ^ 31 := by omega
  have scored := counted few
  rw [stream] at scored
  have short : longer.length < 2 ^ 31 := by decide +kernel
  obtain ⟨front, still, again⟩ := extended suffix
  exact ⟨four, scored, front, short, again short scored, still stream⟩

/-- Three units are a stream, but `2 ^ 31` parameter sets behind them cannot be counted. -/
theorem likeness_exact_uncounted :
    let bytes : List UInt8 := [0, 0, 0, 2, 50, 0, 0, 0, 0, 2, 52, 0, 0, 0, 0, 2, 4, 0]
    let suffix := (List.replicate (2 ^ 31) ([0, 0, 0, 2, 50, 0] : List UInt8)).flatten
    (NalWalk.of bytes).units.length < 2 ^ 31 ∧
      Machine.likenessOf (NalWalk.of bytes).units = .ok streamScore ∧
      Machine.likenessOf (NalWalk.of (bytes ++ suffix)).units = .error .overflow := by
  intro bytes suffix
  let sps : NalUnit := { header := .plain .sps 0, bytes := [50, 0] }
  let first : List NalUnit := [sps, { header := .plain .pps 0, bytes := [52, 0] },
    { header := .plain .idr 0, bytes := [4, 0] }]
  let units := first ++ List.replicate (2 ^ 31) sps
  have framed : units.flatMap NalUnit.framed = bytes ++ suffix := by
    have front : first.flatMap NalUnit.framed = bytes := by decide
    have back : sps.framed = [0, 0, 0, 2, 50, 0] := by decide
    rw [List.flatMap_append, front, List.flatMap_def, List.map_replicate, back]
  have framable : ∀ u ∈ units, u.Framable := by
    have known : ∀ u ∈ first, u.Framable :=
      List.forall_mem_cons.mpr ⟨⟨ok_of_toOption (by decide), by decide⟩,
        List.forall_mem_cons.mpr ⟨⟨ok_of_toOption (by decide), by decide⟩,
          List.forall_mem_singleton.mpr ⟨ok_of_toOption (by decide), by decide⟩⟩⟩
    intro u member
    rcases List.mem_append.mp member with early | late
    · exact known u early
    · exact List.eq_of_mem_replicate late ▸ known sps List.mem_cons_self
  have many : 2 ^ 31 ≤ (NalWalk.of (bytes ++ suffix)).count .sps := by
    have types := NalWalk.map_of_framed (f := fun u => u.header.type) framable fun _ => rfl
    have counted : (units.map (·.header.type)).countP (· = .sps) = 1 + 2 ^ 31 := by
      rw [List.map_append, List.countP_append, List.map_replicate, List.countP_replicate]
      rfl
    rw [framed] at types
    rw [← types, List.countP_map] at counted
    unfold NalWalk.count
    exact Nat.le_of_lt (Nat.lt_of_lt_of_eq (by omega) counted.symm)
  have quiet : likeness bytes = streamScore := by decide +kernel
  have few : (NalWalk.of bytes).units.length < 2 ^ 31 := by decide +kernel
  refine ⟨few, ?_, Machine.likenessOf_overflow rfl many⟩
  rcases Machine.likenessOf_cases bytes with scored | ⟨-, large⟩
  · rwa [quiet] at scored
  · exact absurd few (Nat.not_lt.mpr large)

end EvcStream
