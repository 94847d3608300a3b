import EvcStream.Proofs.DecoderConfig.Collecting
import EvcStream.Proofs.Machine.Assembling
import EvcStream.Stream.Likeness
/-!
# Scanning byte strings on a machine

A walk over a whole byte string counts, lists or collects the units that it meets. Every unit takes
six bytes or more, so that counts of units stay far below the length of the bytes.
-/
namespace EvcStream.Machine

abbrev Tally := NalUnitType → Int

namespace Tally

def isCounted : NalUnitType → Bool
  | .sps | .pps | .idr | .nonIdr => true
  | _ => false

def note (tally : Tally) (span : Span) : Checked (Except Tally Tally) := do
  let framed ← span.framed
  match ← header (← slice framed NalUnit.lengthSize framed.length) with
  | .error _ => return .error tally
  | .ok header =>
    if isCounted header.type then
      let count ← int 32 (tally header.type + 1)
      return .ok (Function.update tally header.type count)
    else return .ok tally

def counted (tally : Tally) (u : NalUnit) : Tally :=
  if isCounted u.header.type then
    Function.update tally u.header.type (tally u.header.type + 1)
  else tally

structure Within (position : Nat) (tally : Tally) : Prop where
  nonnegative : ∀ type, 0 ≤ tally type
  few : ∀ type, (NalUnit.lengthSize + NalUnitHeader.size) * tally type ≤ position

variable {data : List UInt8} {u : NalUnit} {tally : Tally}

theorem counted_apply (tally : Tally) (u : NalUnit) {type : NalUnitType}
    (known : isCounted type = true) :
    tally.counted u type = tally type + if u.header.type = type then 1 else 0 := by
  unfold counted
  by_cases same : u.header.type = type
  · subst same
    rw [if_pos known, if_pos rfl, Function.update_self]
  · rw [if_neg same, Int.add_zero]
    split
    · rw [Function.update_of_ne (Ne.symm same)]
    · rfl

theorem counted_bounds (tally : Tally) (u : NalUnit) (type : NalUnitType) :
    tally type ≤ tally.counted u type ∧ tally.counted u type ≤ tally type + 1 := by
  unfold counted
  split
  · by_cases same : type = u.header.type
    · subst same
      rw [Function.update_self]
      omega
    · rw [Function.update_of_ne same]
      omega
  · omega

theorem foldl_counted (units : List NalUnit) (tally : Tally) {type : NalUnitType}
    (known : isCounted type = true) :
    units.foldl counted tally type =
      tally type + (units.countP (·.header.type = type) : Nat) := by
  induction units generalizing tally with
  | nil => rw [List.foldl_nil, List.countP_nil, Nat.cast_zero, Int.add_zero]
  | cons u units ih =>
    rw [List.foldl_cons, ih, counted_apply tally u known, List.countP_cons]
    by_cases same : u.header.type = type
    · simp only [same, if_true, decide_true]
      omega
    · simp only [same, if_false, decide_false, Bool.false_eq_true]
      omega

theorem note_eq (lies : Lies data u) (within : Within u.start tally) :
    tally.note (Span.of data u) = .ok (.ok (tally.counted u)) := by
  have long := NalUnit.framed_length u
  have unit : u.framed.drop NalUnit.lengthSize = u.bytes := Lies.framed_drop u 0
  have small : tally u.header.type < 2 ^ 31 - 1 := by
    have few := within.few u.header.type
    have inside := lies.stop_le
    have size := lies.small
    rw [NalUnit.stop_eq] at inside
    unfold NalUnit.lengthSize NalUnitHeader.size at few
    omega
  have nonnegative := within.nonnegative u.header.type
  unfold note counted
  rw [lies.framed_eq, ok_bind, slice_behind (by omega), ok_bind, unit, header_eq,
    lies.framable.header, ok_bind]
  dsimp only
  by_cases known : isCounted u.header.type = true
  · rw [if_pos known, if_pos known, int_eq (by omega) (by omega)]
    rfl
  · rw [if_neg known, if_neg known]
    rfl

theorem Within.counted (within : Within u.start tally) (framable : u.Framable) :
    Within u.stop (tally.counted u) := by
  have long := NalUnit.framed_length u
  have header := framable.long
  have stop := NalUnit.stop_eq u
  have size : NalUnit.lengthSize + NalUnitHeader.size ≤ u.framed.length := by
    unfold NalUnit.size at long
    omega
  refine ⟨fun type => (within.nonnegative type).trans (counted_bounds tally u type).1, ?_⟩
  intro type
  have few := within.few type
  have more := (counted_bounds tally u type).2
  unfold NalUnit.lengthSize NalUnitHeader.size at few size ⊢
  omega

def score (tally : Tally) : Nat :=
  if 0 < tally .sps ∧ 0 < tally .pps ∧ (0 < tally .idr ∨ 3 < tally .nonIdr) then streamScore
  else 0

theorem score_eq {bytes : List UInt8}
    (met : ∀ type, isCounted type = true → tally type = (NalWalk.of bytes).count type) :
    tally.score = EvcStream.likeness bytes := by
  unfold score EvcStream.likeness
  rw [met .sps rfl, met .pps rfl, met .idr rfl, met .nonIdr rfl]
  norm_cast

end Tally

def likeness (bytes : List UInt8) : Checked Nat := do
  match ← walk Tally.note bytes 0 fun _ => 0 with
  | .ok tally | .error tally => return tally.score

theorem likeness_eq {bytes : List UInt8} (small : bytes.length < 2 ^ 32) :
    likeness bytes = .ok (EvcStream.likeness bytes) := by
  have start : Tally.Within 0 fun _ => 0 := ⟨fun _ => Int.le_refl 0, fun _ => Int.le_refl 0⟩
  have visits : Visits Tally.note (fun tally u => pure (tally.counted u)) Tally.Within bytes := by
    intro u tally lies within
    refine ⟨Tally.note_eq lies within, ?_⟩
    rintro next ⟨⟩
    exact within.counted lies.framable
  have walked := walk_eq small visits (Nat.zero_le _) start
  rw [List.foldlM_pure] at walked
  unfold likeness
  rw [walked, ok_bind]
  refine congrArg Except.ok (Tally.score_eq fun type known => ?_)
  rw [Tally.foldl_counted _ _ known, Int.zero_add]
  rfl

def addFramed (found : List (List UInt8)) (span : Span) :
    Checked (Except Empty (List (List UInt8))) := do
  return .ok (found ++ [← span.framed])

def framedUnits (bytes : List UInt8) : Checked (List (List UInt8)) := do
  match ← walk addFramed bytes 0 [] with
  | .ok found => return found

theorem foldl_framed (units : List NalUnit) (found : List (List UInt8)) :
    units.foldl (fun found u => found ++ [u.framed]) found = found ++ units.map NalUnit.framed := by
  induction units generalizing found with
  | nil => exact (List.append_nil found).symm
  | cons u units ih =>
    rw [List.foldl_cons, ih, List.append_assoc]
    rfl

theorem framedUnits_eq {bytes : List UInt8} (small : bytes.length < 2 ^ 32) :
    framedUnits bytes = .ok ((NalWalk.of bytes).units.map NalUnit.framed) := by
  have visits : ∀ u (found : List (List UInt8)), Lies bytes u →
      addFramed found (Span.of bytes u) = .ok (pure (found ++ [u.framed])) := by
    intro u found lies
    rw [addFramed, lies.framed_eq]
    rfl
  unfold framedUnits
  rw [walk_of_eq small visits, List.foldlM_pure, foldl_framed]
  rfl

namespace Draft

open EvcStream.DecoderConfig (Draft isCollected isParameterSet)

def describe (draft : Draft) (span : Span) : Checked (Except ConfigError Draft) :=
  if span.header.type = .sps ∧ draft.described = false then do
    match ← readSequence span with
    | .error fault => return .error (.stream fault)
    | .ok sps =>
      return (draft.config.describe sps).map fun config => { config, described := true }
  else return .ok draft

def add (allComplete : Bool) (draft : Draft) (span : Span) : Checked (Except ConfigError Draft) :=
  if isCollected span.header.type then do
    match ← describe draft span with
    | .error error => return .error error
    | .ok draft =>
      let unit ← span.bytes
      allocate unit.length
      let isComplete := allComplete && isParameterSet span.header.type
      return (draft.config.addUnit span.header.type unit isComplete).map fun config =>
        { draft with config }
  else return .ok draft

variable {data : List UInt8} {u : NalUnit} {draft : Draft} {allComplete : Bool}

theorem describe_eq (lies : Lies data u) :
    describe draft (Span.of data u) = .ok (draft.describe u) := by
  have typeEq : (Span.of data u).header.type = u.header.type := rfl
  unfold describe DecoderConfig.Draft.describe
  rw [typeEq, readSequence_eq lies]
  split
  · cases ParameterStore.readSequence u with
    | error fault => rfl
    | ok sps =>
      dsimp only [ok_bind]
      cases draft.config.describe sps <;> rfl
  · rfl

theorem add_eq (lies : Lies data u) :
    add allComplete draft (Span.of data u) = .ok (draft.add allComplete u) := by
  have typeEq : (Span.of data u).header.type = u.header.type := rfl
  have inside := lies.stop_le
  have small := lies.small
  unfold NalUnit.stop NalUnit.size at inside
  unfold add DecoderConfig.Draft.add
  rw [typeEq, describe_eq lies, lies.bytes_eq]
  split
  · rw [ok_bind]
    cases draft.describe u with
    | error error => rfl
    | ok draft =>
      dsimp only
      rw [ok_bind, allocate_eq (by unfold maxAllocation; omega), ok_bind]
      change Except.ok (Except.map _ (draft.config.addUnit _ _ _)) =
        Except.ok (draft.config.addUnit _ _ _ >>= _)
      cases draft.config.addUnit u.header.type u.bytes
        (allComplete && isParameterSet u.header.type) <;> rfl
  · rfl

end Draft

def spsCount (c : DecoderConfig) : Checked Nat :=
  ((c.groups.filter (·.type = .sps)).map (·.units.length)).foldlM
    (fun count more => word 64 (count + more)) 0

def checkSpsCount (c : DecoderConfig) : Checked (Except ConfigError Unit) := do
  let count ← spsCount c
  if 1 ≤ count ∧ count ≤ DecoderConfig.maxSpsCount then return .ok ()
  else return .error (.record (.spsCount count))

def ofStream (bytes : List UInt8) (allComplete : Bool) :
    Checked (Except ConfigError DecoderConfig) := do
  match ← walk (Draft.add allComplete) bytes 0 {} with
  | .error error => return .error error
  | .ok draft =>
    match ← checkSpsCount draft.config with
    | .error error => return .error error
    | .ok () => return .ok draft.config

section
variable {c : DecoderConfig} {bytes : List UInt8} {allComplete : Bool}

theorem foldlM_word {sizes : List Nat} {total : Nat} (small : total + sizes.sum < 2 ^ 64) :
    sizes.foldlM (fun count more => word 64 (count + more)) total = .ok (total + sizes.sum) := by
  induction sizes generalizing total with
  | nil => rfl
  | cons size sizes ih =>
    rw [List.sum_cons] at small ⊢
    rw [List.foldlM_cons, word_eq (by omega), ok_bind, ih (by omega), Nat.add_assoc]

theorem spsCount_eq (small : c.spsCount < 2 ^ 64) : spsCount c = .ok c.spsCount := by
  have sum : ((c.groups.filter (·.type = .sps)).map (·.units.length)).sum = c.spsCount := by
    rw [DecoderConfig.spsCount, List.length_flatMap]
  rw [← sum] at small ⊢
  rw [spsCount, foldlM_word (by omega), Nat.zero_add]

theorem checkSpsCount_eq (small : c.spsCount < 2 ^ 64) :
    checkSpsCount c = .ok c.checkSpsCount := by
  unfold checkSpsCount DecoderConfig.checkSpsCount
  rw [spsCount_eq small, ok_bind]
  split <;> rfl

theorem units_length_le (bytes : List UInt8) : (NalWalk.of bytes).units.length ≤ bytes.length := by
  have whole := (NalWalk.framed_prefix 0 bytes).length_le
  have each : ∀ units : List NalUnit, units.length ≤ (units.flatMap NalUnit.framed).length := by
    intro units
    induction units with
    | nil => exact Nat.le_refl 0
    | cons u units ih =>
      have long := NalUnit.framed_length u
      rw [List.flatMap_cons, List.length_append, List.length_cons]
      unfold NalUnit.lengthSize at long
      omega
  exact Nat.le_trans (each _) whole

theorem ofStream_eq (small : bytes.length < 2 ^ 32) :
    ofStream bytes allComplete = .ok (DecoderConfig.ofStream bytes allComplete) := by
  unfold ofStream DecoderConfig.ofStream
  rw [walk_of_eq small fun _ _ lies => Draft.add_eq lies, ok_bind]
  cases added : (NalWalk.of bytes).units.foldlM (DecoderConfig.Draft.add allComplete) {} with
  | error error => rfl
  | ok draft =>
    have holds := DecoderConfig.Draft.holds_of_added
      (fun u member => NalWalk.framable_of_mem member) added
    have few : draft.config.spsCount ≤ bytes.length := by
      rw [DecoderConfig.spsCount_grouped holds.groups]
      refine Nat.le_trans (List.length_filter_le _ _) ?_
      exact Nat.le_trans (List.length_filter_le _ _) (units_length_le bytes)
    dsimp only
    rw [checkSpsCount_eq (by omega), ok_bind]
    change _ = Except.ok (draft.config.checkSpsCount >>= _)
    cases draft.config.checkSpsCount <;> rfl

end
end EvcStream.Machine
