import EvcStream.Proofs.Coding.RoundTrip
import Mathlib.Data.List.Chain
import Mathlib.Tactic.MkIffOfInductiveProp
/-!
# Round trips of tools, quantisation tables and reference structures

The parts of a sequence parameter set are well formed if their fields have code words, if tools that
are off are at their defaults, and if lists have the lengths announced for them. Well-formed parts
make the round trip. Nothing else is ever decoded, and only from its own code.
-/
namespace EvcStream

open Decoder (Exact)
open ExpGolomb (Codable CodableSigned)

@[mk_iff]
structure BlockPartition.WellFormed (p : BlockPartition) : Prop where
  log2CtuSizeMinus5 : Codable p.log2CtuSizeMinus5
  log2MinCbSizeMinus2 : Codable p.log2MinCbSizeMinus2
  log2DiffCtuMax14CbSize : Codable p.log2DiffCtuMax14CbSize
  log2DiffCtuMaxTtCbSize : Codable p.log2DiffCtuMaxTtCbSize
  log2DiffMinCbMinTtCbSizeMinus2 : Codable p.log2DiffMinCbMinTtCbSizeMinus2

instance BlockPartition.decidableWellFormed (p : BlockPartition) : Decidable p.WellFormed :=
  decidable_of_iff' _ (BlockPartition.wellFormed_iff p)

theorem BlockPartition.roundTrip {p : BlockPartition} (valid : p.WellFormed) :
    RoundTrip 315 decode p.encode p := by
  unfold decode encode
  simp only [Coded.append_assoc]
  exact RoundTrip.mono (by decide) <|
    .bind (.ue valid.log2CtuSizeMinus5) <|
    .bind (.ue valid.log2MinCbSizeMinus2) <|
    .bind (.ue valid.log2DiffCtuMax14CbSize) <|
    .bind (.ue valid.log2DiffCtuMaxTtCbSize) <|
    .last (.ue valid.log2DiffMinCbMinTtCbSizeMinus2)

theorem BlockPartition.decode_exact : Exact decode encode WellFormed := by
  refine .bind .ue fun _ ctu => ?_
  refine .bind .ue fun _ minimum => ?_
  refine .bind .ue fun _ max14 => ?_
  refine .bind .ue fun _ maxTt => ?_
  refine .bind .ue fun _ minTt => ?_
  refine .done rfl ?_
  exact ⟨ctu, minimum, max14, maxTt, minTt⟩

@[mk_iff]
structure SplitOrder.WellFormed (s : SplitOrder) : Prop where
  log2DiffCtuSizeMaxSucoCbSize : Codable s.log2DiffCtuSizeMaxSucoCbSize
  log2DiffMaxSucoMinSucoCbSize : Codable s.log2DiffMaxSucoMinSucoCbSize

instance SplitOrder.decidableWellFormed (s : SplitOrder) : Decidable s.WellFormed :=
  decidable_of_iff' _ (SplitOrder.wellFormed_iff s)

theorem SplitOrder.roundTrip {s : SplitOrder} (valid : s.WellFormed) :
    RoundTrip 126 decode s.encode s := by
  unfold decode encode
  exact RoundTrip.mono (by decide) <|
    .bind (.ue valid.log2DiffCtuSizeMaxSucoCbSize) <|
    .last (.ue valid.log2DiffMaxSucoMinSucoCbSize)

theorem SplitOrder.decode_exact : Exact decode encode WellFormed := by
  refine .bind .ue fun _ largest => ?_
  refine .bind .ue fun _ smallest => ?_
  exact .done rfl ⟨largest, smallest⟩

/-- Without advanced motion prediction there is none of its refinements. -/
def MotionTools.WellFormed (m : MotionTools) : Prop := m.advanced = false → m = {}

instance MotionTools.decidableWellFormed (m : MotionTools) : Decidable m.WellFormed :=
  inferInstanceAs (Decidable (_ → _))

theorem MotionTools.roundTrip {m : MotionTools} (valid : m.WellFormed) :
    RoundTrip 6 decode m.encode m := by
  unfold decode encode
  simp only [Coded.append_assoc]
  refine RoundTrip.mono (by decide) <| .bind (.flag m.advanced) <|
    .ite
      (fun advanced => .of_eq
        (.bind (.flag m.affine) <|
          .bind (.flag m.adaptiveResolution) <|
          .bind (.flag m.decoderRefinement) <|
          .bind (.flag m.mergeDifference) <|
          .last (.flag m.history))
        ?_)
      (fun basic => .of_eq (.pure _) ?_)
  · rw [← advanced]
  · exact (valid (by simpa using basic)).symm

theorem MotionTools.decode_exact : Exact decode encode WellFormed := by
  refine .bind .flag fun advanced _ => ?_
  refine .ite (fun on => ?_) (fun off => ?_)
  · refine .bind .flag fun _ _ => ?_
    refine .bind .flag fun _ _ => ?_
    refine .bind .flag fun _ _ => ?_
    refine .bind .flag fun _ _ => ?_
    refine .bind .flag fun _ _ => ?_
    refine .done ?_ ?_
    · rw [on]
      simp only [encode, if_true, Coded.append_assoc]
    · intro off
      cases off
  · refine .done ?_ fun _ => rfl
    rw [eq_false_of_ne_true off]
    rfl

def IntraTools.WellFormed (i : IntraTools) : Prop :=
  ∀ size ∈ i.log2MaxIbcCandSizeMinus2, Codable size

instance IntraTools.decidableWellFormed (i : IntraTools) : Decidable i.WellFormed :=
  inferInstanceAs (Decidable (∀ size ∈ i.log2MaxIbcCandSizeMinus2, Codable size))

theorem IntraTools.roundTrip {i : IntraTools} (valid : i.WellFormed) :
    RoundTrip 64 decode i.encode i :=
  .last (.flagged fun size present => .ue (valid size present))

theorem IntraTools.decode_exact : Exact decode encode WellFormed := by
  refine .bind (.flagged .ue) fun _ size => ?_
  exact .done rfl size

theorem LoopTools.roundTrip (l : LoopTools) : RoundTrip 3 decode l.encode l := by
  unfold decode encode
  simp only [Coded.append_assoc]
  exact RoundTrip.mono (by decide) <|
    .bind (.flag l.advancedDeblocking) <|
    .bind (.flag l.adaptiveLoopFilter) <|
    .last (.flag l.hadamardFilter)

theorem LoopTools.decode_exact : Exact decode encode fun _ => True := by
  refine .bind .flag fun _ _ => ?_
  refine .bind .flag fun _ _ => ?_
  refine .bind .flag fun _ _ => ?_
  exact .done rfl trivial

@[mk_iff]
structure PictureCropping.WellFormed (c : PictureCropping) : Prop where
  left : Codable c.left
  right : Codable c.right
  top : Codable c.top
  bottom : Codable c.bottom

instance PictureCropping.decidableWellFormed (c : PictureCropping) : Decidable c.WellFormed :=
  decidable_of_iff' _ (PictureCropping.wellFormed_iff c)

theorem PictureCropping.roundTrip {c : PictureCropping} (valid : c.WellFormed) :
    RoundTrip 252 decode c.encode c := by
  unfold decode encode
  simp only [Coded.append_assoc]
  exact RoundTrip.mono (by decide) <|
    .bind (.ue valid.left) <|
    .bind (.ue valid.right) <|
    .bind (.ue valid.top) <|
    .last (.ue valid.bottom)

theorem PictureCropping.decode_exact : Exact decode encode WellFormed := by
  refine .bind .ue fun _ left => ?_
  refine .bind .ue fun _ right => ?_
  refine .bind .ue fun _ top => ?_
  refine .bind .ue fun _ bottom => ?_
  exact .done rfl ⟨left, right, top, bottom⟩

@[mk_iff]
structure QpTable.WellFormed (t : QpTable) : Prop where
  pointsMinus1 : t.pointsMinus1 ≤ maxPoints - 1
  inSteps_length : t.inSteps.length = t.pointsMinus1 + 1
  outSteps_length : t.outSteps.length = t.pointsMinus1 + 1
  inSteps : ∀ step ∈ t.inSteps, step < 2 ^ 6
  outSteps : ∀ step ∈ t.outSteps, CodableSigned step

instance QpTable.decidableWellFormed (t : QpTable) : Decidable t.WellFormed :=
  decidable_of_iff' _ (QpTable.wellFormed_iff t)

theorem QpTable.point_roundTrip {point : Nat × Int} (fits : point.1 < 2 ^ 6)
    (codable : CodableSigned point.2) : RoundTrip 69 decodePoint (encodePoint point) point :=
  RoundTrip.mono (by decide) <| .bind (.u fits) <| .last (.se codable)

theorem QpTable.decodePoint_exact :
    Exact decodePoint encodePoint fun point => point.1 < 2 ^ 6 ∧ CodableSigned point.2 := by
  refine .bind (.u 6) fun _ inStep => ?_
  refine .bind .se fun _ outStep => ?_
  exact .done rfl ⟨inStep, outStep⟩

theorem QpTable.roundTrip {t : QpTable} (valid : t.WellFormed) :
    RoundTrip 4065 decode t.encode t := by
  have count : (t.inSteps.zip t.outSteps).length = t.pointsMinus1 + 1 := by
    rw [List.length_zip, valid.inSteps_length, valid.outSteps_length, Nat.min_self]
  have points : RoundTrip (58 * 69) (Decoder.times (t.pointsMinus1 + 1) decodePoint)
      (Coded.each encodePoint (t.inSteps.zip t.outSteps)) (t.inSteps.zip t.outSteps) := by
    refine .times count (Nat.succ_le_succ valid.pointsMinus1) ?_
    intro point member
    obtain ⟨left, right⟩ := List.of_mem_zip member
    exact point_roundTrip (valid.inSteps _ left) (valid.outSteps _ right)
  have same : t.inSteps.length = t.outSteps.length :=
    valid.inSteps_length.trans valid.outSteps_length.symm
  have inSteps : (t.inSteps.zip t.outSteps).map Prod.fst = t.inSteps :=
    List.map_fst_zip (Nat.le_of_eq same)
  have outSteps : (t.inSteps.zip t.outSteps).map Prod.snd = t.outSteps :=
    List.map_snd_zip (Nat.le_of_eq same.symm)
  have read : RoundTrip 4065 decode t.encode
      { t with
        inSteps := (t.inSteps.zip t.outSteps).map Prod.fst
        outSteps := (t.inSteps.zip t.outSteps).map Prod.snd } :=
    RoundTrip.mono (by decide) <|
      .require ⟨valid.inSteps_length, valid.outSteps_length⟩ <|
      .bind (.ueMax valid.pointsMinus1) <|
      .last points
  rwa [inSteps, outSteps] at read

theorem QpTable.decode_exact : Exact decode encode WellFormed := by
  refine .bind (.ueMax _) fun pointsMinus1 few => ?_
  refine .bind (.times (pointsMinus1 + 1) decodePoint_exact) fun points ⟨counted, valid⟩ => ?_
  refine .done ?_ ?_
  · have zipped : (points.map Prod.fst).zip (points.map Prod.snd) = points :=
      (List.zip_of_prod rfl rfl).symm
    simp only [encode, zipped, List.length_map]
    exact if_pos ⟨counted, counted⟩
  · refine ⟨few, ?_, ?_, ?_, ?_⟩
    · exact (List.length_map _).trans counted
    · exact (List.length_map _).trans counted
    · intro step member
      obtain ⟨point, isPoint, rfl⟩ := List.mem_map.mp member
      exact (valid point isPoint).1
    · intro step member
      obtain ⟨point, isPoint, rfl⟩ := List.mem_map.mp member
      exact (valid point isPoint).2

@[mk_iff]
structure ChromaQpTables.WellFormed (t : ChromaQpTables) : Prop where
  first : t.first.WellFormed
  second : ∀ table ∈ t.second, table.WellFormed

instance ChromaQpTables.decidableWellFormed (t : ChromaQpTables) : Decidable t.WellFormed :=
  decidable_of_iff' _ (ChromaQpTables.wellFormed_iff t)

theorem ChromaQpTables.roundTrip {t : ChromaQpTables} (valid : t.WellFormed) :
    RoundTrip 8132 decode t.encode t := by
  unfold decode encode
  simp only [Coded.append_assoc]
  exact RoundTrip.mono (by decide) <|
    .bind (.flag t.second.isNone) <|
    .bind (.flag t.globalOffset) <|
    .bind (QpTable.roundTrip valid.first) <|
    .last (.optional_unless fun table present => QpTable.roundTrip (valid.second table present))

theorem ChromaQpTables.decode_exact : Exact decode encode WellFormed := by
  refine .bind .flag fun shared _ => ?_
  refine .bind .flag fun globalOffset _ => ?_
  refine .bind QpTable.decode_exact fun first valid => ?_
  refine .bind (.optional _ QpTable.decode_exact) fun second ⟨own, others⟩ => ?_
  refine .done ?_ ⟨valid, others⟩
  have flagged : second.isNone = shared := by rw [← Option.not_isSome, own, Bool.not_not]
  rw [encode, flagged]

namespace RefPicList

/-- Whether the step from one distance to the next has a code word. -/
def StepFits (distance next : Int) : Prop := Codable (next - distance).natAbs

instance (distance next : Int) : Decidable (StepFits distance next) :=
  inferInstanceAs (Decidable (_ < _))

@[mk_iff]
structure WellFormed (list : RefPicList) : Prop where
  length : list.distances.length ≤ maxLength
  inRange : ∀ distance ∈ list.distances, InRange distance
  steps : list.distances.IsChain StepFits

instance decidableWellFormed (list : RefPicList) : Decidable list.WellFormed :=
  decidable_of_iff' _ (wellFormed_iff list)

theorem step_roundTrip {step : Int} (fits : Codable step.natAbs) :
    RoundTrip 64 decodeStep (encodeStep step) step := by
  refine RoundTrip.mono (by decide) <| .require (by omega) <| .bind (.ue fits) (n := 1) ?_
  rcases Int.lt_trichotomy step 0 with negative | rfl | positive
  · have sign : decide (step < 0) = true := decide_eq_true negative
    rw [if_neg (by omega), if_neg (by omega), sign]
    refine (RoundTrip.flag true).bind_empty ?_
    rw [if_pos rfl]
    exact .of_eq (.pure _) (by omega)
  · exact (RoundTrip.pure 0).mono (Nat.zero_le 1)
  · have sign : decide (step < 0) = false := decide_eq_false (by omega)
    rw [if_neg (by omega), if_neg (by omega), sign]
    refine (RoundTrip.flag false).bind_empty ?_
    rw [if_neg Bool.false_ne_true]
    exact .of_eq (.pure _) (by omega)

theorem decodeStep_exact : Exact decodeStep encodeStep fun step => Codable step.natAbs := by
  refine .bind .ue fun magnitude codable => ?_
  refine .ite (fun zero => ?_) (fun nonzero => ?_)
  · subst zero
    exact .done (Coded.append_empty _) codable
  · have coded (negative : Bool) (step : Int) (size : step.natAbs = magnitude)
        (sign : decide (step < 0) = negative) :
        encodeStep step = Coded.ue magnitude ++ Coded.flag negative := by
      rw [encodeStep, Coded.require, if_pos (by omega), if_neg (by omega), size, sign]
    refine .bind .flag fun negative _ => ?_
    refine .ite (fun minus => ?_) (fun plus => ?_)
    · exact .done (coded negative _ (by omega) (by rw [minus, decide_eq_true]; omega))
        (by omega)
    · rw [eq_false_of_ne_true plus]
      exact .done (coded false _ (by omega) (decide_eq_false (by omega))) (by omega)

theorem steps_roundTrip {previous : Int} {distances : List Int}
    (inRange : ∀ distance ∈ distances, InRange distance)
    (steps : (previous :: distances).IsChain StepFits) :
    RoundTrip (distances.length * 64) (decodeFrom distances.length previous)
      (encodeFrom previous distances) distances := by
  induction distances generalizing previous with
  | nil => exact (RoundTrip.pure []).mono (Nat.zero_le _)
  | cons distance others ih =>
    obtain ⟨fits, later⟩ := List.isChain_cons_cons.mp steps
    have tail := ih (fun d member => inRange d (List.mem_cons_of_mem distance member)) later
    have reached : previous + (distance - previous) = distance := by omega
    rw [List.length_cons, Nat.succ_mul, Nat.add_comm]
    refine (step_roundTrip fits).bind ?_
    dsimp only
    rw [reached, if_pos (inRange distance List.mem_cons_self)]
    exact tail.last

theorem decodeFrom_exact (count : Nat) (previous : Int) :
    Exact (decodeFrom count previous) (encodeFrom previous) fun distances =>
      distances.length = count ∧ (∀ distance ∈ distances, InRange distance) ∧
        (previous :: distances).IsChain StepFits := by
  induction count generalizing previous with
  | zero =>
    refine .of_behind (.done rfl ⟨rfl, ?_, List.IsChain.singleton previous⟩)
    intro distance absent
    cases absent
  | succ count ih =>
    refine .bind decodeStep_exact fun step fits => ?_
    have taken : previous + step - previous = step := by omega
    refine .ite (fun near => ?_) (fun _ => .throw _)
    refine .bind (ih (previous + step)) fun others ⟨counted, inRange, steps⟩ => ?_
    refine .done ?_ ⟨?_, ?_, ?_⟩
    · rw [encodeFrom, taken]
    · rw [List.length_cons, counted]
    · exact List.forall_mem_cons.mpr ⟨near, inRange⟩
    · refine List.isChain_cons_cons.mpr ⟨?_, steps⟩
      rwa [StepFits, taken]

/-- The first step has a code word because the first distance is a 32-bit number. -/
theorem WellFormed.steps_from_zero {list : RefPicList} (valid : list.WellFormed) :
    (0 :: list.distances).IsChain StepFits := by
  cases distances : list.distances with
  | nil => exact List.IsChain.singleton 0
  | cons first others =>
    have near : InRange first := valid.inRange first (by rw [distances]; exact List.mem_cons_self)
    have steps := valid.steps
    rw [distances] at steps
    refine List.isChain_cons_cons.mpr ⟨?_, steps⟩
    obtain ⟨low, high⟩ := near
    unfold StepFits Codable
    omega

theorem roundTrip {list : RefPicList} (valid : list.WellFormed) :
    RoundTrip 1407 decode list.encode list := by
  have length := valid.length
  refine RoundTrip.mono (by decide) <|
    .require length <|
    .bind (.ueMax length) <|
    .last (.mono (n := 21 * 64) ?_ (steps_roundTrip valid.inRange valid.steps_from_zero))
  exact Nat.mul_le_mul_right 64 length

theorem decode_exact : Exact decode encode WellFormed := by
  refine .bind (.ueMax maxLength) fun count few => ?_
  refine .bind (decodeFrom_exact count 0) fun distances ⟨counted, inRange, steps⟩ => ?_
  refine .done ?_ ?_
  · rw [encode, Coded.require, counted]
    exact if_pos few
  · refine ⟨?_, inRange, ?_⟩
    · rw [counted]
      exact few
    · exact steps.tail

end RefPicList

@[mk_iff]
structure RefPicLists.WellFormed (l : RefPicLists) : Prop where
  count : l.count ≤ maxCount
  length : l.lists.length = l.count
  lists : ∀ list ∈ l.lists, list.WellFormed

instance RefPicLists.decidableWellFormed (l : RefPicLists) : Decidable l.WellFormed :=
  decidable_of_iff' _ (RefPicLists.wellFormed_iff l)

theorem RefPicLists.roundTrip {l : RefPicLists} (valid : l.WellFormed) :
    RoundTrip 45087 decode l.encode l := by
  exact RoundTrip.mono (by decide) <|
    .require valid.length <|
    .bind (.ueMax valid.count) <|
    .last (.times valid.length valid.count fun list member =>
      RefPicList.roundTrip (valid.lists list member))

theorem RefPicLists.decode_exact : Exact decode encode WellFormed := by
  refine .bind (.ueMax maxCount) fun count few => ?_
  refine .bind (.times count RefPicList.decode_exact) fun lists ⟨counted, valid⟩ => ?_
  refine .done ?_ ?_
  · exact if_pos counted
  · exact ⟨few, counted, valid⟩

@[mk_iff]
structure ListedReferences.WellFormed (r : ListedReferences) : Prop where
  maxDecPicBufferingMinus1 : Codable r.maxDecPicBufferingMinus1
  forward : r.forward.WellFormed
  backward : ∀ lists ∈ r.backward, lists.WellFormed

instance ListedReferences.decidableWellFormed (r : ListedReferences) : Decidable r.WellFormed :=
  decidable_of_iff' _ (ListedReferences.wellFormed_iff r)

theorem ListedReferences.roundTrip {r : ListedReferences} (valid : r.WellFormed) :
    RoundTrip 90239 decode r.encode r := by
  unfold decode encode
  simp only [Coded.append_assoc]
  exact RoundTrip.mono (by decide) <|
    .bind (.ue valid.maxDecPicBufferingMinus1) <|
    .bind (.flag r.longTerm) <|
    .bind (.flag r.backward.isNone) <|
    .bind (RefPicLists.roundTrip valid.forward) <|
    .last (.optional_unless fun lists present =>
      RefPicLists.roundTrip (valid.backward lists present))

theorem ListedReferences.decode_exact : Exact decode encode WellFormed := by
  refine .bind .ue fun _ buffering => ?_
  refine .bind .flag fun _ _ => ?_
  refine .bind .flag fun shared _ => ?_
  refine .bind RefPicLists.decode_exact fun _ forward => ?_
  refine .bind (.optional _ RefPicLists.decode_exact) fun backward ⟨own, valid⟩ => ?_
  refine .done ?_ ?_
  · have flagged : backward.isNone = shared := by rw [← Option.not_isSome, own, Bool.not_not]
    rw [encode, flagged]
  · exact ⟨buffering, forward, valid⟩

def ReferenceStructure.WellFormed : ReferenceStructure → Prop
  | .implied maxTid0RefPics => Codable maxTid0RefPics
  | .listed references => references.WellFormed

instance ReferenceStructure.decidableWellFormed (r : ReferenceStructure) :
    Decidable r.WellFormed :=
  match r with
  | .implied maxTid0RefPics => inferInstanceAs (Decidable (Codable maxTid0RefPics))
  | .listed references => inferInstanceAs (Decidable references.WellFormed)

theorem ReferenceStructure.roundTrip {r : ReferenceStructure} (valid : r.WellFormed) :
    RoundTrip 90239 (decode r.isListed) r.encode r := by
  cases r with
  | implied maxTid0RefPics => exact RoundTrip.mono (by decide) <| .last (.ue valid)
  | listed references => exact .last (ListedReferences.roundTrip valid)

theorem ReferenceStructure.decode_exact (isListed : Bool) :
    Exact (decode isListed) encode fun r => r.WellFormed ∧ r.isListed = isListed := by
  cases isListed with
  | false => exact .map .ue (fun _ _ => rfl) fun _ codable => ⟨codable, rfl⟩
  | true => exact .map ListedReferences.decode_exact (fun _ _ => rfl) fun _ valid => ⟨valid, rfl⟩

@[mk_iff]
structure SubGop.WellFormed (g : SubGop) : Prop where
  log2Length : g.log2Length ≤ maxLog2Length
  gap : g.log2Length = 0 → Codable g.log2RefPicGapLength
  noGap : g.log2Length ≠ 0 → g.log2RefPicGapLength = 0

instance SubGop.decidableWellFormed (g : SubGop) : Decidable g.WellFormed :=
  decidable_of_iff' _ (SubGop.wellFormed_iff g)

theorem SubGop.roundTrip {g : SubGop} (valid : g.WellFormed) :
    RoundTrip 126 decode g.encode g := by
  refine RoundTrip.mono (by decide) <|
    .bind (.ueMax valid.log2Length) <|
    .ite (fun single => .last (.ue (valid.gap single))) (fun longer => .of_eq (.pure _) ?_)
  rw [← valid.noGap longer]

theorem SubGop.decode_exact : Exact decode encode WellFormed := by
  refine .bind (.ueMax maxLog2Length) fun log2Length few => ?_
  refine .ite (fun single => ?_) (fun longer => ?_)
  · refine .bind .ue fun _ gap => ?_
    refine .done ?_ ?_
    · rw [encode, if_pos single]
    · exact ⟨few, fun _ => gap, fun longer => absurd single longer⟩
  · refine .done ?_ ?_
    · rw [encode, if_neg longer, Coded.append_empty]
    · exact ⟨few, fun single => absurd single longer, fun _ => rfl⟩

end EvcStream
