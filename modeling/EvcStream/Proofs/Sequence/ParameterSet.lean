import EvcStream.Proofs.Sequence.Tools
import EvcStream.Proofs.Sequence.Vui
/-!
# Round trip of sequence parameter sets

A sequence parameter set is well formed if each of its parts is, if its sub-GOP is at its default
where it is not coded, and if it has no chroma tables without chroma. A well-formed set is composed
into one unit, and every store reads the same set from that unit. Every set that is decoded is well
formed, and its code is what was read.
-/
namespace EvcStream

open Decoder (Exact)
open ExpGolomb (Codable)

@[mk_iff]
structure SequenceFormat.WellFormed (f : SequenceFormat) : Prop where
  id : f.id ≤ SequenceParameterSet.maxId
  profileIdc : f.profileIdc < 2 ^ 8
  levelIdc : f.levelIdc < 2 ^ 8
  toolsetIdcHigh : f.toolsetIdcHigh < 2 ^ 32
  toolsetIdcLow : f.toolsetIdcLow < 2 ^ 32
  chromaFormatIdc : f.chromaFormatIdc ≤ 3
  pictureWidth : Codable f.pictureWidth
  pictureHeight : Codable f.pictureHeight
  bitDepthLumaMinus8 : f.bitDepthLumaMinus8 ≤ 8
  bitDepthChromaMinus8 : f.bitDepthChromaMinus8 ≤ 8

instance SequenceFormat.decidableWellFormed (f : SequenceFormat) : Decidable f.WellFormed :=
  decidable_of_iff' _ (SequenceFormat.wellFormed_iff f)

theorem SequenceFormat.roundTrip {f : SequenceFormat} (valid : f.WellFormed) :
    RoundTrip 458 decode f.encode f := by
  unfold decode encode
  simp only [Coded.append_assoc]
  exact RoundTrip.mono (by decide) <|
    .bind (.ueMax valid.id) <|
    .bind (.u valid.profileIdc) <|
    .bind (.u valid.levelIdc) <|
    .bind (.u valid.toolsetIdcHigh) <|
    .bind (.u valid.toolsetIdcLow) <|
    .bind (.ueMax valid.chromaFormatIdc) <|
    .bind (.ue valid.pictureWidth) <|
    .bind (.ue valid.pictureHeight) <|
    .bind (.ueMax valid.bitDepthLumaMinus8) <|
    .last (.ueMax valid.bitDepthChromaMinus8)

theorem SequenceFormat.decode_exact : Exact decode encode WellFormed := by
  refine .bind (.ueMax _) fun _ id => ?_
  refine .bind (.u 8) fun _ profile => ?_
  refine .bind (.u 8) fun _ level => ?_
  refine .bind (.u 32) fun _ high => ?_
  refine .bind (.u 32) fun _ low => ?_
  refine .bind (.ueMax 3) fun _ chroma => ?_
  refine .bind .ue fun _ width => ?_
  refine .bind .ue fun _ height => ?_
  refine .bind (.ueMax 8) fun _ luma => ?_
  refine .bind (.ueMax 8) fun _ depth => ?_
  exact .done rfl ⟨id, profile, level, high, low, chroma, width, height, luma, depth⟩

theorem SequenceFormat.decode_unread {r s : BitReader} {f : SequenceFormat}
    (decoded : decode r = .ok f s) : 80 ≤ r.unread.length := by
  obtain ⟨_, _, id, behind⟩ := bind_run_ok decoded
  obtain ⟨_, _, profile, behind⟩ := bind_run_ok behind
  obtain ⟨_, _, level, behind⟩ := bind_run_ok behind
  obtain ⟨_, _, high, behind⟩ := bind_run_ok behind
  obtain ⟨_, _, low, -⟩ := bind_run_ok behind
  obtain ⟨-, bits, -, moved⟩ := Exact.ueMax _ _ _ _ id
  have front := moved.length
  have second := Decoder.unread_of_u profile
  have third := Decoder.unread_of_u level
  have fourth := Decoder.unread_of_u high
  have fifth := Decoder.unread_of_u low
  omega

namespace SequenceParameterSet

@[mk_iff]
structure WellFormed (s : SequenceParameterSet) : Prop where
  format : s.format.WellFormed
  partition : ∀ p ∈ s.partition, p.WellFormed
  splitOrder : ∀ o ∈ s.splitOrder, o.WellFormed
  motion : s.motion.WellFormed
  intra : ∀ i ∈ s.intra, i.WellFormed
  log2MaxOrderLsbMinus4 : ∀ width ∈ s.log2MaxOrderLsbMinus4, width ≤ maxLog2MaxOrderLsbMinus4
  subGop : usesSubGop s.countsInSlices s.references.isListed = true → s.subGop.WellFormed
  noSubGop : usesSubGop s.countsInSlices s.references.isListed = false → s.subGop = {}
  references : s.references.WellFormed
  cropping : ∀ c ∈ s.cropping, c.WellFormed
  chromaQp : ∀ t ∈ s.chromaQp, t.WellFormed
  monochrome : s.format.chromaFormatIdc = 0 → s.chromaQp = none
  vui : ∀ v ∈ s.vui, v.WellFormed

instance decidableWellFormed (s : SequenceParameterSet) : Decidable s.WellFormed :=
  decidable_of_iff' _ (wellFormed_iff s)

theorem roundTrip {s : SequenceParameterSet} (valid : s.WellFormed) :
    RoundTrip 108763 decode s.encode s := by
  have subGop : RoundTrip 126
      (if usesSubGop s.countsInSlices s.references.isListed then SubGop.decode else pure {})
      (if usesSubGop s.countsInSlices s.references.isListed then s.subGop.encode
        else Coded.empty) s.subGop :=
    .guarded (fun used => SubGop.roundTrip (valid.subGop used))
      (fun unused => valid.noSubGop (eq_false_of_ne_true unused))
  have chromaQp : RoundTrip 8133
      (if s.format.chromaFormatIdc = 0 then pure none else .flagged ChromaQpTables.decode)
      (if s.format.chromaFormatIdc = 0 then Coded.empty
        else Coded.flagged ChromaQpTables.encode s.chromaQp) s.chromaQp :=
    RoundTrip.mono (by decide) <| .ite
      (fun monochrome => .of_eq (.pure none) (valid.monochrome monochrome).symm)
      (fun _ => .flagged fun t present => ChromaQpTables.roundTrip (valid.chromaQp t present))
  unfold decode encode
  simp only [Coded.append_assoc]
  exact RoundTrip.mono (by decide) <|
    .bind (SequenceFormat.roundTrip valid.format) <|
    .bind (.flagged fun p present => BlockPartition.roundTrip (valid.partition p present)) <|
    .bind (.flagged fun o present => SplitOrder.roundTrip (valid.splitOrder o present)) <|
    .bind (MotionTools.roundTrip valid.motion) <|
    .bind (.flagged fun i present => IntraTools.roundTrip (valid.intra i present)) <|
    .bind (.flagged fun adaptive _ => .flag adaptive) <|
    .bind (.flagged fun adaptive _ => .flag adaptive) <|
    .bind (LoopTools.roundTrip s.loop) <|
    .bind (.flag s.references.isListed) <|
    .bind (.flag s.countsInSlices) <|
    .bind (.flag s.deltaQuantisation) <|
    .bind (.flag s.dynamicRangeAdjustment) <|
    .bind (.optional fun width present => .ueMax (valid.log2MaxOrderLsbMinus4 width present)) <|
    .bind_ite subGop <|
    .bind (ReferenceStructure.roundTrip valid.references) <|
    .bind (.flagged fun c present => PictureCropping.roundTrip (valid.cropping c present)) <|
    .bind_ite chromaQp <|
    .last (.flagged fun v present => VuiParameters.roundTrip (valid.vui v present))

theorem decode_exact : Exact decode encode WellFormed := by
  refine .bind SequenceFormat.decode_exact fun f format => ?_
  refine .bind (.flagged BlockPartition.decode_exact) fun _ partition => ?_
  refine .bind (.flagged SplitOrder.decode_exact) fun _ splitOrder => ?_
  refine .bind MotionTools.decode_exact fun _ motion => ?_
  refine .bind (.flagged IntraTools.decode_exact) fun _ intra => ?_
  refine .bind (.flagged .flag) fun _ _ => ?_
  refine .bind (.flagged .flag) fun _ _ => ?_
  refine .bind LoopTools.decode_exact fun _ _ => ?_
  refine .bind .flag fun listsReferences _ => ?_
  refine .bind .flag fun countsInSlices _ => ?_
  refine .bind .flag fun _ _ => ?_
  refine .bind .flag fun _ _ => ?_
  refine .bind (.optional _ (.ueMax _)) fun width ⟨counts, narrow⟩ => ?_
  refine .bind_ite (.guarded SubGop.decode_exact) fun _ ⟨subGop, noSubGop⟩ => ?_
  refine .bind (ReferenceStructure.decode_exact _) fun r ⟨references, lists⟩ => ?_
  refine .bind (.flagged PictureCropping.decode_exact) fun _ cropping => ?_
  refine .bind_ite (.ite (fun _ => .pure none) fun _ => .flagged ChromaQpTables.decode_exact)
    fun _ ⟨monochrome, chromaQp⟩ => ?_
  refine .bind (.flagged VuiParameters.decode_exact) fun _ vui => ?_
  subst counts lists
  refine .done rfl ?_
  refine ⟨format, partition, splitOrder, motion, intra, narrow, subGop, ?_, references, cropping,
    ?_, monochrome, vui⟩
  · exact fun unused => noSubGop (ne_true_of_eq_false unused)
  · intro t present
    by_cases colourless : f.chromaFormatIdc = 0
    · rw [monochrome colourless] at present
      cases present
    · exact chromaQp colourless t present

/-- Composing a well-formed set succeeds, and adding the unit to a store gives the set back. -/
theorem addSequence_compose {s : SequenceParameterSet} (valid : s.WellFormed)
    (temporalId : Nat) :
    ∃ bytes u, s.compose temporalId = .ok bytes ∧ NalUnit.ofFramed bytes = .ok u ∧
      u.header = NalUnitHeader.plain .sps temporalId ∧
      ∀ store : ParameterStore, store.addSequence u =
        .ok (s, { store with sequences := store.sequences.insert s.format.id s }) := by
  obtain ⟨bytes, u, composed, framed, header, read⟩ :=
    NalUnit.compose_roundTrip .sps temporalId (roundTrip valid) (by decide)
  have expected : u.header.type ∈ [.sps] := by
    rw [header]
    exact List.mem_singleton_self _
  refine ⟨bytes, u, composed, framed, header, ?_⟩
  intro store
  have found : ParameterStore.readSequence u = .ok s := NalUnit.require_read expected read
  rw [ParameterStore.addSequence, found]
  rfl

/-- Lists in both directions, one of which goes back and forth, and a table for each component. -/
theorem addSequence_compose_listed :
    let s : SequenceParameterSet :=
      { format := {
          id := 15, profileIdc := 1, levelIdc := 255, toolsetIdcHigh := 2 ^ 32 - 1,
          chromaFormatIdc := 3, pictureWidth := 2 ^ 32 - 2, pictureHeight := 1080,
          bitDepthLumaMinus8 := 8 }
        motion := { advanced := true, mergeDifference := true }
        intra := some { log2MaxIbcCandSizeMinus2 := some 4 }
        subGop := { log2Length := 5 }
        references := .listed {
          maxDecPicBufferingMinus1 := 4
          forward := { count := 2, lists := [{ distances := [-1, -4, 2] }, {}] }
          backward := some {
            count := 1, lists := [{ distances := [-2 ^ 31, 2 ^ 31 - 2, 2 ^ 31 - 2] }] } }
        chromaQp := some {
          first := { pointsMinus1 := 1, inSteps := [63, 0], outSteps := [1 - 2 ^ 31, 5] }
          second := some { inSteps := [7], outSteps := [-7] } }
        vui := some {
          aspectRatio := some { idc := 255, width := 4, height := 3 }
          nalHrd := some { bitRateScale := 15, alternatives := [{ constantBitRate := true }] }
          lowDelayHrd := true } }
    s.WellFormed ∧ ∃ bytes u, s.compose 9 = .ok bytes ∧ NalUnit.ofFramed bytes = .ok u ∧
      u.header = NalUnitHeader.plain .sps 9 ∧
      ∀ store : ParameterStore, store.addSequence u =
        .ok (s, { store with sequences := store.sequences.insert 15 s }) := by
  intro s
  have valid : s.WellFormed := by decide
  exact ⟨valid, addSequence_compose valid 9⟩

end SequenceParameterSet
end EvcStream
