import EvcStream.Proofs.Machine.Decoding
/-!
# Picture parameter sets and slice headers on a machine

The widths of tile ids and of picture counts are sums of a coded number and a constant. A slice
header takes them from parameter sets, so it is read like its bits only where these are bounded.
-/
namespace EvcStream.Machine

open Machine.Decoder

def TileGrid.decode : Decoder TileGrid := do
  let columnsMinus1 ← ueMax (TileGrid.maxColumns - 1)
  let rowsMinus1 ← ueMax (TileGrid.maxRows - 1)
  return { columnsMinus1, rowsMinus1 }

theorem TileGrid.decode_does : Does decode EvcStream.TileGrid.decode := by
  refine .bind (.ueMax _) fun _ _ => ?_
  refine .bind (.ueMax _) fun _ _ => ?_
  exact .pure trivial

def TileSpacing.decode (grid : TileGrid) : Decoder TileSpacing := do
  let columnWidthsMinus1 ← times grid.columnsMinus1 ue
  let rowHeightsMinus1 ← times grid.rowsMinus1 ue
  return { columnWidthsMinus1, rowHeightsMinus1 }

theorem TileSpacing.decode_does (grid : TileGrid) :
    Does (decode grid) (EvcStream.TileSpacing.decode grid) := by
  refine .bind (.times _ .ue) fun _ _ => ?_
  refine .bind (.times _ .ue) fun _ _ => ?_
  exact .pure trivial

def Tiling.decode (grid : TileGrid) : Decoder Tiling := do
  let uniform ← flag
  let spacing ← optional (!uniform) (TileSpacing.decode grid)
  let loopFilterAcrossTiles ← flag
  let offsetLengthMinus1 ← ue
  return { spacing, loopFilterAcrossTiles, offsetLengthMinus1 }

theorem Tiling.decode_does (grid : TileGrid) :
    Does (decode grid) (EvcStream.Tiling.decode grid) := by
  refine .bind .flag fun _ _ => ?_
  refine .bind (.optional _ (TileSpacing.decode_does grid)) fun _ _ => ?_
  refine .bind .flag fun _ _ => ?_
  refine .bind .ue fun _ _ => ?_
  exact .pure trivial

namespace PictureParameterSet

def tileId (lengthMinus1 : Nat) : Decoder Nat := do
  u (← word 64 (lengthMinus1 + 1))

theorem tileId_does {lengthMinus1 : Nat} (short : lengthMinus1 ≤ 31) :
    Does (tileId lengthMinus1) (EvcStream.Decoder.u (lengthMinus1 + 1)) :=
  .lift (word_eq (by omega)) ((Does.u _).mono fun _ _ => trivial)

def decodeTileIds (grid : TileGrid) (lengthMinus1 : Nat) : Decoder (List (List Nat)) :=
  times (grid.rowsMinus1 + 1) (times (grid.columnsMinus1 + 1) (tileId lengthMinus1))

theorem decodeTileIds_does {grid : TileGrid} {lengthMinus1 : Nat} (short : lengthMinus1 ≤ 31) :
    Does (decodeTileIds grid lengthMinus1)
      (EvcStream.PictureParameterSet.decodeTileIds grid (lengthMinus1 + 1)) :=
  ((tileId_does short).times _).times _

def decodeWith (id spsId : Nat) : Decoder PictureParameterSet := do
  let activeRefs0Minus1 ← ue
  let activeRefs1Minus1 ← ue
  let additionalLongTermLsbLength ← ue
  let rpl1IndexPresent ← flag
  let single ← flag
  let grid ← if single then pure {} else TileGrid.decode
  let tiling ← optional (!single) (Tiling.decode grid)
  let tileIdLengthMinus1 ← ueMax 31
  let tileIds ← flagged (decodeTileIds grid tileIdLengthMinus1)
  let rangeAdjustmentApsId ← flagged (u 5)
  let arbitrarySlices ← flag
  let constrainedIntra ← flag
  let log2CuQpDeltaAreaMinus6 ← flagged ue
  return {
    id, spsId, activeRefsMinus1 := (activeRefs0Minus1, activeRefs1Minus1),
    additionalLongTermLsbLength, rpl1IndexPresent, grid, tiling, tileIdLengthMinus1, tileIds,
    rangeAdjustmentApsId, arbitrarySlices, constrainedIntra, log2CuQpDeltaAreaMinus6 }

theorem decodeWith_does (id spsId : Nat) :
    Does (decodeWith id spsId) (EvcStream.PictureParameterSet.decodeWith id spsId) := by
  refine .bind .ue fun _ _ => ?_
  refine .bind .ue fun _ _ => ?_
  refine .bind .ue fun _ _ => ?_
  refine .bind .flag fun _ _ => ?_
  have grid : ∀ single : Bool, Does (if single then pure {} else TileGrid.decode)
      (if single then pure {} else EvcStream.TileGrid.decode) :=
    fun _ => .ite (fun _ => .pure trivial) fun _ => TileGrid.decode_does
  refine .bind .flag fun single _ => ?_
  refine .bind_ite (grid single) fun grid _ => ?_
  refine .bind (.optional _ (Tiling.decode_does grid)) fun _ _ => ?_
  refine .bind (.ueMax 31) fun _ short => ?_
  refine .bind (.flagged (decodeTileIds_does short)) fun _ _ => ?_
  refine .bind (.flagged (.u 5)) fun _ _ => ?_
  refine .bind .flag fun _ _ => ?_
  refine .bind .flag fun _ _ => ?_
  refine .bind (.flagged .ue) fun _ _ => ?_
  exact .pure trivial

def decode (isKnown : Nat → Bool) : Decoder PictureParameterSet := do
  let id ← ueMax PictureParameterSet.maxId
  let spsId ← ueMax PictureParameterSet.maxSpsId
  if isKnown spsId then decodeWith id spsId else Run.fail (.unknownSps id spsId)

theorem decode_does (isKnown : Nat → Bool) :
    Does (decode isKnown) (EvcStream.PictureParameterSet.decode isKnown) := by
  refine .bind (.ueMax _) fun id _ => ?_
  refine .bind (.ueMax _) fun spsId _ => ?_
  exact .ite (fun _ => decodeWith_does id spsId) fun _ => .fail _

end PictureParameterSet

def SliceType.decode : Decoder SliceType := do
  match ← ueMax 2 with
  | 0 => return .b
  | 1 => return .p
  | _ => return .i

theorem SliceType.decode_does : Does decode EvcStream.SliceType.decode := by
  refine .bind (.ueMax 2) fun code _ => ?_
  rcases code with - | - | code
  all_goals exact .pure trivial

def TileSpan.decode (pps : PictureParameterSet) : Decoder TileSpan := do
  let chosen ← if pps.arbitrarySlices then flag else pure false
  if chosen then
    let remainingMinus1 ← ueMax (TileGrid.maxRows * TileGrid.maxColumns - 1)
    let stepsMinus1 ← times (remainingMinus1 + 1) ue
    return .chosen remainingMinus1 stepsMinus1
  else return .through (← PictureParameterSet.tileId pps.tileIdLengthMinus1)

theorem TileSpan.decode_does {pps : PictureParameterSet} (short : pps.tileIdLengthMinus1 ≤ 31) :
    Does (decode pps) (EvcStream.TileSpan.decode pps) := by
  refine .bind_ite (.guarded .flag) fun _ _ => ?_
  refine .ite (fun _ => ?_) fun _ => ?_
  · refine .bind (.ueMax _) fun _ _ => ?_
    refine .bind (.times _ .ue) fun _ _ => ?_
    exact .pure trivial
  · refine .bind (PictureParameterSet.tileId_does short) fun _ _ => ?_
    exact .pure trivial

namespace SliceLoopFilter

def decodeChroma (enabled : Bool) : Decoder (Nat × Bool) := do
  if enabled then
    let apsId ← u 5
    let map ← flag
    return (apsId, map)
  else return (0, false)

theorem decodeChroma_does (enabled : Bool) :
    Does (decodeChroma enabled) (EvcStream.SliceLoopFilter.decodeChroma enabled) := by
  refine .ite (fun _ => ?_) fun _ => .pure trivial
  refine .bind (.u 5) fun _ _ => ?_
  refine .bind .flag fun _ _ => ?_
  exact .pure trivial

def decodeLuma (chromaFormatIdc : Nat) : Decoder SliceLoopFilter := do
  if ← flag then
    let lumaApsId ← u 5
    let lumaMap ← flag
    let chromaIdc ← u 2
    if (chromaFormatIdc = 1 ∨ chromaFormatIdc = 2) ∧ 0 < chromaIdc then
      let chromaApsId ← u 5
      return { enabled := true, lumaApsId, lumaMap, chromaIdc, chromaApsId }
    else return { enabled := true, lumaApsId, lumaMap, chromaIdc }
  else return {}

theorem decodeLuma_does (chromaFormatIdc : Nat) :
    Does (decodeLuma chromaFormatIdc) (EvcStream.SliceLoopFilter.decodeLuma chromaFormatIdc) := by
  refine .bind .flag fun _ _ => ?_
  refine .ite (fun _ => ?_) fun _ => .pure trivial
  refine .bind (.u 5) fun _ _ => ?_
  refine .bind .flag fun _ _ => ?_
  refine .bind (.u 2) fun _ _ => ?_
  refine .ite (fun _ => ?_) fun _ => .pure trivial
  refine .bind (.u 5) fun _ _ => ?_
  exact .pure trivial

def decode (chromaFormatIdc : Nat) : Decoder SliceLoopFilter := do
  let filter ← decodeLuma chromaFormatIdc
  if chromaFormatIdc = 3 then
    let chromaIdc ← if filter.enabled then pure filter.chromaIdc else u 2
    let filter := { filter with chromaIdc }
    let (chromaApsId, chromaMap) ← decodeChroma filter.chromaEnabled.1
    let (chroma2ApsId, chroma2Map) ← decodeChroma filter.chromaEnabled.2
    return { filter with chromaApsId, chromaMap, chroma2ApsId, chroma2Map }
  else return filter

theorem decode_does (chromaFormatIdc : Nat) :
    Does (decode chromaFormatIdc) (EvcStream.SliceLoopFilter.decode chromaFormatIdc) := by
  refine .bind (decodeLuma_does _) fun filter _ => ?_
  refine .ite (fun _ => ?_) fun _ => .pure trivial
  have chroma : Does (if filter.enabled then pure filter.chromaIdc else u 2)
      (if filter.enabled then pure filter.chromaIdc else EvcStream.Decoder.u 2) :=
    .ite (fun _ => .pure trivial) fun _ => (Does.u 2).mono fun _ _ => trivial
  refine .bind_ite chroma fun _ _ => ?_
  refine .bind (decodeChroma_does _) fun _ _ => ?_
  refine .bind (decodeChroma_does _) fun _ _ => ?_
  exact .pure trivial

end SliceLoopFilter

/-- The sizes that a slice header takes from its parameter sets are within their bounds. -/
structure SliceSizes (pps : PictureParameterSet) (sps : SequenceParameterSet) : Prop where
  tileIdLength : pps.tileIdLengthMinus1 ≤ 31
  orderLsbWidth : sps.orderLsbWidth ≤ 16

namespace SliceHeader

def orderLsb (sps : SequenceParameterSet) : Decoder Nat := do
  u (← word 64 (sps.log2MaxOrderLsbMinus4.getD 0 + 4))

theorem orderLsb_does {sps : SequenceParameterSet} (short : sps.orderLsbWidth ≤ 16) :
    Does (orderLsb sps) (EvcStream.Decoder.u sps.orderLsbWidth) :=
  .lift (word_eq (Nat.lt_of_le_of_lt short (by decide))) ((Does.u _).mono fun _ _ => trivial)

def decodeWith (isIdr : Bool) (ppsId : Nat) (pps : PictureParameterSet)
    (sps : SequenceParameterSet) : Decoder SliceHeader := do
  let single ← if pps.isSingleTile then pure true else flag
  let firstTileId ←
    if pps.isSingleTile then pure 0 else PictureParameterSet.tileId pps.tileIdLengthMinus1
  let span ← if single then pure .single else TileSpan.decode pps
  let type ← SliceType.decode
  let noOutputOfPriorPictures ← if isIdr then flag else pure false
  let mergeDifferenceGroups ←
    if sps.motion.mergeDifference && type.isInter then flag else pure false
  let loopFilter ←
    if sps.loop.adaptiveLoopFilter then SliceLoopFilter.decode sps.format.chromaFormatIdc
    else pure {}
  let orderLsb ← if !isIdr && sps.countsInSlices then orderLsb sps else pure 0
  return {
    ppsId, firstTileId, span, type, noOutputOfPriorPictures, mergeDifferenceGroups, loopFilter,
    orderLsb }

theorem decodeWith_does (isIdr : Bool) (ppsId : Nat) {pps : PictureParameterSet}
    {sps : SequenceParameterSet} (sizes : SliceSizes pps sps) :
    Does (decodeWith isIdr ppsId pps sps)
      (EvcStream.SliceHeader.decodeWith isIdr ppsId pps sps) := by
  have single : Does (if pps.isSingleTile then pure true else flag)
      (if pps.isSingleTile then pure true else EvcStream.Decoder.flag) :=
    .ite (fun _ => .pure trivial) fun _ => .flag
  have firstTileId : Does
      (if pps.isSingleTile then pure 0 else PictureParameterSet.tileId pps.tileIdLengthMinus1)
      (if pps.isSingleTile then pure 0 else EvcStream.Decoder.u pps.tileIdLength) :=
    .ite (fun _ => .pure trivial) fun _ => PictureParameterSet.tileId_does sizes.tileIdLength
  have span : ∀ single : Bool, Does (if single then pure .single else TileSpan.decode pps)
      (if single then pure .single else EvcStream.TileSpan.decode pps) :=
    fun _ => .ite (fun _ => .pure trivial) fun _ => TileSpan.decode_does sizes.tileIdLength
  refine .bind_ite single fun one _ => ?_
  refine .bind_ite firstTileId fun _ _ => ?_
  refine .bind_ite (span one) fun _ _ => ?_
  refine .bind SliceType.decode_does fun _ _ => ?_
  refine .bind_ite (.guarded .flag) fun _ _ => ?_
  refine .bind_ite (.guarded .flag) fun _ _ => ?_
  refine .bind_ite (.guarded (SliceLoopFilter.decode_does _)) fun _ _ => ?_
  refine .bind_ite (.guarded (orderLsb_does sizes.orderLsbWidth)) fun _ _ => ?_
  exact .pure trivial

def decode (isIdr : Bool)
    (find : Nat → Except Fault (PictureParameterSet × SequenceParameterSet)) :
    Decoder SliceHeader := do
  let ppsId ← ueMax PictureParameterSet.maxId
  match find ppsId with
  | .error fault => Run.fail fault
  | .ok (pps, sps) => decodeWith isIdr ppsId pps sps

theorem decode_does (isIdr : Bool)
    {find : Nat → Except Fault (PictureParameterSet × SequenceParameterSet)}
    (sizes : ∀ ppsId pps sps, find ppsId = .ok (pps, sps) → SliceSizes pps sps) :
    Does (decode isIdr find) (EvcStream.SliceHeader.decode isIdr find) := by
  refine .bind (.ueMax _) fun ppsId _ => ?_
  cases found : find ppsId with
  | error fault => exact .fail fault
  | ok sets => exact decodeWith_does isIdr ppsId (sizes ppsId sets.1 sets.2 found)

end SliceHeader
end EvcStream.Machine
