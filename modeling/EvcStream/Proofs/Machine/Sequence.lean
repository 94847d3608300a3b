import EvcStream.Proofs.Machine.Decoding
/-!
# Sequence parameter sets on a machine

The decoders of the other parts of a sequence parameter set, and of the whole.
-/
namespace EvcStream.Machine

open Machine.Decoder

def BlockPartition.decode : Decoder BlockPartition := do
  let log2CtuSizeMinus5 ← ue
  let log2MinCbSizeMinus2 ← ue
  let log2DiffCtuMax14CbSize ← ue
  let log2DiffCtuMaxTtCbSize ← ue
  let log2DiffMinCbMinTtCbSizeMinus2 ← ue
  return {
    log2CtuSizeMinus5, log2MinCbSizeMinus2, log2DiffCtuMax14CbSize, log2DiffCtuMaxTtCbSize,
    log2DiffMinCbMinTtCbSizeMinus2 }

theorem BlockPartition.decode_does : Does decode EvcStream.BlockPartition.decode := by
  refine .bind .ue fun _ _ => ?_
  refine .bind .ue fun _ _ => ?_
  refine .bind .ue fun _ _ => ?_
  refine .bind .ue fun _ _ => ?_
  refine .bind .ue fun _ _ => ?_
  exact .pure trivial

def SplitOrder.decode : Decoder SplitOrder := do
  let log2DiffCtuSizeMaxSucoCbSize ← ue
  let log2DiffMaxSucoMinSucoCbSize ← ue
  return { log2DiffCtuSizeMaxSucoCbSize, log2DiffMaxSucoMinSucoCbSize }

theorem SplitOrder.decode_does : Does decode EvcStream.SplitOrder.decode := by
  refine .bind .ue fun _ _ => ?_
  refine .bind .ue fun _ _ => ?_
  exact .pure trivial

def MotionTools.decode : Decoder MotionTools := do
  if ← flag then
    let affine ← flag
    let adaptiveResolution ← flag
    let decoderRefinement ← flag
    let mergeDifference ← flag
    let history ← flag
    return {
      advanced := true, affine, adaptiveResolution, decoderRefinement, mergeDifference, history }
  else return {}

theorem MotionTools.decode_does : Does decode EvcStream.MotionTools.decode := by
  refine .bind .flag fun _ _ => ?_
  refine .ite (fun _ => ?_) fun _ => .pure trivial
  refine .bind .flag fun _ _ => ?_
  refine .bind .flag fun _ _ => ?_
  refine .bind .flag fun _ _ => ?_
  refine .bind .flag fun _ _ => ?_
  refine .bind .flag fun _ _ => ?_
  exact .pure trivial

def IntraTools.decode : Decoder IntraTools := do
  let log2MaxIbcCandSizeMinus2 ← flagged ue
  return { log2MaxIbcCandSizeMinus2 }

theorem IntraTools.decode_does : Does decode EvcStream.IntraTools.decode := by
  refine .bind (.flagged .ue) fun _ _ => ?_
  exact .pure trivial

def LoopTools.decode : Decoder LoopTools := do
  let advancedDeblocking ← flag
  let adaptiveLoopFilter ← flag
  let hadamardFilter ← flag
  return { advancedDeblocking, adaptiveLoopFilter, hadamardFilter }

theorem LoopTools.decode_does : Does decode EvcStream.LoopTools.decode := by
  refine .bind .flag fun _ _ => ?_
  refine .bind .flag fun _ _ => ?_
  refine .bind .flag fun _ _ => ?_
  exact .pure trivial

def PictureCropping.decode : Decoder PictureCropping := do
  let left ← ue
  let right ← ue
  let top ← ue
  let bottom ← ue
  return { left, right, top, bottom }

theorem PictureCropping.decode_does : Does decode EvcStream.PictureCropping.decode := by
  refine .bind .ue fun _ _ => ?_
  refine .bind .ue fun _ _ => ?_
  refine .bind .ue fun _ _ => ?_
  refine .bind .ue fun _ _ => ?_
  exact .pure trivial

def SubGop.decode : Decoder SubGop := do
  let log2Length ← ueMax SubGop.maxLog2Length
  if log2Length = 0 then
    let log2RefPicGapLength ← ue
    return { log2Length, log2RefPicGapLength }
  else return { log2Length }

theorem SubGop.decode_does : Does decode EvcStream.SubGop.decode := by
  refine .bind (.ueMax _) fun _ _ => ?_
  refine .ite (fun _ => ?_) fun _ => .pure trivial
  refine .bind .ue fun _ _ => ?_
  exact .pure trivial

def ReferenceStructure.decode (isListed : Bool) : Decoder ReferenceStructure :=
  if isListed then ReferenceStructure.listed <$> ListedReferences.decode
  else ReferenceStructure.implied <$> ue

theorem ReferenceStructure.decode_does (isListed : Bool) :
    Does (decode isListed) (EvcStream.ReferenceStructure.decode isListed) := by
  refine .ite (fun _ => ?_) fun _ => ?_
  · refine .bind ListedReferences.decode_does fun _ _ => ?_
    exact .pure trivial
  · refine .bind .ue fun _ _ => ?_
    exact .pure trivial

def AspectRatio.decode : Decoder AspectRatio := do
  let idc ← u 8
  if idc = AspectRatio.extended then
    let width ← u 16
    let height ← u 16
    return { idc, width, height }
  else return { idc }

theorem AspectRatio.decode_does : Does decode EvcStream.AspectRatio.decode := by
  refine .bind (.u 8) fun _ _ => ?_
  refine .ite (fun _ => ?_) fun _ => .pure trivial
  refine .bind (.u 16) fun _ _ => ?_
  refine .bind (.u 16) fun _ _ => ?_
  exact .pure trivial

def ColourDescription.decode : Decoder ColourDescription := do
  let primaries ← u 8
  let transfer ← u 8
  let matrix ← u 8
  return { primaries, transfer, matrix }

theorem ColourDescription.decode_does : Does decode EvcStream.ColourDescription.decode := by
  refine .bind (.u 8) fun _ _ => ?_
  refine .bind (.u 8) fun _ _ => ?_
  refine .bind (.u 8) fun _ _ => ?_
  exact .pure trivial

def VideoSignal.decode : Decoder VideoSignal := do
  let format ← u 3
  let fullRange ← flag
  let colour ← flagged ColourDescription.decode
  return { format, fullRange, colour }

theorem VideoSignal.decode_does : Does decode EvcStream.VideoSignal.decode := by
  refine .bind (.u 3) fun _ _ => ?_
  refine .bind .flag fun _ _ => ?_
  refine .bind (.flagged ColourDescription.decode_does) fun _ _ => ?_
  exact .pure trivial

def ChromaLocation.decode : Decoder ChromaLocation := do
  let topField ← ueMax 5
  let bottomField ← ueMax 5
  return { topField, bottomField }

theorem ChromaLocation.decode_does : Does decode EvcStream.ChromaLocation.decode := by
  refine .bind (.ueMax 5) fun _ _ => ?_
  refine .bind (.ueMax 5) fun _ _ => ?_
  exact .pure trivial

def Timing.decode : Decoder Timing := do
  let unitsInTick ← u 32
  let timeScale ← u 32
  let fixedPictureRate ← flag
  return { unitsInTick, timeScale, fixedPictureRate }

theorem Timing.decode_does : Does decode EvcStream.Timing.decode := by
  refine .bind (.u 32) fun _ _ => ?_
  refine .bind (.u 32) fun _ _ => ?_
  refine .bind .flag fun _ _ => ?_
  exact .pure trivial

def BitstreamRestriction.decode : Decoder BitstreamRestriction := do
  let motionVectorsOverPictureBoundaries ← flag
  let maxBytesPerPictureDenom ← ue
  let maxBitsPerMbDenom ← ueMax 16
  let log2MaxMvLengthHorizontal ← ueMax 16
  let log2MaxMvLengthVertical ← ueMax 16
  let reorderedPictures ← ue
  let maxDecPictureBuffering ← ue
  return {
    motionVectorsOverPictureBoundaries, maxBytesPerPictureDenom, maxBitsPerMbDenom,
    log2MaxMvLengthHorizontal, log2MaxMvLengthVertical, reorderedPictures,
    maxDecPictureBuffering }

theorem BitstreamRestriction.decode_does : Does decode EvcStream.BitstreamRestriction.decode := by
  refine .bind .flag fun _ _ => ?_
  refine .bind .ue fun _ _ => ?_
  refine .bind (.ueMax 16) fun _ _ => ?_
  refine .bind (.ueMax 16) fun _ _ => ?_
  refine .bind (.ueMax 16) fun _ _ => ?_
  refine .bind .ue fun _ _ => ?_
  refine .bind .ue fun _ _ => ?_
  exact .pure trivial

def VuiParameters.decode : Decoder VuiParameters := do
  let aspectRatio ← flagged AspectRatio.decode
  let overscanAppropriate ← flagged flag
  let videoSignal ← flagged VideoSignal.decode
  let chromaLocation ← flagged ChromaLocation.decode
  let neutralChroma ← flag
  let fieldSequence ← flag
  let timing ← flagged Timing.decode
  let nalHrd ← flagged HrdParameters.decode
  let vclHrd ← flagged HrdParameters.decode
  let lowDelayHrd ← if nalHrd.isSome || vclHrd.isSome then flag else pure false
  let pictureStructure ← flag
  let restriction ← flagged BitstreamRestriction.decode
  return {
    aspectRatio, overscanAppropriate, videoSignal, chromaLocation, neutralChroma, fieldSequence,
    timing, nalHrd, vclHrd, lowDelayHrd, pictureStructure, restriction }

theorem VuiParameters.decode_does : Does decode EvcStream.VuiParameters.decode := by
  refine .bind (.flagged AspectRatio.decode_does) fun _ _ => ?_
  refine .bind (.flagged .flag) fun _ _ => ?_
  refine .bind (.flagged VideoSignal.decode_does) fun _ _ => ?_
  refine .bind (.flagged ChromaLocation.decode_does) fun _ _ => ?_
  refine .bind .flag fun _ _ => ?_
  refine .bind .flag fun _ _ => ?_
  refine .bind (.flagged Timing.decode_does) fun _ _ => ?_
  refine .bind (.flagged HrdParameters.decode_does) fun _ _ => ?_
  refine .bind (.flagged HrdParameters.decode_does) fun _ _ => ?_
  refine .bind_ite (.guarded .flag) fun _ _ => ?_
  refine .bind .flag fun _ _ => ?_
  refine .bind (.flagged BitstreamRestriction.decode_does) fun _ _ => ?_
  exact .pure trivial

def SequenceFormat.decode : Decoder SequenceFormat := do
  let id ← ueMax SequenceParameterSet.maxId
  let profileIdc ← u 8
  let levelIdc ← u 8
  let toolsetIdcHigh ← u 32
  let toolsetIdcLow ← u 32
  let chromaFormatIdc ← ueMax 3
  let pictureWidth ← ue
  let pictureHeight ← ue
  let bitDepthLumaMinus8 ← ueMax 8
  let bitDepthChromaMinus8 ← ueMax 8
  return {
    id, profileIdc, levelIdc, toolsetIdcHigh, toolsetIdcLow, chromaFormatIdc, pictureWidth,
    pictureHeight, bitDepthLumaMinus8, bitDepthChromaMinus8 }

theorem SequenceFormat.decode_does : Does decode EvcStream.SequenceFormat.decode := by
  refine .bind (.ueMax _) fun _ _ => ?_
  refine .bind (.u 8) fun _ _ => ?_
  refine .bind (.u 8) fun _ _ => ?_
  refine .bind (.u 32) fun _ _ => ?_
  refine .bind (.u 32) fun _ _ => ?_
  refine .bind (.ueMax 3) fun _ _ => ?_
  refine .bind .ue fun _ _ => ?_
  refine .bind .ue fun _ _ => ?_
  refine .bind (.ueMax 8) fun _ _ => ?_
  refine .bind (.ueMax 8) fun _ _ => ?_
  exact .pure trivial

def SequenceParameterSet.decode : Decoder SequenceParameterSet := do
  let format ← SequenceFormat.decode
  let partition ← flagged BlockPartition.decode
  let splitOrder ← flagged SplitOrder.decode
  let motion ← MotionTools.decode
  let intra ← flagged IntraTools.decode
  let contextInit ← flagged flag
  let transform ← flagged flag
  let loop ← LoopTools.decode
  let listsReferences ← flag
  let countsInSlices ← flag
  let deltaQuantisation ← flag
  let dynamicRangeAdjustment ← flag
  let log2MaxOrderLsbMinus4 ←
    optional countsInSlices (ueMax SequenceParameterSet.maxLog2MaxOrderLsbMinus4)
  let subGop ←
    if SequenceParameterSet.usesSubGop countsInSlices listsReferences then SubGop.decode
    else pure {}
  let references ← ReferenceStructure.decode listsReferences
  let cropping ← flagged PictureCropping.decode
  let chromaQp ←
    if format.chromaFormatIdc = 0 then pure none else flagged ChromaQpTables.decode
  let vui ← flagged VuiParameters.decode
  return {
    format, partition, splitOrder, motion, intra, contextInit, transform, loop,
    deltaQuantisation, dynamicRangeAdjustment, log2MaxOrderLsbMinus4, subGop, references,
    cropping, chromaQp, vui }

theorem SequenceParameterSet.decode_does :
    Does decode EvcStream.SequenceParameterSet.decode := by
  refine .bind SequenceFormat.decode_does fun _ _ => ?_
  refine .bind (.flagged BlockPartition.decode_does) fun _ _ => ?_
  refine .bind (.flagged SplitOrder.decode_does) fun _ _ => ?_
  refine .bind MotionTools.decode_does fun _ _ => ?_
  refine .bind (.flagged IntraTools.decode_does) fun _ _ => ?_
  refine .bind (.flagged .flag) fun _ _ => ?_
  refine .bind (.flagged .flag) fun _ _ => ?_
  refine .bind LoopTools.decode_does fun _ _ => ?_
  refine .bind .flag fun _ _ => ?_
  refine .bind .flag fun _ _ => ?_
  refine .bind .flag fun _ _ => ?_
  refine .bind .flag fun _ _ => ?_
  refine .bind (.optional _ (.ueMax _)) fun _ _ => ?_
  refine .bind_ite (.guarded SubGop.decode_does) fun _ _ => ?_
  refine .bind (ReferenceStructure.decode_does _) fun _ _ => ?_
  have chroma : ∀ format : SequenceFormat, Does
      (if format.chromaFormatIdc = 0 then pure none else flagged ChromaQpTables.decode)
      (if format.chromaFormatIdc = 0 then pure none
        else EvcStream.Decoder.flagged EvcStream.ChromaQpTables.decode) :=
    fun _ => .ite (fun _ => .pure trivial) fun _ => .flagged ChromaQpTables.decode_does
  refine .bind (.flagged PictureCropping.decode_does) fun _ _ => ?_
  refine .bind_ite (chroma _) fun _ _ => ?_
  refine .bind (.flagged VuiParameters.decode_does) fun _ _ => ?_
  exact .pure trivial

end EvcStream.Machine
