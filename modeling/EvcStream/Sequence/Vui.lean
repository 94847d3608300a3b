import EvcStream.Coding
/-!
# Video usability information

Hints on display and timing that a sequence may carry, among them the parameters of up to two
hypothetical reference decoders. None of them has an effect on how a sequence is decoded.
-/
namespace EvcStream

structure DeliverySchedule where
  bitRateValueMinus1 : Nat := 0
  cpbSizeValueMinus1 : Nat := 0
  constantBitRate : Bool := false
  deriving DecidableEq, Repr

structure HrdParameters where
  bitRateScale : Nat := 0
  cpbSizeScale : Nat := 0
  schedule : DeliverySchedule := {}
  alternatives : List DeliverySchedule := []
  initialCpbRemovalDelayLengthMinus1 : Nat := 0
  cpbRemovalDelayLengthMinus1 : Nat := 0
  dpbOutputDelayLengthMinus1 : Nat := 0
  timeOffsetLength : Nat := 0
  deriving DecidableEq, Repr

def HrdParameters.maxSchedules : Nat := 32

section
open Decoder

def DeliverySchedule.decode : Decoder DeliverySchedule := do
  let bitRateValueMinus1 ← ue
  let cpbSizeValueMinus1 ← ue
  let constantBitRate ← flag
  return { bitRateValueMinus1, cpbSizeValueMinus1, constantBitRate }

def HrdParameters.decode : Decoder HrdParameters := do
  let count ← ueMax (maxSchedules - 1)
  let bitRateScale ← u 4
  let cpbSizeScale ← u 4
  let schedule ← DeliverySchedule.decode
  let alternatives ← times count DeliverySchedule.decode
  let initialCpbRemovalDelayLengthMinus1 ← u 5
  let cpbRemovalDelayLengthMinus1 ← u 5
  let dpbOutputDelayLengthMinus1 ← u 5
  let timeOffsetLength ← u 5
  return {
    bitRateScale, cpbSizeScale, schedule, alternatives, initialCpbRemovalDelayLengthMinus1,
    cpbRemovalDelayLengthMinus1, dpbOutputDelayLengthMinus1, timeOffsetLength }

end

section
open Coded

def DeliverySchedule.encode (s : DeliverySchedule) : Coded :=
  ue s.bitRateValueMinus1 ++ ue s.cpbSizeValueMinus1 ++ flag s.constantBitRate

def HrdParameters.encode (h : HrdParameters) : Coded :=
  ue h.alternatives.length ++ u 4 h.bitRateScale ++ u 4 h.cpbSizeScale
    ++ h.schedule.encode ++ each DeliverySchedule.encode h.alternatives
    ++ u 5 h.initialCpbRemovalDelayLengthMinus1 ++ u 5 h.cpbRemovalDelayLengthMinus1
    ++ u 5 h.dpbOutputDelayLengthMinus1 ++ u 5 h.timeOffsetLength

end

/-- An aspect ratio by its index, or, under the index 255, by its width and height. -/
structure AspectRatio where
  idc : Nat
  width : Nat := 0
  height : Nat := 0
  deriving DecidableEq, Repr

def AspectRatio.extended : Nat := 255

structure ColourDescription where
  primaries : Nat
  transfer : Nat
  matrix : Nat
  deriving DecidableEq, Repr

structure VideoSignal where
  format : Nat
  fullRange : Bool
  colour : Option ColourDescription
  deriving DecidableEq, Repr

structure ChromaLocation where
  topField : Nat
  bottomField : Nat
  deriving DecidableEq, Repr

structure Timing where
  unitsInTick : Nat
  timeScale : Nat
  fixedPictureRate : Bool
  deriving DecidableEq, Repr

structure BitstreamRestriction where
  motionVectorsOverPictureBoundaries : Bool
  maxBytesPerPictureDenom : Nat
  maxBitsPerMbDenom : Nat
  log2MaxMvLengthHorizontal : Nat
  log2MaxMvLengthVertical : Nat
  /-- How many pictures may precede a picture in decoding order and follow it in output order. -/
  reorderedPictures : Nat
  maxDecPictureBuffering : Nat
  deriving DecidableEq, Repr

structure VuiParameters where
  aspectRatio : Option AspectRatio := none
  overscanAppropriate : Option Bool := none
  videoSignal : Option VideoSignal := none
  chromaLocation : Option ChromaLocation := none
  neutralChroma : Bool := false
  fieldSequence : Bool := false
  timing : Option Timing := none
  nalHrd : Option HrdParameters := none
  vclHrd : Option HrdParameters := none
  /-- Coded when there is a hypothetical reference decoder. -/
  lowDelayHrd : Bool := false
  pictureStructure : Bool := false
  restriction : Option BitstreamRestriction := none
  deriving DecidableEq, Repr

def VuiParameters.hasHrd (v : VuiParameters) : Bool := v.nalHrd.isSome || v.vclHrd.isSome

section
open Decoder

def AspectRatio.decode : Decoder AspectRatio := do
  let idc ← u 8
  if idc = extended then
    let width ← u 16
    let height ← u 16
    return { idc, width, height }
  else return { idc }

def ColourDescription.decode : Decoder ColourDescription := do
  let primaries ← u 8
  let transfer ← u 8
  let matrix ← u 8
  return { primaries, transfer, matrix }

def VideoSignal.decode : Decoder VideoSignal := do
  let format ← u 3
  let fullRange ← flag
  let colour ← flagged ColourDescription.decode
  return { format, fullRange, colour }

def ChromaLocation.decode : Decoder ChromaLocation := do
  let topField ← ueMax 5
  let bottomField ← ueMax 5
  return { topField, bottomField }

def Timing.decode : Decoder Timing := do
  let unitsInTick ← u 32
  let timeScale ← u 32
  let fixedPictureRate ← flag
  return { unitsInTick, timeScale, fixedPictureRate }

def BitstreamRestriction.decode : Decoder BitstreamRestriction := do
  let motionVectorsOverPictureBoundaries ← flag
  let maxBytesPerPictureDenom ← ue
  let maxBitsPerMbDenom ← ueMax 16
  let log2MaxMvLengthHorizontal ← ueMax 16
  let log2MaxMvLengthVertical ← ueMax 16
  let reorderedPictures ← ue
  let maxDecPictureBuffering ← ue
  return {
    motionVectorsOverPictureBoundaries, maxBytesPerPictureDenom, maxBitsPerMbDenom,
    log2MaxMvLengthHorizontal, log2MaxMvLengthVertical, reorderedPictures,
    maxDecPictureBuffering }

def VuiParameters.decode : Decoder VuiParameters := do
  let aspectRatio ← flagged AspectRatio.decode
  let overscanAppropriate ← flagged flag
  let videoSignal ← flagged VideoSignal.decode
  let chromaLocation ← flagged ChromaLocation.decode
  let neutralChroma ← flag
  let fieldSequence ← flag
  let timing ← flagged Timing.decode
  let nalHrd ← flagged HrdParameters.decode
  let vclHrd ← flagged HrdParameters.decode
  let lowDelayHrd ← if nalHrd.isSome || vclHrd.isSome then flag else pure false
  let pictureStructure ← flag
  let restriction ← flagged BitstreamRestriction.decode
  return {
    aspectRatio, overscanAppropriate, videoSignal, chromaLocation, neutralChroma, fieldSequence,
    timing, nalHrd, vclHrd, lowDelayHrd, pictureStructure, restriction }

end

section
open Coded

def AspectRatio.encode (a : AspectRatio) : Coded :=
  u 8 a.idc ++ if a.idc = extended then u 16 a.width ++ u 16 a.height else empty

def ColourDescription.encode (c : ColourDescription) : Coded :=
  u 8 c.primaries ++ u 8 c.transfer ++ u 8 c.matrix

def VideoSignal.encode (s : VideoSignal) : Coded :=
  u 3 s.format ++ flag s.fullRange ++ flagged ColourDescription.encode s.colour

def ChromaLocation.encode (c : ChromaLocation) : Coded :=
  ue c.topField ++ ue c.bottomField

def Timing.encode (t : Timing) : Coded :=
  u 32 t.unitsInTick ++ u 32 t.timeScale ++ flag t.fixedPictureRate

def BitstreamRestriction.encode (b : BitstreamRestriction) : Coded :=
  flag b.motionVectorsOverPictureBoundaries ++ ue b.maxBytesPerPictureDenom
    ++ ue b.maxBitsPerMbDenom ++ ue b.log2MaxMvLengthHorizontal
    ++ ue b.log2MaxMvLengthVertical ++ ue b.reorderedPictures ++ ue b.maxDecPictureBuffering

def VuiParameters.encode (v : VuiParameters) : Coded :=
  flagged AspectRatio.encode v.aspectRatio ++ flagged flag v.overscanAppropriate
    ++ flagged VideoSignal.encode v.videoSignal ++ flagged ChromaLocation.encode v.chromaLocation
    ++ flag v.neutralChroma ++ flag v.fieldSequence ++ flagged Timing.encode v.timing
    ++ flagged HrdParameters.encode v.nalHrd ++ flagged HrdParameters.encode v.vclHrd
    ++ (if v.hasHrd then flag v.lowDelayHrd else empty)
    ++ flag v.pictureStructure ++ flagged BitstreamRestriction.encode v.restriction

end
end EvcStream
