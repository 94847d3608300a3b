import EvcStream.Sequence.Vui
/-!
# Sequence parameter sets

The properties of a sequence that its pictures share: its format, the tools that are on, how
pictures refer to one another, and the tables for chroma quantisation.
-/
namespace EvcStream

structure BlockPartition where
  log2CtuSizeMinus5 : Nat := 0
  log2MinCbSizeMinus2 : Nat := 0
  log2DiffCtuMax14CbSize : Nat := 0
  log2DiffCtuMaxTtCbSize : Nat := 0
  log2DiffMinCbMinTtCbSizeMinus2 : Nat := 0
  deriving DecidableEq, Repr

structure SplitOrder where
  log2DiffCtuSizeMaxSucoCbSize : Nat := 0
  log2DiffMaxSucoMinSucoCbSize : Nat := 0
  deriving DecidableEq, Repr

/-- Motion prediction tools. The others need the first. -/
structure MotionTools where
  advanced : Bool := false
  affine : Bool := false
  adaptiveResolution : Bool := false
  decoderRefinement : Bool := false
  mergeDifference : Bool := false
  history : Bool := false
  deriving DecidableEq, Repr

structure IntraTools where
  log2MaxIbcCandSizeMinus2 : Option Nat := none
  deriving DecidableEq, Repr

structure LoopTools where
  advancedDeblocking : Bool := false
  adaptiveLoopFilter : Bool := false
  hadamardFilter : Bool := false
  deriving DecidableEq, Repr

structure PictureCropping where
  left : Nat := 0
  right : Nat := 0
  top : Nat := 0
  bottom : Nat := 0
  deriving DecidableEq, Repr

section
open Decoder

def BlockPartition.decode : Decoder BlockPartition := do
  let log2CtuSizeMinus5 ← ue
  let log2MinCbSizeMinus2 ← ue
  let log2DiffCtuMax14CbSize ← ue
  let log2DiffCtuMaxTtCbSize ← ue
  let log2DiffMinCbMinTtCbSizeMinus2 ← ue
  return {
    log2CtuSizeMinus5, log2MinCbSizeMinus2, log2DiffCtuMax14CbSize, log2DiffCtuMaxTtCbSize,
    log2DiffMinCbMinTtCbSizeMinus2 }

def SplitOrder.decode : Decoder SplitOrder := do
  let log2DiffCtuSizeMaxSucoCbSize ← ue
  let log2DiffMaxSucoMinSucoCbSize ← ue
  return { log2DiffCtuSizeMaxSucoCbSize, log2DiffMaxSucoMinSucoCbSize }

def MotionTools.decode : Decoder MotionTools := do
  if ← flag then
    let affine ← flag
    let adaptiveResolution ← flag
    let decoderRefinement ← flag
    let mergeDifference ← flag
    let history ← flag
    return {
      advanced := true, affine, adaptiveResolution, decoderRefinement, mergeDifference, history }
  else return {}

def IntraTools.decode : Decoder IntraTools := do
  let log2MaxIbcCandSizeMinus2 ← flagged ue
  return { log2MaxIbcCandSizeMinus2 }

def LoopTools.decode : Decoder LoopTools := do
  let advancedDeblocking ← flag
  let adaptiveLoopFilter ← flag
  let hadamardFilter ← flag
  return { advancedDeblocking, adaptiveLoopFilter, hadamardFilter }

def PictureCropping.decode : Decoder PictureCropping := do
  let left ← ue
  let right ← ue
  let top ← ue
  let bottom ← ue
  return { left, right, top, bottom }

end

section
open Coded

def BlockPartition.encode (p : BlockPartition) : Coded :=
  ue p.log2CtuSizeMinus5 ++ ue p.log2MinCbSizeMinus2 ++ ue p.log2DiffCtuMax14CbSize
    ++ ue p.log2DiffCtuMaxTtCbSize ++ ue p.log2DiffMinCbMinTtCbSizeMinus2

def SplitOrder.encode (s : SplitOrder) : Coded :=
  ue s.log2DiffCtuSizeMaxSucoCbSize ++ ue s.log2DiffMaxSucoMinSucoCbSize

def MotionTools.encode (m : MotionTools) : Coded :=
  flag m.advanced ++
    if m.advanced then
      flag m.affine ++ flag m.adaptiveResolution ++ flag m.decoderRefinement
        ++ flag m.mergeDifference ++ flag m.history
    else empty

def IntraTools.encode (i : IntraTools) : Coded := flagged ue i.log2MaxIbcCandSizeMinus2

def LoopTools.encode (l : LoopTools) : Coded :=
  flag l.advancedDeblocking ++ flag l.adaptiveLoopFilter ++ flag l.hadamardFilter

def PictureCropping.encode (c : PictureCropping) : Coded :=
  ue c.left ++ ue c.right ++ ue c.top ++ ue c.bottom

end

structure QpTable where
  pointsMinus1 : Nat := 0
  inSteps : List Nat := []
  outSteps : List Int := []
  deriving DecidableEq, Repr

structure ChromaQpTables where
  globalOffset : Bool := false
  first : QpTable := {}
  /-- The table of the second component, unless the components share the first. -/
  second : Option QpTable := some {}
  deriving DecidableEq, Repr

def QpTable.maxPoints : Nat := 58

section
open Decoder

def QpTable.decodePoint : Decoder (Nat × Int) := do
  let inStep ← u 6
  let outStep ← se
  return (inStep, outStep)

def QpTable.decode : Decoder QpTable := do
  let pointsMinus1 ← ueMax (maxPoints - 1)
  let points ← times (pointsMinus1 + 1) decodePoint
  return { pointsMinus1, inSteps := points.map Prod.fst, outSteps := points.map Prod.snd }

def ChromaQpTables.decode : Decoder ChromaQpTables := do
  let shared ← flag
  let globalOffset ← flag
  let first ← QpTable.decode
  let second ← optional (!shared) QpTable.decode
  return { globalOffset, first, second }

end

section
open Coded

def QpTable.encodePoint (point : Nat × Int) : Coded := u 6 point.1 ++ se point.2

/-- A table is refused unless it has a step on either side for every point. -/
def QpTable.encode (t : QpTable) : Coded :=
  require (t.inSteps.length = t.pointsMinus1 + 1 ∧ t.outSteps.length = t.pointsMinus1 + 1)
    (ue t.pointsMinus1 ++ each encodePoint (t.inSteps.zip t.outSteps))

def ChromaQpTables.encode (t : ChromaQpTables) : Coded :=
  flag t.second.isNone ++ flag t.globalOffset ++ t.first.encode
    ++ optional QpTable.encode t.second

end

structure RefPicList where
  distances : List Int := []
  deriving DecidableEq, Repr

namespace RefPicList

def maxLength : Nat := 21

def InRange (distance : Int) : Prop := -2 ^ (31 : Nat) ≤ distance ∧ distance < 2 ^ (31 : Nat)

instance (distance : Int) : Decidable (InRange distance) :=
  inferInstanceAs (Decidable (_ ∧ _))

section
open Decoder

def decodeStep : Decoder Int := do
  let magnitude ← ue
  if magnitude = 0 then return 0
  if ← flag then return -(magnitude : Int) else return magnitude

def decodeFrom : Nat → Int → Decoder (List Int)
  | 0, _ => pure []
  | count + 1, previous => do
    let distance := previous + (← decodeStep)
    if InRange distance then
      let others ← decodeFrom count distance
      return distance :: others
    else throw (.refPicOutOfRange distance)

def decode : Decoder RefPicList := do
  let count ← ueMax maxLength
  let distances ← decodeFrom count 0
  return { distances }

end

section
open Coded

def encodeStep (step : Int) : Coded :=
  require (step.natAbs < 2 ^ (32 : Nat))
    (ue step.natAbs ++ if step = 0 then empty else flag (step < 0))

def encodeFrom : Int → List Int → Coded
  | _, [] => empty
  | previous, distance :: others => encodeStep (distance - previous) ++ encodeFrom distance others

def encode (list : RefPicList) : Coded :=
  require (list.distances.length ≤ maxLength)
    (ue list.distances.length ++ encodeFrom 0 list.distances)

end
end RefPicList

structure RefPicLists where
  count : Nat := 0
  lists : List RefPicList := []
  deriving DecidableEq, Repr

structure ListedReferences where
  maxDecPicBufferingMinus1 : Nat := 0
  longTerm : Bool := false
  forward : RefPicLists := {}
  /-- The lists of the second direction, unless the directions share the first. -/
  backward : Option RefPicLists := some {}
  deriving DecidableEq, Repr

inductive ReferenceStructure where
  | implied (maxTid0RefPics : Nat)
  | listed (references : ListedReferences)
  deriving DecidableEq, Repr

/-- The sub-GOP that gives pictures their place. The reference gap is coded for sub-GOPs of one
picture. -/
structure SubGop where
  log2Length : Nat := 0
  log2RefPicGapLength : Nat := 0
  deriving DecidableEq, Repr

def RefPicLists.maxCount : Nat := 32
def SubGop.maxLog2Length : Nat := 5

def SubGop.length (g : SubGop) : Nat := 2 ^ g.log2Length

def ReferenceStructure.isListed : ReferenceStructure → Bool
  | .implied _ => false
  | .listed _ => true

section
open Decoder

def RefPicLists.decode : Decoder RefPicLists := do
  let count ← ueMax maxCount
  let lists ← times count RefPicList.decode
  return { count, lists }

def ListedReferences.decode : Decoder ListedReferences := do
  let maxDecPicBufferingMinus1 ← ue
  let longTerm ← flag
  let shared ← flag
  let forward ← RefPicLists.decode
  let backward ← optional (!shared) RefPicLists.decode
  return { maxDecPicBufferingMinus1, longTerm, forward, backward }

def ReferenceStructure.decode (isListed : Bool) : Decoder ReferenceStructure :=
  if isListed then ReferenceStructure.listed <$> ListedReferences.decode
  else ReferenceStructure.implied <$> ue

def SubGop.decode : Decoder SubGop := do
  let log2Length ← ueMax maxLog2Length
  if log2Length = 0 then
    let log2RefPicGapLength ← ue
    return { log2Length, log2RefPicGapLength }
  else return { log2Length }

end

section
open Coded

def RefPicLists.encode (l : RefPicLists) : Coded :=
  require (l.lists.length = l.count) (ue l.count ++ each RefPicList.encode l.lists)

def ListedReferences.encode (r : ListedReferences) : Coded :=
  ue r.maxDecPicBufferingMinus1 ++ flag r.longTerm ++ flag r.backward.isNone
    ++ r.forward.encode ++ optional RefPicLists.encode r.backward

def ReferenceStructure.encode : ReferenceStructure → Coded
  | .implied maxTid0RefPics => ue maxTid0RefPics
  | .listed references => references.encode

def SubGop.encode (g : SubGop) : Coded :=
  ue g.log2Length ++ if g.log2Length = 0 then ue g.log2RefPicGapLength else empty

end

inductive Profile where
  | baseline
  | main
  deriving DecidableEq, Repr

def Profile.ofIdc? : Nat → Option Profile
  | 0 => some baseline
  | 1 => some main
  | _ => none

/-- The rules that apply under a profile number. Unknown profiles follow the baseline rules. -/
def Profile.ofIdc (idc : Nat) : Profile := if idc = 1 then main else baseline

def Profile.name : Profile → String
  | baseline => "Baseline"
  | main => "Main"

structure Resolution where
  width : Nat
  height : Nat
  deriving DecidableEq, Repr

instance : ToString Resolution := ⟨fun r => s!"{r.width}x{r.height}"⟩

structure SequenceFormat where
  id : Nat := 0
  profileIdc : Nat := 0
  levelIdc : Nat := 0
  toolsetIdcHigh : Nat := 0
  toolsetIdcLow : Nat := 0
  chromaFormatIdc : Nat := 0
  pictureWidth : Nat := 0
  pictureHeight : Nat := 0
  bitDepthLumaMinus8 : Nat := 0
  bitDepthChromaMinus8 : Nat := 0
  deriving DecidableEq, Repr

structure SequenceParameterSet where
  format : SequenceFormat := {}
  partition : Option BlockPartition := none
  splitOrder : Option SplitOrder := none
  motion : MotionTools := {}
  intra : Option IntraTools := none
  contextInit : Option Bool := none
  transform : Option Bool := none
  loop : LoopTools := {}
  deltaQuantisation : Bool := false
  dynamicRangeAdjustment : Bool := false
  log2MaxOrderLsbMinus4 : Option Nat := none
  subGop : SubGop := {}
  references : ReferenceStructure := .implied 0
  cropping : Option PictureCropping := none
  chromaQp : Option ChromaQpTables := none
  vui : Option VuiParameters := none
  deriving DecidableEq, Repr

namespace SequenceParameterSet

def maxId : Nat := 15
def maxLog2MaxOrderLsbMinus4 : Nat := 12

def countsInSlices (s : SequenceParameterSet) : Bool := s.log2MaxOrderLsbMinus4.isSome

/-- Whether the sub-GOP is coded: to count pictures, or to derive references. -/
def usesSubGop (countsInSlices listsReferences : Bool) : Bool :=
  !countsInSlices || !listsReferences

def profile (s : SequenceParameterSet) : Profile := Profile.ofIdc s.format.profileIdc
def bitDepthLuma (s : SequenceParameterSet) : Nat := s.format.bitDepthLumaMinus8 + 8
def bitDepthChroma (s : SequenceParameterSet) : Nat := s.format.bitDepthChromaMinus8 + 8

def resolution (s : SequenceParameterSet) : Resolution :=
  { width := s.format.pictureWidth, height := s.format.pictureHeight }

def orderLsbWidth (s : SequenceParameterSet) : Nat := s.log2MaxOrderLsbMinus4.getD 0 + 4

def maxOrderLsb (s : SequenceParameterSet) : Nat := 2 ^ s.orderLsbWidth

end SequenceParameterSet

section
open Decoder

def SequenceFormat.decode : Decoder SequenceFormat := do
  let id ← ueMax SequenceParameterSet.maxId
  let profileIdc ← u 8
  let levelIdc ← u 8
  let toolsetIdcHigh ← u 32
  let toolsetIdcLow ← u 32
  let chromaFormatIdc ← ueMax 3
  let pictureWidth ← ue
  let pictureHeight ← ue
  let bitDepthLumaMinus8 ← ueMax 8
  let bitDepthChromaMinus8 ← ueMax 8
  return {
    id, profileIdc, levelIdc, toolsetIdcHigh, toolsetIdcLow, chromaFormatIdc, pictureWidth,
    pictureHeight, bitDepthLumaMinus8, bitDepthChromaMinus8 }

namespace SequenceParameterSet

def decode : Decoder SequenceParameterSet := do
  let format ← SequenceFormat.decode
  let partition ← flagged BlockPartition.decode
  let splitOrder ← flagged SplitOrder.decode
  let motion ← MotionTools.decode
  let intra ← flagged IntraTools.decode
  let contextInit ← flagged flag
  let transform ← flagged flag
  let loop ← LoopTools.decode
  let listsReferences ← flag
  let countsInSlices ← flag
  let deltaQuantisation ← flag
  let dynamicRangeAdjustment ← flag
  let log2MaxOrderLsbMinus4 ← optional countsInSlices (ueMax maxLog2MaxOrderLsbMinus4)
  let subGop ←
    if usesSubGop countsInSlices listsReferences then SubGop.decode else pure {}
  let references ← ReferenceStructure.decode listsReferences
  let cropping ← flagged PictureCropping.decode
  let chromaQp ←
    if format.chromaFormatIdc = 0 then pure none else flagged ChromaQpTables.decode
  let vui ← flagged VuiParameters.decode
  return {
    format, partition, splitOrder, motion, intra, contextInit, transform, loop,
    deltaQuantisation, dynamicRangeAdjustment, log2MaxOrderLsbMinus4, subGop, references,
    cropping, chromaQp, vui }

end SequenceParameterSet
end

section
open Coded

def SequenceFormat.encode (f : SequenceFormat) : Coded :=
  ue f.id ++ u 8 f.profileIdc ++ u 8 f.levelIdc ++ u 32 f.toolsetIdcHigh
    ++ u 32 f.toolsetIdcLow ++ ue f.chromaFormatIdc ++ ue f.pictureWidth ++ ue f.pictureHeight
    ++ ue f.bitDepthLumaMinus8 ++ ue f.bitDepthChromaMinus8

namespace SequenceParameterSet

def encode (s : SequenceParameterSet) : Coded :=
  s.format.encode ++ flagged BlockPartition.encode s.partition
    ++ flagged SplitOrder.encode s.splitOrder ++ s.motion.encode
    ++ flagged IntraTools.encode s.intra ++ flagged flag s.contextInit
    ++ flagged flag s.transform ++ s.loop.encode ++ flag s.references.isListed
    ++ flag s.countsInSlices ++ flag s.deltaQuantisation ++ flag s.dynamicRangeAdjustment
    ++ optional ue s.log2MaxOrderLsbMinus4
    ++ (if usesSubGop s.countsInSlices s.references.isListed then s.subGop.encode else empty)
    ++ s.references.encode ++ flagged PictureCropping.encode s.cropping
    ++ (if s.format.chromaFormatIdc = 0 then empty
        else flagged ChromaQpTables.encode s.chromaQp)
    ++ flagged VuiParameters.encode s.vui

end SequenceParameterSet
end
end EvcStream
