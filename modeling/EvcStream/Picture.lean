import EvcStream.Sequence.ParameterSet
/-!
# Picture parameter sets and slice headers

A picture parameter set divides pictures into tiles and sets what slices may use of it. Which fields
a slice header has depends on the kind of its unit and on both parameter sets it refers to.
-/
namespace EvcStream

/-- Widths and heights of the tiles, all but the last of each. -/
structure TileSpacing where
  columnWidthsMinus1 : List Nat := []
  rowHeightsMinus1 : List Nat := []
  deriving DecidableEq, Repr

structure TileGrid where
  columnsMinus1 : Nat := 0
  rowsMinus1 : Nat := 0
  deriving DecidableEq, Repr

structure Tiling where
  /-- The spacing of the grid, unless it is uniform. -/
  spacing : Option TileSpacing := some {}
  loopFilterAcrossTiles : Bool := false
  offsetLengthMinus1 : Nat := 0
  deriving DecidableEq, Repr

structure PictureParameterSet where
  id : Nat := 0
  spsId : Nat := 0
  activeRefsMinus1 : Nat × Nat := (0, 0)
  additionalLongTermLsbLength : Nat := 0
  rpl1IndexPresent : Bool := false
  grid : TileGrid := {}
  /-- How the picture is divided, unless it is one tile. -/
  tiling : Option Tiling := some {}
  tileIdLengthMinus1 : Nat := 0
  /-- The ids of the tiles, row by row, if they are not counted up. -/
  tileIds : Option (List (List Nat)) := none
  rangeAdjustmentApsId : Option Nat := none
  arbitrarySlices : Bool := false
  constrainedIntra : Bool := false
  log2CuQpDeltaAreaMinus6 : Option Nat := none
  deriving DecidableEq, Repr

def TileGrid.maxColumns : Nat := 20
def TileGrid.maxRows : Nat := 22

namespace PictureParameterSet

def maxId : Nat := 63

def maxSpsId : Nat := 15

def tileIdLength (p : PictureParameterSet) : Nat := p.tileIdLengthMinus1 + 1

def isSingleTile (p : PictureParameterSet) : Bool := p.tiling.isNone

end PictureParameterSet

section
open Decoder

def TileGrid.decode : Decoder TileGrid := do
  let columnsMinus1 ← ueMax (maxColumns - 1)
  let rowsMinus1 ← ueMax (maxRows - 1)
  return { columnsMinus1, rowsMinus1 }

def TileSpacing.decode (grid : TileGrid) : Decoder TileSpacing := do
  let columnWidthsMinus1 ← times grid.columnsMinus1 ue
  let rowHeightsMinus1 ← times grid.rowsMinus1 ue
  return { columnWidthsMinus1, rowHeightsMinus1 }

def Tiling.decode (grid : TileGrid) : Decoder Tiling := do
  let uniform ← flag
  let spacing ← optional (!uniform) (TileSpacing.decode grid)
  let loopFilterAcrossTiles ← flag
  let offsetLengthMinus1 ← ue
  return { spacing, loopFilterAcrossTiles, offsetLengthMinus1 }

namespace PictureParameterSet

def decodeTileIds (grid : TileGrid) (length : Nat) : Decoder (List (List Nat)) :=
  times (grid.rowsMinus1 + 1) (times (grid.columnsMinus1 + 1) (u length))

def decodeWith (id spsId : Nat) : Decoder PictureParameterSet := do
  let activeRefs0Minus1 ← ue
  let activeRefs1Minus1 ← ue
  let additionalLongTermLsbLength ← ue
  let rpl1IndexPresent ← flag
  let single ← flag
  let grid ← if single then pure {} else TileGrid.decode
  let tiling ← optional (!single) (Tiling.decode grid)
  let tileIdLengthMinus1 ← ueMax 31
  let tileIds ← flagged (decodeTileIds grid (tileIdLengthMinus1 + 1))
  let rangeAdjustmentApsId ← flagged (u 5)
  let arbitrarySlices ← flag
  let constrainedIntra ← flag
  let log2CuQpDeltaAreaMinus6 ← flagged ue
  return {
    id, spsId, activeRefsMinus1 := (activeRefs0Minus1, activeRefs1Minus1),
    additionalLongTermLsbLength, rpl1IndexPresent, grid, tiling, tileIdLengthMinus1, tileIds,
    rangeAdjustmentApsId, arbitrarySlices, constrainedIntra, log2CuQpDeltaAreaMinus6 }

def decode (isKnown : Nat → Bool) : Decoder PictureParameterSet := do
  let id ← ueMax maxId
  let spsId ← ueMax maxSpsId
  if isKnown spsId then decodeWith id spsId else throw (.unknownSps id spsId)

end PictureParameterSet
end

section
open Coded

def TileGrid.encode (g : TileGrid) : Coded := ue g.columnsMinus1 ++ ue g.rowsMinus1

def TileSpacing.encode (grid : TileGrid) (s : TileSpacing) : Coded :=
  require (s.columnWidthsMinus1.length = grid.columnsMinus1
      ∧ s.rowHeightsMinus1.length = grid.rowsMinus1)
    (each ue s.columnWidthsMinus1 ++ each ue s.rowHeightsMinus1)

def Tiling.encode (grid : TileGrid) (t : Tiling) : Coded :=
  flag t.spacing.isNone ++ optional (TileSpacing.encode grid) t.spacing
    ++ flag t.loopFilterAcrossTiles ++ ue t.offsetLengthMinus1

namespace PictureParameterSet

def encodeTileIds (grid : TileGrid) (length : Nat) (ids : List (List Nat)) : Coded :=
  require (ids.length = grid.rowsMinus1 + 1 ∧ ∀ row ∈ ids, row.length = grid.columnsMinus1 + 1)
    (each (each (u length)) ids)

def encode (p : PictureParameterSet) : Coded :=
  ue p.id ++ ue p.spsId ++ ue p.activeRefsMinus1.1 ++ ue p.activeRefsMinus1.2
    ++ ue p.additionalLongTermLsbLength ++ flag p.rpl1IndexPresent ++ flag p.isSingleTile
    ++ optional (fun tiling => p.grid.encode ++ tiling.encode p.grid) p.tiling
    ++ ue p.tileIdLengthMinus1
    ++ flagged (encodeTileIds p.grid p.tileIdLength) p.tileIds
    ++ flagged (u 5) p.rangeAdjustmentApsId ++ flag p.arbitrarySlices
    ++ flag p.constrainedIntra ++ flagged ue p.log2CuQpDeltaAreaMinus6

end PictureParameterSet
end

inductive SliceType where
  | b
  | p
  | i
  deriving DecidableEq, Repr

namespace SliceType

def code : SliceType → Nat
  | b => 0
  | p => 1
  | i => 2

def ofCode? : Nat → Option SliceType
  | 0 => some b
  | 1 => some p
  | 2 => some i
  | _ => none

def name : SliceType → String
  | b => "B"
  | p => "P"
  | i => "I"

def isInter : SliceType → Bool
  | i => false
  | _ => true

end SliceType

/-- The tiles of a slice behind its first one: none, all up to a last one, or a choice given by
the steps from each to the next. -/
inductive TileSpan where
  | single
  | through (last : Nat)
  | chosen (remainingMinus1 : Nat) (stepsMinus1 : List Nat)
  deriving DecidableEq, Repr

structure SliceLoopFilter where
  enabled : Bool := false
  lumaApsId : Nat := 0
  lumaMap : Bool := false
  chromaIdc : Nat := 0
  chromaApsId : Nat := 0
  chromaMap : Bool := false
  chroma2ApsId : Nat := 0
  chroma2Map : Bool := false
  deriving DecidableEq, Repr

structure SliceHeader where
  ppsId : Nat := 0
  firstTileId : Nat := 0
  span : TileSpan := .through 0
  type : SliceType := .b
  noOutputOfPriorPictures : Bool := false
  mergeDifferenceGroups : Bool := false
  loopFilter : SliceLoopFilter := {}
  /-- The place of the picture in output order, up to a multiple of the sequence's bound. -/
  orderLsb : Nat := 0
  deriving DecidableEq, Repr

def SliceLoopFilter.chromaEnabled (f : SliceLoopFilter) : Bool × Bool :=
  (f.chromaIdc == 1 || f.chromaIdc == 3, f.chromaIdc == 2 || f.chromaIdc == 3)

def TileSpan.isSingle : TileSpan → Bool
  | single => true
  | _ => false

def TileSpan.isChosen : TileSpan → Bool
  | chosen _ _ => true
  | _ => false

section
open Decoder

def SliceType.decode : Decoder SliceType := do
  match ← ueMax 2 with
  | 0 => return b
  | 1 => return p
  | _ => return i

def TileSpan.decode (pps : PictureParameterSet) : Decoder TileSpan := do
  let chosen ← if pps.arbitrarySlices then flag else pure false
  if chosen then
    let remainingMinus1 ← ueMax (TileGrid.maxRows * TileGrid.maxColumns - 1)
    let stepsMinus1 ← times (remainingMinus1 + 1) ue
    return .chosen remainingMinus1 stepsMinus1
  else return .through (← u pps.tileIdLength)

def SliceLoopFilter.decodeChroma (enabled : Bool) : Decoder (Nat × Bool) := do
  if enabled then
    let apsId ← u 5
    let map ← flag
    return (apsId, map)
  else return (0, false)

/-- The chroma part that goes with luma filtering. In subsampled formats the components share a
parameter set. -/
def SliceLoopFilter.decodeLuma (chromaFormatIdc : Nat) : Decoder SliceLoopFilter := do
  if ← flag then
    let lumaApsId ← u 5
    let lumaMap ← flag
    let chromaIdc ← u 2
    if (chromaFormatIdc = 1 ∨ chromaFormatIdc = 2) ∧ 0 < chromaIdc then
      let chromaApsId ← u 5
      return { enabled := true, lumaApsId, lumaMap, chromaIdc, chromaApsId }
    else return { enabled := true, lumaApsId, lumaMap, chromaIdc }
  else return {}

def SliceLoopFilter.decode (chromaFormatIdc : Nat) : Decoder SliceLoopFilter := do
  let filter ← decodeLuma chromaFormatIdc
  if chromaFormatIdc = 3 then
    let chromaIdc ← if filter.enabled then pure filter.chromaIdc else u 2
    let filter := { filter with chromaIdc }
    let (chromaApsId, chromaMap) ← decodeChroma filter.chromaEnabled.1
    let (chroma2ApsId, chroma2Map) ← decodeChroma filter.chromaEnabled.2
    return { filter with chromaApsId, chromaMap, chroma2ApsId, chroma2Map }
  else return filter

namespace SliceHeader

def decodeWith (isIdr : Bool) (ppsId : Nat) (pps : PictureParameterSet)
    (sps : SequenceParameterSet) : Decoder SliceHeader := do
  let single ← if pps.isSingleTile then pure true else flag
  let firstTileId ← if pps.isSingleTile then pure 0 else u pps.tileIdLength
  let span ← if single then pure .single else TileSpan.decode pps
  let type ← SliceType.decode
  let noOutputOfPriorPictures ← if isIdr then flag else pure false
  let mergeDifferenceGroups ←
    if sps.motion.mergeDifference && type.isInter then flag else pure false
  let loopFilter ←
    if sps.loop.adaptiveLoopFilter then SliceLoopFilter.decode sps.format.chromaFormatIdc
    else pure {}
  let orderLsb ← if !isIdr && sps.countsInSlices then u sps.orderLsbWidth else pure 0
  return {
    ppsId, firstTileId, span, type, noOutputOfPriorPictures, mergeDifferenceGroups, loopFilter,
    orderLsb }

def decode (isIdr : Bool)
    (find : Nat → Except Fault (PictureParameterSet × SequenceParameterSet)) :
    Decoder SliceHeader := do
  let ppsId ← ueMax PictureParameterSet.maxId
  match find ppsId with
  | .error fault => throw fault
  | .ok (pps, sps) => decodeWith isIdr ppsId pps sps

end SliceHeader
end

section
open Coded

/-- A choice of tiles is refused where slices are not arbitrary, and unless it has as many steps
as announced. -/
def TileSpan.encode (pps : PictureParameterSet) (span : TileSpan) : Coded :=
  match span with
  | .single => empty
  | .through last =>
    (if pps.arbitrarySlices then flag false else empty) ++ u pps.tileIdLength last
  | .chosen remainingMinus1 stepsMinus1 =>
    require (pps.arbitrarySlices = true)
      (flag true ++ require (stepsMinus1.length = remainingMinus1 + 1)
        (ue remainingMinus1 ++ each ue stepsMinus1))

def SliceLoopFilter.encodeChroma (enabled : Bool) (apsId : Nat) (map : Bool) : Coded :=
  if enabled then u 5 apsId ++ flag map else empty

def SliceLoopFilter.encodeLuma (chromaFormatIdc : Nat) (f : SliceLoopFilter) : Coded :=
  flag f.enabled ++
    if f.enabled then
      u 5 f.lumaApsId ++ flag f.lumaMap ++ u 2 f.chromaIdc ++
        if (chromaFormatIdc = 1 ∨ chromaFormatIdc = 2) ∧ 0 < f.chromaIdc then u 5 f.chromaApsId
        else empty
    else empty

def SliceLoopFilter.encode (chromaFormatIdc : Nat) (f : SliceLoopFilter) : Coded :=
  f.encodeLuma chromaFormatIdc ++
    if chromaFormatIdc = 3 then
      (if f.enabled then empty else u 2 f.chromaIdc)
        ++ encodeChroma f.chromaEnabled.1 f.chromaApsId f.chromaMap
        ++ encodeChroma f.chromaEnabled.2 f.chroma2ApsId f.chroma2Map
    else empty

def SliceHeader.encode (isIdr : Bool) (pps : PictureParameterSet) (sps : SequenceParameterSet)
    (h : SliceHeader) : Coded :=
  ue h.ppsId
    ++ (if pps.isSingleTile then require (h.span.isSingle = true) empty
        else flag h.span.isSingle ++ u pps.tileIdLength h.firstTileId)
    ++ h.span.encode pps ++ ue h.type.code
    ++ (if isIdr then flag h.noOutputOfPriorPictures else empty)
    ++ (if sps.motion.mergeDifference && h.type.isInter then flag h.mergeDifferenceGroups
        else empty)
    ++ (if sps.loop.adaptiveLoopFilter then h.loopFilter.encode sps.format.chromaFormatIdc
        else empty)
    ++ (if !isIdr && sps.countsInSlices then u sps.orderLsbWidth h.orderLsb else empty)

end
end EvcStream
