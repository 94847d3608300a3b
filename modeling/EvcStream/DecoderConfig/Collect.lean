import EvcStream.DecoderConfig.Decode
import EvcStream.Store
/-!
# Making decoder configuration records

A record is collected from the units of a stream, and written with the checks of its fields.
-/
namespace EvcStream

open DecoderConfig

def UnitGroup.encodeUnit (unit : List UInt8) : Except ConfigError (List UInt8) := do
  let length ← fit "nalUnitLength" 2 unit.length
  return BigEndian.encode 2 length ++ unit

def UnitGroup.encode (g : UnitGroup) : Except ConfigError (List UInt8) := do
  let count ← fit "numNalus" 2 g.units.length
  let units ← g.units.mapM encodeUnit
  return UInt8.ofNat (g.isComplete.toNat * 2 ^ (7 : Nat) + g.type.code % 2 ^ (6 : Nat))
    :: BigEndian.encode 2 count ++ units.flatten

namespace DecoderConfig

def FitsBits (c : DecoderConfig) : Prop :=
  c.chromaFormatIdc ≤ 3 ∧ c.bitDepthLumaMinus8 ≤ 7 ∧ c.bitDepthChromaMinus8 ≤ 7
    ∧ c.lengthSizeMinusOne ≤ 3

instance (c : DecoderConfig) : Decidable c.FitsBits := inferInstanceAs (Decidable (_ ∧ _))

def encodeFixed (c : DecoderConfig) : List UInt8 :=
  BigEndian.encode 1 c.version ++ BigEndian.encode 1 c.profileIdc
    ++ BigEndian.encode 1 c.levelIdc ++ BigEndian.encode 4 c.toolsetIdcHigh
    ++ BigEndian.encode 4 c.toolsetIdcLow
    ++ BigEndian.encode 1
      (c.chromaFormatIdc * 2 ^ (6 : Nat) + c.bitDepthLumaMinus8 * 2 ^ (3 : Nat)
        + c.bitDepthChromaMinus8)
    ++ BigEndian.encode 2 c.pictureWidth ++ BigEndian.encode 2 c.pictureHeight
    ++ BigEndian.encode 1 (0xfc + c.lengthSizeMinusOne)

def checkBits (c : DecoderConfig) : Except ConfigError Unit :=
  if c.FitsBits then .ok () else .error (.record .bitWidth)

def encode (c : DecoderConfig) : Except ConfigError (List UInt8) := do
  c.checkSpsCount
  c.checkBits
  let count ← fit "numOfArrays" 1 c.groups.length
  let groups ← c.groups.mapM UnitGroup.encode
  return c.encodeFixed ++ BigEndian.encode 1 count ++ groups.flatten

def unitStream (c : DecoderConfig) : Except ConfigError (List UInt8) :=
  match (c.groups.flatMap UnitGroup.units).mapM NalUnit.frame with
  | .error error => .error (.write error)
  | .ok framed => .ok framed.flatten

def isCollected : NalUnitType → Bool
  | .sps | .pps | .aps | .sei => true
  | _ => false

def isParameterSet : NalUnitType → Bool
  | .sps | .pps => true
  | _ => false

def addToGroups (type : NalUnitType) (unit : List UInt8) (isComplete : Bool) :
    List UnitGroup → List UnitGroup
  | [] => [{ isComplete, type, units := [unit] }]
  | g :: groups =>
    if g.type = type then { g with units := g.units ++ [unit] } :: groups
    else g :: addToGroups type unit isComplete groups

def addUnit (type : NalUnitType) (unit : List UInt8) (isComplete : Bool) (c : DecoderConfig) :
    Except ConfigError DecoderConfig := do
  let _ ← fit "nalUnitLength" 2 unit.length
  return { c with groups := addToGroups type unit isComplete c.groups }

def describe (sps : SequenceParameterSet) (c : DecoderConfig) :
    Except ConfigError DecoderConfig := do
  let pictureWidth ← fit "pic_width_in_luma_samples" 2 sps.format.pictureWidth
  let pictureHeight ← fit "pic_height_in_luma_samples" 2 sps.format.pictureHeight
  return { c with
    profileIdc := sps.format.profileIdc
    levelIdc := sps.format.levelIdc
    toolsetIdcHigh := sps.format.toolsetIdcHigh
    toolsetIdcLow := sps.format.toolsetIdcLow
    chromaFormatIdc := sps.format.chromaFormatIdc
    bitDepthLumaMinus8 := sps.format.bitDepthLumaMinus8
    bitDepthChromaMinus8 := sps.format.bitDepthChromaMinus8
    pictureWidth, pictureHeight }

/-- A record under construction: `described` once a sequence parameter set has been read. -/
structure Draft where
  config : DecoderConfig := {}
  described : Bool := false

def Draft.describe (draft : Draft) (u : NalUnit) : Except ConfigError Draft :=
  if u.header.type = .sps ∧ draft.described = false then
    match ParameterStore.readSequence u with
    | .error fault => .error (.stream fault)
    | .ok sps => do return { config := ← draft.config.describe sps, described := true }
  else .ok draft

def Draft.add (allComplete : Bool) (draft : Draft) (u : NalUnit) : Except ConfigError Draft :=
  if isCollected u.header.type then do
    let draft ← draft.describe u
    let config ←
      draft.config.addUnit u.header.type u.bytes (allComplete && isParameterSet u.header.type)
    return { draft with config }
  else .ok draft

/-- The record of a stream, up to the first place where the walk over it stops. -/
def ofStream (bytes : List UInt8) (allComplete : Bool) : Except ConfigError DecoderConfig := do
  let draft ← (NalWalk.of bytes).units.foldlM (Draft.add allComplete) {}
  draft.config.checkSpsCount
  return draft.config

def minSize : Nat := 8

def isRecord (bytes : List UInt8) : Bool :=
  minSize ≤ bytes.length && bytes.head? == some 1

/-- The record for some bytes, which are a stream, or a record already. -/
def recordFor (bytes : List UInt8) (allComplete : Bool) : Except ConfigError (List UInt8) :=
  if bytes.length < minSize then .error (.record (.tooShort bytes.length))
  else if isRecord bytes then .ok bytes
  else do (← ofStream bytes allComplete).encode

end DecoderConfig
end EvcStream
