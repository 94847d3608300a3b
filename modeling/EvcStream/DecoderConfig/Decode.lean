import EvcStream.Nal.Compose
/-!
# Decoder configuration records

A record describes a sequence and carries the units that a decoder needs before the first picture,
grouped by type. Reading one checks what a record says of itself.
-/
namespace EvcStream

inductive RecordFault where
  | tooShort (size : Nat)
  | spsCount (count : Nat)
  | doesNotFit (field : String) (value : Nat)
  | bitWidth
  | unknownVersion (version : Nat)
  | unknownUnitType (code : Nat)
  deriving DecidableEq, Repr

inductive ConfigError where
  | record (fault : RecordFault)
  | stream (fault : Fault)
  | write (error : WriteError)
  | truncated
  deriving DecidableEq, Repr

structure UnitGroup where
  /-- Whether the stream itself holds no units of this type. -/
  isComplete : Bool
  type : NalUnitType
  units : List (List UInt8)
  deriving DecidableEq, Repr

structure DecoderConfig where
  version : Nat := 1
  profileIdc : Nat := 0
  levelIdc : Nat := 0
  toolsetIdcHigh : Nat := 0
  toolsetIdcLow : Nat := 0
  chromaFormatIdc : Nat := 0
  bitDepthLumaMinus8 : Nat := 0
  bitDepthChromaMinus8 : Nat := 0
  pictureWidth : Nat := 0
  pictureHeight : Nat := 0
  lengthSizeMinusOne : Nat := NalUnit.lengthSize - 1
  groups : List UnitGroup := []
  deriving DecidableEq, Repr

namespace RecordFault

def detail : RecordFault → String
  | tooShort size => s!"{size} bytes are not enough to build a record"
  | spsCount count => s!"record needs 1 to 16 SPS, got {count}"
  | doesNotFit field value => s!"{field} {value} does not fit the record"
  | bitWidth => "field does not fit its bit width"
  | unknownVersion version => s!"unknown configurationVersion {version}"
  | unknownUnitType code => s!"invalid NAL unit type {code}"

end RecordFault

def ConfigError.message : ConfigError → String
  | record fault => "invalid configuration record: " ++ fault.detail
  | stream fault => fault.message
  | write error => error.message
  | truncated => "failed to fill whole buffer"

namespace DecoderConfig

def maxSpsCount : Nat := 16

def spsCount (c : DecoderConfig) : Nat :=
  ((c.groups.filter (·.type = .sps)).flatMap (·.units)).length

def checkSpsCount (c : DecoderConfig) : Except ConfigError Unit :=
  if 1 ≤ c.spsCount ∧ c.spsCount ≤ maxSpsCount then .ok ()
  else .error (.record (.spsCount c.spsCount))

/-- A value for a field of some bytes. Values are taken as 32-bit numbers first. -/
def fit (field : String) (width value : Nat) : Except ConfigError Nat :=
  let value := value % 2 ^ (32 : Nat)
  if value < 256 ^ width then .ok value else .error (.record (.doesNotFit field value))

end DecoderConfig

abbrev RecordReader := StateT (List UInt8) (Except ConfigError)

namespace RecordReader

def take (count : Nat) : RecordReader (List UInt8) := fun bytes =>
  match cut? count bytes with
  | none => .error .truncated
  | some (front, rest) => .ok (front, rest)

def uint (width : Nat) : RecordReader Nat := do
  return BigEndian.decode (← take width)

/-- So many items, in front of those already read in reverse. -/
def timesOnto {α : Type} (item : RecordReader α) : Nat → List α → RecordReader (List α)
  | 0, read => pure read.reverse
  | count + 1, read => do
    let next ← item
    timesOnto item count (next :: read)

def times {α : Type} (count : Nat) (item : RecordReader α) : RecordReader (List α) :=
  timesOnto item count []

end RecordReader

open RecordReader

def UnitGroup.decodeUnit : RecordReader (List UInt8) := do
  take (← uint 2)

def UnitGroup.decode : RecordReader UnitGroup := do
  let head ← uint 1
  match NalUnitType.ofCode? (head % 2 ^ (6 : Nat)) with
  | none => throw (.record (.unknownUnitType (head % 2 ^ (6 : Nat))))
  | some type =>
    let count ← uint 2
    let units ← times count decodeUnit
    return { isComplete := head / 2 ^ (7 : Nat) == 1, type, units }

namespace DecoderConfig

def readVersion : RecordReader Nat := do
  let version ← uint 1
  if version = 1 then return version else throw (.record (.unknownVersion version))

def read : RecordReader DecoderConfig := do
  let version ← readVersion
  let profileIdc ← uint 1
  let levelIdc ← uint 1
  let toolsetIdcHigh ← uint 4
  let toolsetIdcLow ← uint 4
  let formats ← uint 1
  let pictureWidth ← uint 2
  let pictureHeight ← uint 2
  let lengthSize ← uint 1
  let count ← uint 1
  let groups ← times count UnitGroup.decode
  return {
    version, profileIdc, levelIdc, toolsetIdcHigh, toolsetIdcLow
    chromaFormatIdc := formats / 2 ^ (6 : Nat)
    bitDepthLumaMinus8 := formats / 2 ^ (3 : Nat) % 2 ^ (3 : Nat)
    bitDepthChromaMinus8 := formats % 2 ^ (3 : Nat)
    pictureWidth, pictureHeight
    lengthSizeMinusOne := lengthSize % 2 ^ (2 : Nat)
    groups }

def decode (bytes : List UInt8) : Except ConfigError DecoderConfig :=
  match read bytes with
  | .error error => .error error
  | .ok (config, _) => .ok config

end DecoderConfig
end EvcStream
