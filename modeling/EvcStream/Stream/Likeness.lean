import EvcStream.Nal.Compose
/-!
# What a stream is like

The score of some bytes as a stream, and the summary of a sequence parameter set that a player asks
for.
-/
namespace EvcStream

def NalWalk.count (walk : NalWalk) (type : NalUnitType) : Nat :=
  walk.units.countP (·.header.type = type)

def streamScore : Nat := 51

def likeness (bytes : List UInt8) : Nat :=
  let walk := NalWalk.of bytes
  if 0 < walk.count .sps ∧ 0 < walk.count .pps
      ∧ (0 < walk.count .idr ∨ 3 < walk.count .nonIdr) then streamScore
  else 0

structure StreamSummary where
  spsId : Nat
  profileIdc : Nat
  levelIdc : Nat
  resolution : Resolution
  chromaFormatIdc : Nat
  bitDepthLuma : Nat
  bitDepthChroma : Nat
  gopSize : Nat
  frameRate : Option (Nat × Nat)
  reorders : Bool
  deriving DecidableEq, Repr

def VuiParameters.frameRate (v : VuiParameters) : Option (Nat × Nat) := do
  let timing ← v.timing
  if timing.unitsInTick = 0 then none else some (timing.timeScale, timing.unitsInTick)

/-- Whether pictures may be reordered: the stream says so itself, or else its references follow
from sub-GOPs of more than one picture. -/
def SequenceParameterSet.reorders (s : SequenceParameterSet) : Bool :=
  match s.vui.bind VuiParameters.restriction with
  | some restriction => 0 < restriction.reorderedPictures
  | none => !s.references.isListed && 0 < s.subGop.log2Length

namespace StreamSummary

def ofSps (s : SequenceParameterSet) : StreamSummary where
  spsId := s.format.id
  profileIdc := s.format.profileIdc
  levelIdc := s.format.levelIdc
  resolution := s.resolution
  chromaFormatIdc := s.format.chromaFormatIdc
  bitDepthLuma := s.bitDepthLuma
  bitDepthChroma := s.bitDepthChroma
  gopSize := s.subGop.length
  frameRate := s.vui.bind VuiParameters.frameRate
  reorders := s.reorders

/-- Decoding engines consume the two known profiles, with chroma subsampled both ways. -/
def checkSupported (s : StreamSummary) : Except Fault Unit :=
  if (Profile.ofIdc? s.profileIdc).isNone then .error (.unsupportedProfile s.profileIdc)
  else if s.chromaFormatIdc ≠ 1 then .error (.unsupportedChromaFormat s.chromaFormatIdc)
  else .ok ()

end StreamSummary
end EvcStream
