import EvcStream.Picture
/-!
# NAL units

A NAL unit is a header of two bytes and a payload. In a stream each unit stands behind its length,
a number of four bytes; a walk takes one unit after the other until one is malformed. Parameter sets
and slice headers are composed into units of their own.
-/
namespace EvcStream

structure NalUnitHeader where
  type : NalUnitType
  temporalId : Nat
  reserved : Nat
  extension : Bool
  deriving DecidableEq, Repr

namespace NalUnitHeader

def size : Nat := 2

def decode (bytes : List UInt8) : Except Fault NalUnitHeader :=
  if bytes.length < size then .error (.headerMissing bytes.length)
  else
    let word := BigEndian.decode (bytes.take size)
    if word / 2 ^ (15 : Nat) % 2 = 1 then .error .forbiddenBit
    else if h : word / 2 ^ (9 : Nat) % 2 ^ (6 : Nat) = 0 then .error .typeZero
    else .ok {
      type := NalUnitType.ofCode (word / 2 ^ (9 : Nat) % 2 ^ (6 : Nat) - 1) (by omega)
      temporalId := word / 2 ^ (6 : Nat) % 2 ^ (3 : Nat)
      reserved := word / 2 % 2 ^ (5 : Nat)
      extension := word % 2 == 1 }

/-- The header of a unit without reserved bits and extension. Only the low three bits of the
temporal id are kept. -/
def encode (type : NalUnitType) (temporalId : Nat) : List UInt8 :=
  BigEndian.encode size
    ((type.code + 1) % 2 ^ (6 : Nat) * 2 ^ (9 : Nat) + temporalId % 2 ^ (3 : Nat) * 2 ^ (6 : Nat))

end NalUnitHeader

structure NalUnit where
  header : NalUnitHeader
  /-- The unit from its header on. -/
  bytes : List UInt8
  /-- Where the length in front of the unit starts. -/
  start : Nat := 0
  deriving DecidableEq, Repr

namespace NalUnit

def lengthSize : Nat := 4

def size (u : NalUnit) : Nat := u.bytes.length

def offset (u : NalUnit) : Nat := u.start + lengthSize

def stop (u : NalUnit) : Nat := u.offset + u.size

def framed (u : NalUnit) : List UInt8 := BigEndian.encode lengthSize u.size ++ u.bytes

def payload (u : NalUnit) : List UInt8 := u.bytes.drop NalUnitHeader.size

def length (bytes : List UInt8) : Except Fault Nat :=
  match cut? lengthSize bytes with
  | none => .error (.lengthMissing bytes.length)
  | some (front, _) =>
    let value := BigEndian.decode front
    if value = 0 then .error .lengthZero else .ok value

/-- Cuts off the unit that `bytes` start with, where `bytes` themselves start at `start`. -/
def split (start : Nat) (bytes : List UInt8) : Except Fault (NalUnit × List UInt8) :=
  match length bytes with
  | .error fault => .error fault
  | .ok size =>
    match cut? size (bytes.drop lengthSize) with
    | none => .error (.unitExceedsData size (bytes.length - lengthSize))
    | some (unit, rest) =>
      match NalUnitHeader.decode unit with
      | .error fault => .error fault
      | .ok header => .ok ({ header, bytes := unit, start }, rest)

def ofFramed (bytes : List UInt8) : Except Fault NalUnit := do
  let (unit, rest) ← split 0 bytes
  if rest.isEmpty then return unit else .error (.trailingBytes rest.length)

def frame (unit : List UInt8) : Except WriteError (List UInt8) :=
  if unit.length < NalUnitHeader.size then .error (.unitTooShort unit.length)
  else if unit.length < 2 ^ (32 : Nat) then .ok (BigEndian.encode lengthSize unit.length ++ unit)
  else .error (.unitTooLarge unit.length)

theorem length_le_of_length {bytes : List UInt8} {value : Nat}
    (h : length bytes = .ok value) : lengthSize ≤ bytes.length := by
  unfold length at h
  split at h
  · cases h
  · next front back cutting =>
    obtain ⟨long, rfl⟩ := cut?_eq_some_iff.mp cutting
    simp only [List.length_append]
    omega

theorem split_length {start : Nat} {bytes rest : List UInt8} {unit : NalUnit}
    (h : split start bytes = .ok (unit, rest)) :
    bytes.length = lengthSize + unit.size + rest.length := by
  unfold split at h
  split at h
  · cases h
  · next size counted =>
    have long := length_le_of_length counted
    split at h
    · cases h
    · next front back cutting =>
      split at h
      · cases h
      · next header decoded =>
        obtain ⟨-, body⟩ := cut?_eq_some_iff.mp cutting
        have total := congrArg List.length body
        simp only [Except.ok.injEq, Prod.mk.injEq] at h
        obtain ⟨rfl, rfl⟩ := h
        simp only [List.length_drop, List.length_append] at total
        simp only [NalUnit.size]
        omega

theorem split_shorter {start : Nat} {bytes rest : List UInt8} {unit : NalUnit}
    (h : split start bytes = .ok (unit, rest)) : rest.length < bytes.length := by
  have := split_length h
  simp only [lengthSize] at this
  omega

end NalUnit

/-- What a walk over a byte string meets. -/
structure NalWalk where
  units : List NalUnit
  fault : Fault
  stop : Nat
  deriving DecidableEq, Repr

def NalWalk.startingAt (start : Nat) (bytes : List UInt8) : NalWalk :=
  match cutting : NalUnit.split start bytes with
  | .error fault => { units := [], fault, stop := start }
  | .ok (unit, rest) =>
    have := NalUnit.split_shorter cutting
    let walk := NalWalk.startingAt unit.stop rest
    { walk with units := unit :: walk.units }
termination_by bytes.length

def NalWalk.of (bytes : List UInt8) : NalWalk := NalWalk.startingAt 0 bytes

def NalUnit.compose (type : NalUnitType) (temporalId : Nat) (coded : Coded) :
    Except EncodeError (List UInt8) :=
  match coded with
  | .error error => .error error
  | .ok bits =>
    match frame (NalUnitHeader.encode type temporalId ++ Bits.toBytes (bits ++ [true])) with
    | .error error => .error (.write error)
    | .ok bytes => .ok bytes

def SequenceParameterSet.compose (temporalId : Nat) (sps : SequenceParameterSet) :
    Except EncodeError (List UInt8) :=
  NalUnit.compose .sps temporalId sps.encode

def PictureParameterSet.compose (temporalId : Nat) (pps : PictureParameterSet) :
    Except EncodeError (List UInt8) :=
  NalUnit.compose .pps temporalId pps.encode

/-- A slice unit that carries a header and no slice data. -/
def SliceHeader.compose (type : NalUnitType) (temporalId : Nat) (pps : PictureParameterSet)
    (sps : SequenceParameterSet) (header : SliceHeader) : Except EncodeError (List UInt8) :=
  if type.isSlice then NalUnit.compose type temporalId (header.encode (type = .idr) pps sps)
  else .error .unsupported

end EvcStream
