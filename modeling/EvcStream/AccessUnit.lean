import EvcStream.PictureOrder
import EvcStream.Store
/-!
# Access units

The units of one picture are collected in a buffer, which grows by doubling and keeps its capacity.
The assembler adds unit after unit to the open access unit, and closes it with the unit that ends
the picture.
-/
namespace EvcStream

structure UnitBuffer where
  bytes : List UInt8 := []
  capacity : Nat
  capacity_pos : 0 < capacity := by omega
  deriving DecidableEq, Repr

namespace UnitBuffer

def sizeBound : Nat := 2 ^ (64 : Nat)

def ofCapacity (capacity : Nat) : UnitBuffer := { capacity := max capacity 1 }

def length (b : UnitBuffer) : Nat := b.bytes.length

/-- The first doubling of a capacity that holds `needed` bytes, if it is a size. -/
def grow (needed capacity : Nat) (positive : 0 < capacity) :
    Option { larger : Nat // 0 < larger } :=
  if needed ≤ capacity then some ⟨capacity, positive⟩
  else if 2 * capacity < sizeBound then grow needed (2 * capacity) (by omega)
  else none
termination_by needed - capacity

def append (b : UnitBuffer) (bytes : List UInt8) : Except Fault UnitBuffer :=
  let needed := b.length + bytes.length
  if needed < sizeBound then
    match grow needed b.capacity b.capacity_pos with
    | none => .error .accessUnitTooLarge
    | some ⟨capacity, capacity_pos⟩ => .ok { bytes := b.bytes ++ bytes, capacity, capacity_pos }
  else .error .accessUnitTooLarge

def clear (b : UnitBuffer) : UnitBuffer := { b with bytes := [] }

end UnitBuffer

structure AccessUnit where
  bytes : List UInt8
  /-- The picture order count of the last slice, if there is one. -/
  order : Option Int
  isKeyFrame : Bool
  types : List NalUnitType
  deriving DecidableEq, Repr

structure Assembler where
  store : ParameterStore := {}
  order : PictureOrder := {}
  profile : Profile := .baseline
  lastSpsId : Option Nat := none
  buffer : UnitBuffer
  types : List NalUnitType := []
  isKeyFrame : Bool := false
  lastOrder : Option Int := none
  deriving DecidableEq, Repr

/-- Whether a unit ends the access unit it belongs to, given the order after it. -/
def endsAccessUnit (profile : Profile) (type : NalUnitType) (order : PictureOrder) : Bool :=
  match profile, type with
  | _, .idr => true
  | .baseline, .nonIdr => true
  | .main, .nonIdr => order.count != order.previous
  | _, _ => false

namespace Assembler

def defaultCapacity : Nat := 1024

def ofCapacity (capacity : Nat) : Assembler :=
  { buffer := UnitBuffer.ofCapacity capacity }

def lastSps (a : Assembler) : Option SequenceParameterSet := do
  a.store.sequences.find? (← a.lastSpsId)

def takeOpen (a : Assembler) : Option AccessUnit × Assembler :=
  if a.buffer.bytes.isEmpty then (none, a)
  else
    (some { bytes := a.buffer.bytes, order := a.lastOrder, isKeyFrame := a.isKeyFrame,
            types := a.types },
      { a with buffer := a.buffer.clear, types := [], isKeyFrame := false, lastOrder := none })

abbrev Step := EStateM Fault Assembler

def Step.ofExcept {α : Type} : Except Fault α → Step α
  | .ok value => pure value
  | .error fault => throw fault

def nextOrder (a : Assembler) (u : NalUnit) (ppsId : Nat) : Except Fault PictureOrder :=
  match a.store.slices.find? ppsId, a.store.resolve ppsId with
  | some header, .ok (_, sps) => a.order.advance u.header.type u.header.temporalId sps header
  | _, _ => .error (.lostParameterSets ppsId)

/-- Reads what a unit says about the units behind it. Gives the count of a slice. -/
def interpret (u : NalUnit) : Step (Option Int) := do
  match u.header.type with
  | .sps =>
    let (sps, store) ← Step.ofExcept ((← get).store.addSequence u)
    modify ({ · with store, profile := sps.profile, lastSpsId := some sps.format.id })
    return none
  | .pps =>
    let (_, store) ← Step.ofExcept ((← get).store.addPicture u)
    modify ({ · with store })
    return none
  | .idr | .nonIdr =>
    let (header, store) ← Step.ofExcept ((← get).store.addSlice u)
    modify ({ · with store })
    let order ← Step.ofExcept ((← get).nextOrder u header.ppsId)
    modify ({ · with order })
    return some order.count
  | _ => return none

def collect (u : NalUnit) (order : Option Int) : Step Unit := do
  let buffer ← Step.ofExcept ((← get).buffer.append u.framed)
  modify fun a => { a with
    buffer
    types := a.types ++ [u.header.type]
    isKeyFrame := a.isKeyFrame || u.header.type = .idr
    lastOrder := order <|> a.lastOrder }

def close (type : NalUnitType) : Step (Option AccessUnit) := do
  let a ← get
  if endsAccessUnit a.profile type a.order then
    let (unit, a) := a.takeOpen
    set a
    return unit
  else return none

/-- Takes in a unit with its length in front, and gives the access unit that it ends. -/
def push (framed : List UInt8) : Step (Option AccessUnit) := do
  let u ← Step.ofExcept (NalUnit.ofFramed framed)
  let order ← interpret u
  collect u order
  close u.header.type

end Assembler
end EvcStream
