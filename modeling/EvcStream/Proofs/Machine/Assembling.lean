import EvcStream.Proofs.AccessUnit.Effects
import EvcStream.Proofs.Machine.Order
import EvcStream.Proofs.Machine.Picture
import EvcStream.Proofs.Machine.Sequence
import EvcStream.Proofs.Machine.Units
/-!
# Assembling on a machine

An assembler that has taken in nothing but what a machine can hold can take in another unit: the
sizes that its parameter sets choose are within bounds, its order is within 32 bits, and its buffer
can grow far enough.
-/
namespace EvcStream.Machine

structure Sane (a : EvcStream.Assembler) : Prop where
  store : a.store.Reachable
  placed : Placed a.order

def readAs {α : Type} (types : List NalUnitType) (span : Span) (decoder : Decoder α) :
    Checked (Except Fault α) :=
  if span.header.type ∈ types then do
    match ← decoder (ByteReader.ofBytes (← span.payload)) with
    | .ok value _ => return .ok value
    | .error fault _ => return .error fault
  else return .error (.unexpectedType types span.header.type)

def readSequence (span : Span) : Checked (Except Fault SequenceParameterSet) :=
  readAs [.sps] span SequenceParameterSet.decode

def readPicture (store : ParameterStore) (span : Span) :
    Checked (Except Fault PictureParameterSet) :=
  readAs [.pps] span (PictureParameterSet.decode store.sequences.contains)

def readSlice (store : ParameterStore) (span : Span) : Checked (Except Fault SliceHeader) :=
  readAs [.nonIdr, .idr] span (SliceHeader.decode (span.header.type = .idr) store.resolve)

section
variable {data : List UInt8} {u : NalUnit} {store : ParameterStore}

theorem readAs_eq {α : Type} {types : List NalUnitType} {decoder : Decoder α}
    {part : EvcStream.Decoder α} (lies : Lies data u) (does : Does decoder part) :
    readAs types (Span.of data u) decoder = .ok (do u.requireType types; u.read part) := by
  have typeEq : (Span.of data u).header.type = u.header.type := rfl
  have short : u.payload.length ≤ u.size := by
    rw [NalUnit.payload, List.length_drop]
    exact Nat.sub_le _ _
  have inside := lies.stop_le
  have small := lies.small
  unfold NalUnit.stop at inside
  unfold readAs NalUnit.requireType
  rw [typeEq]
  by_cases expected : u.header.type ∈ types
  · have ended := does (ByteReader.ofBytes u.payload) (ByteReader.ofBytes_sound (by omega))
    rw [if_pos expected, if_pos expected, lies.payload_eq, ok_bind]
    rw [ByteReader.ofBytes_view] at ended
    change _ = Except.ok (u.read part)
    unfold NalUnit.read
    generalize decoder _ = result, part _ = outcome at ended ⊢
    cases ended with
    | ok sound same =>
      rw [same.1]
      rfl
    | error fault s => rfl
  · rw [if_neg expected, if_neg expected]
    rfl

theorem readSequence_eq (lies : Lies data u) :
    readSequence (Span.of data u) = .ok (ParameterStore.readSequence u) :=
  readAs_eq lies SequenceParameterSet.decode_does

theorem readPicture_eq (lies : Lies data u) :
    readPicture store (Span.of data u) = .ok (store.readPicture u) :=
  readAs_eq lies (PictureParameterSet.decode_does _)

theorem readSlice_eq (bounded : store.Bounded) (lies : Lies data u) :
    readSlice store (Span.of data u) = .ok (store.readSlice u) := by
  apply readAs_eq lies
  apply SliceHeader.decode_does
  intro ppsId pps sps found
  obtain ⟨pictureFound, sequenceFound⟩ := ParameterStore.resolve_ok found
  exact ⟨Nat.le_of_succ_le_succ (bounded.tileIdLength ppsId pps pictureFound),
    (bounded.sequences pps.spsId sps sequenceFound).orderLsbWidth⟩

end

namespace Assembler

def nextOrder (a : Assembler) (span : Span) (ppsId : Nat) :
    Checked (Except Fault PictureOrder) :=
  match a.store.slices.find? ppsId, a.store.resolve ppsId with
  | some header, .ok (_, sps) =>
    advanceOrder a.order span.header.type span.header.temporalId sps header
  | _, _ => return .error (.lostParameterSets ppsId)

def interpret (span : Span) : Run Fault Assembler (Option Int) :=
  match span.header.type with
  | .sps => do
    let sps ← .ofExcept (readSequence span)
    Run.modify (·.keepSequence sps)
    return none
  | .pps => do
    let pps ← .ofExcept (readPicture (← Run.get).store span)
    Run.modify (·.keepPicture pps)
    return none
  | .idr | .nonIdr => do
    let header ← .ofExcept (readSlice (← Run.get).store span)
    Run.modify (·.keepSlice header)
    let order ← .ofExcept (nextOrder (← Run.get) span header.ppsId)
    Run.modify ({ · with order })
    return some order.count
  | _ => return none

section
variable {data : List UInt8} {u : NalUnit} {a : EvcStream.Assembler}

theorem nextOrder_eq {ppsId : Nat} (bounded : a.store.Bounded) (placed : Placed a.order) :
    nextOrder a (Span.of data u) ppsId = .ok (a.nextOrder u ppsId) := by
  unfold nextOrder EvcStream.Assembler.nextOrder
  cases a.store.slices.find? ppsId with
  | none => rfl
  | some header =>
    cases found : a.store.resolve ppsId with
    | error fault => rfl
    | ok sets =>
      obtain ⟨-, sequenceFound⟩ := ParameterStore.resolve_ok found
      exact advanceOrder_eq placed (bounded.sequences _ _ sequenceFound)

theorem interpret_eq (lies : Lies data u) (sane : Sane a) :
    interpret (Span.of data u) a = .ok (EvcStream.Assembler.interpret u a) := by
  have typeEq : (Span.of data u).header.type = u.header.type := rfl
  unfold interpret
  rw [typeEq]
  by_cases sps : u.header.type = .sps
  · rw [EvcStream.Assembler.interpret_sps sps, sps, readSequence_eq lies]
    dsimp only
    rw [Run.ofExcept_bind]
    cases ParameterStore.readSequence u <;> rfl
  by_cases pps : u.header.type = .pps
  · rw [EvcStream.Assembler.interpret_pps pps, pps]
    dsimp only
    rw [Run.get_bind, readPicture_eq lies, Run.ofExcept_bind]
    cases a.store.readPicture u <;> rfl
  by_cases slice : u.header.type = .idr ∨ u.header.type = .nonIdr
  · rw [EvcStream.Assembler.interpret_slice slice]
    have kept : ∀ header, (a.keepSlice header).store.Bounded := fun _ =>
      ⟨sane.store.bounded.sequences, sane.store.bounded.tileIdLength⟩
    rcases slice with type | type
    all_goals
      rw [type]
      dsimp only
      rw [Run.get_bind, readSlice_eq sane.store.bounded lies, Run.ofExcept_bind]
      cases a.store.readSlice u with
      | error fault => rfl
      | ok header =>
        dsimp only
        rw [Run.modify_bind, Run.get_bind, nextOrder_eq (kept header) sane.placed,
          EvcStream.Assembler.nextOrder_keepSlice, Run.ofExcept_bind]
        cases a.orderAfter u header <;> rfl
  · rw [EvcStream.Assembler.interpret_other sps pps slice]
    cases type : u.header.type
    case sps => exact absurd type sps
    case pps => exact absurd type pps
    case idr => exact absurd (Or.inl type) slice
    case nonIdr => exact absurd (Or.inr type) slice
    all_goals rfl

end
end Assembler

def append (buffer : UnitBuffer) (bytes : List UInt8) : Checked (Except Fault UnitBuffer) :=
  let needed := buffer.length + bytes.length
  if UnitBuffer.sizeBound ≤ needed then return .error .accessUnitTooLarge
  else if needed ≤ buffer.capacity then return .ok { buffer with bytes := buffer.bytes ++ bytes }
  else
    match UnitBuffer.grow needed buffer.capacity buffer.capacity_pos with
    | none => return .error .accessUnitTooLarge
    | some ⟨capacity, capacity_pos⟩ => do
      let additional ← minus capacity buffer.length
      allocate (← word 64 (buffer.length + additional))
      return .ok { bytes := buffer.bytes ++ bytes, capacity, capacity_pos }

section
variable {buffer next : UnitBuffer} {bytes : List UInt8}

/-- A capacity that had to grow is less than twice what was needed. -/
theorem grow_bounds {needed capacity : Nat} {positive : 0 < capacity}
    {larger : { larger : Nat // 0 < larger }}
    (grown : UnitBuffer.grow needed capacity positive = some larger) :
    needed ≤ larger.1 ∧ (larger.1 = capacity ∨ larger.1 < 2 * needed) := by
  fun_induction UnitBuffer.grow needed capacity positive with
  | case1 capacity positive fits =>
    cases grown
    exact ⟨fits, Or.inl rfl⟩
  | case2 capacity positive small bounded ih =>
    obtain ⟨fits, same | less⟩ := ih grown
    · exact ⟨fits, Or.inr (by omega)⟩
    · exact ⟨fits, Or.inr less⟩
  | case3 => cases grown

theorem append_eq (small : buffer.length + bytes.length < 2 ^ 32) :
    append buffer bytes = .ok (buffer.append bytes) := by
  have size : ¬ UnitBuffer.sizeBound ≤ buffer.length + bytes.length := by
    unfold UnitBuffer.sizeBound
    omega
  unfold append UnitBuffer.append
  dsimp only
  rw [if_neg size, if_pos (Nat.lt_of_not_le size)]
  by_cases fits : buffer.length + bytes.length ≤ buffer.capacity
  · rw [if_pos fits, UnitBuffer.grow, if_pos fits]
    rfl
  rw [if_neg fits]
  cases grown : UnitBuffer.grow (buffer.length + bytes.length) buffer.capacity
      buffer.capacity_pos with
  | none => rfl
  | some larger =>
    obtain ⟨enough, same | less⟩ := grow_bounds grown
    · exact absurd (same ▸ enough) fits
    · have whole : buffer.length + (larger.1 - buffer.length) = larger.1 := by omega
      dsimp only
      rw [minus_eq (by omega), ok_bind, whole, word_eq (by omega), ok_bind,
        allocate_eq (by unfold maxAllocation; omega)]
      rfl

end

namespace Assembler

def collect (span : Span) (order : Option Int) : Run Fault Assembler Unit := do
  let framed ← span.framed
  let buffer ← .ofExcept (append (← Run.get).buffer framed)
  Run.modify fun a => { a with
    buffer
    types := a.types ++ [span.header.type]
    isKeyFrame := a.isKeyFrame || span.header.type = .idr
    lastOrder := order <|> a.lastOrder }

def takeOpen (a : Assembler) : Checked (Option AccessUnit × Assembler) :=
  if a.buffer.bytes.isEmpty then return (none, a)
  else do
    allocate a.buffer.length
    return a.takeOpen

def close (type : NalUnitType) : Run Fault Assembler (Option AccessUnit) := do
  let a ← Run.get
  if endsAccessUnit a.profile type a.order then
    let (unit, a) ← takeOpen a
    Run.modify fun _ => a
    return unit
  else return none

def push (framed : List UInt8) : Run Fault Assembler (Option AccessUnit) := do
  let span ← .ofExcept (Span.ofFramed framed)
  let order ← interpret span
  collect span order
  close span.header.type

section
variable {framed : List UInt8} {a b : EvcStream.Assembler}

theorem takeOpen_eq (small : a.buffer.length ≤ maxAllocation) : takeOpen a = .ok a.takeOpen := by
  unfold takeOpen
  by_cases empty : a.buffer.bytes.isEmpty = true
  · rw [if_pos empty, EvcStream.Assembler.takeOpen, if_pos empty]
    rfl
  · rw [if_neg empty, allocate_eq small]
    rfl

theorem close_eq {type : NalUnitType} (small : a.buffer.length ≤ maxAllocation) :
    close type a = .ok (.ok (a.closed type).1 (a.closed type).2) := by
  unfold close EvcStream.Assembler.closed
  rw [Run.get_bind]
  by_cases ends : endsAccessUnit a.profile type a.order = true
  · rw [if_pos ends, if_pos ends, Run.bind_of_ok (Run.lift_of_ok (takeOpen_eq small) a)]
    rfl
  · rw [if_neg ends, if_neg ends]
    rfl

theorem push_eq (sane : Sane a)
    (small : a.buffer.length + framed.length < 2 ^ 32) :
    push framed a = .ok (EvcStream.Assembler.push framed a) := by
  unfold push
  rw [EvcStream.Assembler.push_eq, Span.ofFramed_eq (by omega)]
  cases framing : NalUnit.ofFramed framed with
  | error fault => rfl
  | ok u =>
  have lies := Lies.of_ofFramed (by omega) framing
  have whole := (NalUnit.ofFramed_ok framing).2
  have typeEq : (Span.of framed u).header.type = u.header.type := rfl
  have read := interpret_eq lies sane
  simp only [Except.map]
  rw [Run.ofExcept_bind]
  dsimp only
  cases done : EvcStream.Assembler.interpret u a with
  | error fault b =>
    rw [done] at read
    exact Run.bind_of_fault read
  | ok order b =>
    rw [done] at read
    rw [Run.bind_of_ok read]
    have same := (EvcStream.Assembler.interpret_open done).buffer
    unfold collect EvcStream.Assembler.finish
    have room : b.buffer.length + u.framed.length < 2 ^ 32 := by rwa [same, whole]
    rw [Run.bind_assoc, Run.bind_of_ok (Run.lift_of_ok lies.framed_eq b), Run.bind_assoc,
      Run.get_bind, append_eq room, Run.bind_assoc, Run.ofExcept_bind]
    dsimp only
    cases appended : b.buffer.append u.framed with
    | error fault => rfl
    | ok buffer =>
      have long : (b.collected u order buffer).buffer.length ≤ maxAllocation := by
        have bytes := congrArg List.length (UnitBuffer.append_bytes appended)
        rw [List.length_append] at bytes
        unfold UnitBuffer.length at room
        unfold maxAllocation
        change buffer.bytes.length ≤ _
        omega
      exact close_eq long

end
end Assembler

section
variable {framed : List UInt8} {a b : EvcStream.Assembler}

theorem Sane.ofCapacity (capacity : Nat) : Sane (EvcStream.Assembler.ofCapacity capacity) :=
  ⟨.empty, .initial⟩

theorem Sane.of_effect (sane : Sane a) (effect : EvcStream.Assembler.Effect framed a b) :
    Sane b := by
  refine ⟨effect.reachable sane.store, ?_⟩
  have placed := sane.placed
  cases effect with
  | none store same | sequence framing added same | picture framing added same => rwa [same]
  | slice framing added order =>
    rcases order with same | moved
    · rwa [same]
    · obtain ⟨pps, sps, found, advanced⟩ := EvcStream.Assembler.orderAfter_ok moved
      obtain ⟨-, sequenceFound⟩ := ParameterStore.resolve_ok found
      exact placed.advance (sane.store.bounded.sequences _ _ sequenceFound) advanced

theorem Sane.takeOpen (sane : Sane a) : Sane a.takeOpen.2 := by
  unfold EvcStream.Assembler.takeOpen
  split
  · exact sane
  · exact ⟨sane.store, sane.placed⟩

theorem push_ok_length {unit : Option AccessUnit}
    (pushed : EvcStream.Assembler.push framed a = .ok unit b) :
    b.buffer.length ≤ a.buffer.length + framed.length := by
  have bytes := congrArg List.length (EvcStream.Assembler.push_bytes pushed)
  rw [List.length_append, List.length_append] at bytes
  unfold UnitBuffer.length
  omega

theorem push_fault_length {fault : Fault}
    (pushed : EvcStream.Assembler.push framed a = .error fault b) :
    b.buffer.length = a.buffer.length := by
  rw [(EvcStream.Assembler.push_fault_open pushed).buffer]

end
end EvcStream.Machine
