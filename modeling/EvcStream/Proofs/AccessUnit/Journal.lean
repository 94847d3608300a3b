import EvcStream.Proofs.AccessUnit.Push
/-!
# Replays and journals of an assembler

The units that an assembler has accepted, pushed again in their order, lead to the same access units
and the same core. A journal notes beside a run what was accepted since the last access unit ended.
-/
namespace EvcStream.Assembler

variable {u : NalUnit} {a b : Assembler}

def coreOf {α : Type} : EStateM.Result Fault Assembler α → EStateM.Result Fault Assembler α
  | .ok value a => .ok value a.core
  | .error fault a => .error fault a.core

theorem interpret_core (u : NalUnit) (a : Assembler) :
    coreOf (interpret u a.core) = coreOf (interpret u a) := by
  by_cases sps : u.header.type = .sps
  · rw [interpret_sps sps, interpret_sps sps]
    cases ParameterStore.readSequence u <;> rfl
  by_cases pps : u.header.type = .pps
  · have same : a.core.store.readPicture u = a.store.readPicture u := rfl
    rw [interpret_pps pps, interpret_pps pps, same]
    cases a.store.readPicture u <;> rfl
  by_cases slice : u.header.type = .idr ∨ u.header.type = .nonIdr
  · have same : a.core.store.readSlice u = a.store.readSlice u := rfl
    rw [interpret_slice slice, interpret_slice slice, same]
    cases a.store.readSlice u with
    | error fault => rfl
    | ok header =>
      have ordered : a.core.orderAfter u header = a.orderAfter u header := rfl
      dsimp only
      rw [ordered]
      cases a.orderAfter u header <;> rfl
  · rw [interpret_other sps pps slice, interpret_other sps pps slice]
    rfl

theorem closed_core (a : Assembler) (type : NalUnitType) :
    a.core.closed type = ((a.closed type).1, (a.closed type).2.core) := by
  have ends : endsAccessUnit a.core.profile type a.core.order =
      endsAccessUnit a.profile type a.order := rfl
  have taken : a.core.takeOpen = (a.takeOpen.1, a.takeOpen.2.core) := by
    have buffer : a.core.buffer = a.buffer := rfl
    unfold takeOpen
    rw [buffer]
    split <;> rfl
  unfold closed
  rw [ends]
  split
  · exact taken
  · rfl

theorem finish_core (a : Assembler) (u : NalUnit) (order : Option Int) :
    coreOf (a.core.finish u order) = coreOf (a.finish u order) := by
  have buffer : a.core.buffer = a.buffer := rfl
  unfold finish
  rw [buffer]
  cases a.buffer.append u.framed with
  | error fault => rfl
  | ok buffer =>
    have collected : a.core.collected u order buffer = (a.collected u order buffer).core := rfl
    dsimp only
    rw [collected, closed_core]
    rfl

theorem push_core (framed : List UInt8) (a : Assembler) :
    coreOf (push framed a.core) = coreOf (push framed a) := by
  rw [push_eq, push_eq]
  cases NalUnit.ofFramed framed with
  | error fault => rfl
  | ok u =>
    have read := interpret_core u a
    dsimp only
    cases here : interpret u a.core with
    | error fault c =>
      rw [here] at read
      cases there : interpret u a with
      | error other d =>
        rw [there] at read
        simp only [coreOf, EStateM.Result.error.injEq] at read ⊢
        exact read
      | ok order d =>
        rw [there] at read
        cases read
    | ok order c =>
      rw [here] at read
      cases there : interpret u a with
      | error fault d =>
        rw [there] at read
        cases read
      | ok other d =>
        rw [there] at read
        simp only [coreOf, EStateM.Result.ok.injEq] at read
        obtain ⟨rfl, same⟩ := read
        dsimp only
        rw [← finish_core c, ← finish_core d, same]

theorem push_of_core {framed : List UInt8} {unit : Option AccessUnit} {c : Assembler}
    (same : b.core = a.core) (h : push framed a = .ok unit c) :
    ∃ d, push framed b = .ok unit d ∧ d.core = c.core := by
  have agree : coreOf (push framed b) = coreOf (push framed a) := by
    rw [← push_core framed b, ← push_core framed a, same]
  rw [h] at agree
  cases here : push framed b with
  | error fault d =>
    rw [here] at agree
    cases agree
  | ok other d =>
    rw [here] at agree
    simp only [coreOf, EStateM.Result.ok.injEq] at agree
    obtain ⟨rfl, core⟩ := agree
    exact ⟨d, rfl, core⟩

def HasRoom (a : Assembler) (more : Nat) : Prop := a.buffer.CanHold (a.buffer.length + more)

theorem HasRoom.mono {more less : Nat} (room : a.HasRoom more) (le : less ≤ more) :
    a.HasRoom less :=
  UnitBuffer.CanHold.mono room (Nat.add_le_add_left le _)

theorem HasRoom.push {framed : List UInt8} {unit : Option AccessUnit} {more : Nat}
    (room : a.HasRoom (framed.length + more)) (h : push framed a = .ok unit b) :
    b.HasRoom more := by
  obtain ⟨u, order, c, buffer, -, read, appended, result⟩ := push_ok h
  have kept := push_bytes h
  have shorter : b.buffer.length + more ≤ a.buffer.length + (framed.length + more) := by
    have lengths := congrArg List.length kept
    simp only [List.length_append] at lengths
    unfold UnitBuffer.length
    omega
  have capacity : b.buffer.capacity = buffer.capacity := by
    have same := (closed_frame (c.collected u order buffer) u.header.type).capacity
    rwa [← result] at same
  rw [(interpret_open read).buffer] at appended
  exact ((UnitBuffer.append_canHold appended room).of_capacity capacity).mono shorter

theorem HasRoom.push_fault {framed : List UInt8} {fault : Fault} {more : Nat}
    (room : a.HasRoom (framed.length + more)) (h : Assembler.push framed a = .error fault b) :
    b.core = a.core := by
  rcases Assembler.push_fault h with same | ⟨-, refused⟩
  · exact same
  · have fits : a.buffer.CanHold (a.buffer.length + framed.length) :=
      UnitBuffer.CanHold.mono room (by omega)
    obtain ⟨larger, appended⟩ := (a.buffer.append_isOk_iff framed).mpr fits
    rw [refused] at appended
    cases appended

theorem HasRoom.of_core {more : Nat} (room : a.HasRoom more) (same : b.core = a.core) :
    b.HasRoom more := by
  unfold HasRoom
  rw [(SameOpen.of_core same).buffer]
  exact room

theorem replay_of_core {units : List (List UInt8)} (room : a.HasRoom units.flatten.length)
    (same : b.core = a.core) :
    accepted id (accepted id units a) b = accepted id units a ∧
      (pushAll (accepted id units a) b).1 = (pushAll units a).1 ∧
      (pushAll (accepted id units a) b).2.core = (pushAll units a).2.core := by
  induction units generalizing a b with
  | nil => exact ⟨rfl, rfl, same⟩
  | cons framed later ih =>
    rw [List.flatten_cons, List.length_append] at room
    cases pushed : push framed a with
    | ok unit c =>
      obtain ⟨d, again, core⟩ := push_of_core same pushed
      obtain ⟨all, units, last⟩ := ih (room.push pushed) core
      simp only [accepted, pushAll, id_eq, pushed, again]
      exact ⟨by rw [all], by rw [units], last⟩
    | error fault c =>
      -- Only the run has moved, and not away from the core of `b`.
      have kept := room.push_fault pushed
      have left : c.HasRoom later.flatten.length :=
        UnitBuffer.CanHold.mono (room.of_core kept) (by omega)
      simp only [accepted, pushAll, id_eq, pushed]
      exact ih left (same.trans kept.symm)

/-- Without the units that it refuses, a run from the start accepts the same units, gives the same
access units and ends in the same assembler but for the slice headers. -/
theorem replay_accepted (capacity : Nat) {units : List (List UInt8)}
    (room : (UnitBuffer.ofCapacity capacity).CanHold units.flatten.length) :
    accepted id (accepted id units (ofCapacity capacity)) (ofCapacity capacity) =
        accepted id units (ofCapacity capacity) ∧
      (pushAll (accepted id units (ofCapacity capacity)) (ofCapacity capacity)).1 =
        (pushAll units (ofCapacity capacity)).1 ∧
      (pushAll (accepted id units (ofCapacity capacity)) (ofCapacity capacity)).2.core =
        (pushAll units (ofCapacity capacity)).2.core := by
  have start : (ofCapacity capacity).HasRoom units.flatten.length := by
    unfold HasRoom
    have empty : (ofCapacity capacity).buffer.length = 0 := rfl
    rw [empty, Nat.zero_add]
    exact room
  exact replay_of_core start rfl

/-- The fourth unit is a slice that is refused when its header has already been stored. -/
theorem replay_accepted_without_slice :
    let units : List (List UInt8) :=
      [[0, 0, 0, 20, 50, 0, 128, 15, 0, 0, 0, 0, 0, 0, 0, 0, 32, 11, 8, 4, 135, 0, 3, 136],
        [0, 0, 0, 4, 52, 0, 251, 4], [0, 0, 0, 3, 4, 0, 180], [0, 0, 0, 3, 2, 192, 224],
        [0, 0, 0, 3, 2, 0, 224]]
    (UnitBuffer.ofCapacity 4).CanHold units.flatten.length ∧
      accepted id units (ofCapacity 4) = units.eraseIdx 3 ∧
      (pushAll (units.eraseIdx 3) (ofCapacity 4)).1 = (pushAll units (ofCapacity 4)).1 ∧
      (pushAll (units.eraseIdx 3) (ofCapacity 4)).2.core =
        (pushAll units (ofCapacity 4)).2.core := by
  intro units
  have room : (UnitBuffer.ofCapacity 4).CanHold units.flatten.length :=
    UnitBuffer.canHold_of_half _ (by decide)
  have taken : accepted id units (ofCapacity 4) = units.eraseIdx 3 := by decide +kernel
  have replayed := (replay_accepted 4 room).2
  rw [taken] at replayed
  exact ⟨room, taken, replayed⟩

inductive Call where
  | push (framed : List UInt8)
  | take
  deriving DecidableEq, Repr

def Call.bytes : Call → List UInt8
  | .push framed => framed
  | .take => []

def derivedCount (a : Assembler) (u : NalUnit) : Option Int :=
  match a.store.readSlice u with
  | .error _ => none
  | .ok header => (a.orderAfter u header).toOption.map PictureOrder.count

/-- A unit that was accepted, and the count that it was given as a slice. -/
structure Arrival where
  unit : NalUnit
  count : Option Int
  deriving DecidableEq, Repr

namespace Arrival

def type (x : Arrival) : NalUnitType := x.unit.header.type

def isSlice (x : Arrival) : Bool := x.type.isSlice

def ofPush (framed : List UInt8) (a : Assembler) : List Arrival :=
  match NalUnit.ofFramed framed with
  | .error _ => []
  | .ok u => [{ unit := u, count := a.derivedCount u }]

def lastSlice (arrivals : List Arrival) : Option Arrival := (arrivals.filter isSlice).getLast?

theorem lastSlice_append_slice (arrivals : List Arrival) {x : Arrival} (slice : x.isSlice = true) :
    lastSlice (arrivals ++ [x]) = some x := by
  rw [lastSlice, List.filter_append, List.filter_cons_of_pos slice]
  exact List.getLast?_concat

theorem lastSlice_append_other (arrivals : List Arrival) {x : Arrival}
    (other : x.isSlice = false) : lastSlice (arrivals ++ [x]) = lastSlice arrivals := by
  have dropped : ¬ x.isSlice = true := ne_true_of_eq_false other
  rw [lastSlice, List.filter_append, List.filter_cons_of_neg dropped, List.filter_nil,
    List.append_nil]
  rfl

end Arrival

/-- An access unit that was handed out, and the call that asked for it. -/
structure Handover where
  call : Call
  unit : AccessUnit
  past : List Arrival
  held : List Arrival
  deriving DecidableEq, Repr

structure Journal where
  assembler : Assembler
  past : List Arrival := []
  held : List Arrival := []
  deriving DecidableEq, Repr

namespace Journal

def start (capacity : Nat) : Journal := { assembler := ofCapacity capacity }

def note (j : Journal) (call : Call) (held : List Arrival) :
    Option AccessUnit × Assembler → Option Handover × Journal
  | (none, assembler) => (none, { j with assembler, held })
  | (some unit, assembler) =>
    (some { call, unit, past := j.past, held }, { assembler, past := j.past ++ held })

def answer (j : Journal) (call : Call) : Option Handover × Journal :=
  match call with
  | .take => j.note call j.held j.assembler.takeOpen
  | .push framed =>
    match push framed j.assembler with
    | .error _ assembler => (none, { j with assembler })
    | .ok unit assembler =>
      j.note call (j.held ++ Arrival.ofPush framed j.assembler) (unit, assembler)

def handovers : List Call → Journal → List Handover
  | [], _ => []
  | call :: later, j => (j.answer call).1.toList ++ handovers later (j.answer call).2

end Journal

structure MadeOf (unit : AccessUnit) (arrivals : List Arrival) : Prop where
  bytes : unit.bytes = arrivals.flatMap (·.unit.framed)
  types : unit.types = arrivals.map Arrival.type
  isKeyFrame : unit.isKeyFrame = arrivals.any (·.type = .idr)
  order : unit.order = (Arrival.lastSlice arrivals).bind Arrival.count
  framable : ∀ x ∈ arrivals, x.unit.Framable
  counted : ∀ x ∈ arrivals, x.count.isSome = x.isSlice

theorem emptied_madeOf (a : Assembler) : MadeOf a.emptied.opened [] :=
  ⟨rfl, rfl, rfl, rfl, fun _ absent => (nomatch absent), fun _ absent => (nomatch absent)⟩

variable {a b : Assembler} {u : NalUnit} {framed : List UInt8} {count : Option Int}
  {arrivals : List Arrival} {buffer : UnitBuffer}

theorem readSlice_error (other : u.header.type.isSlice = false) :
    a.store.readSlice u = .error (.unexpectedType [.nonIdr, .idr] u.header.type) := by
  have unexpected : ¬ u.header.type ∈ [NalUnitType.nonIdr, .idr] := by
    intro member
    rcases List.mem_cons.mp member with nonIdr | idr
    · exact ne_true_of_eq_false other (NalUnitType.isSlice_iff.mpr (Or.inr nonIdr))
    · exact ne_true_of_eq_false other
        (NalUnitType.isSlice_iff.mpr (Or.inl (List.mem_singleton.mp idr)))
  rw [ParameterStore.readSlice, NalUnit.requireType, if_neg unexpected]
  rfl

theorem Interpreted.count_eq (h : Interpreted u a count b) :
    count = a.derivedCount u ∧ count.isSome = u.header.type.isSlice := by
  cases h with
  | sequence type read =>
    have other : u.header.type.isSlice = false := by rw [type]; rfl
    rw [derivedCount, readSlice_error other, other]
    exact ⟨rfl, rfl⟩
  | picture type read =>
    have other : u.header.type.isSlice = false := by rw [type]; rfl
    rw [derivedCount, readSlice_error other, other]
    exact ⟨rfl, rfl⟩
  | slice type read moved =>
    rw [derivedCount, read, type]
    dsimp only
    rw [moved]
    exact ⟨rfl, rfl⟩
  | other sps pps slice =>
    rw [derivedCount, readSlice_error slice, slice]
    exact ⟨rfl, rfl⟩

theorem MadeOf.collected (made : MadeOf a.opened arrivals)
    (framing : NalUnit.ofFramed framed = .ok u) (read : Interpreted u a count b)
    (appended : b.buffer.append framed = .ok buffer) :
    MadeOf (b.collected u count buffer).opened (arrivals ++ [{ unit := u, count }]) := by
  have same : b.opened = a.opened := (interpret_open read.interpret_eq).opened_eq
  rw [← same] at made
  have slice := read.count_eq.2
  constructor
  · have bytes := UnitBuffer.append_bytes appended
    rw [List.flatMap_append, List.flatMap_singleton, (NalUnit.ofFramed_ok framing).2]
    exact bytes.trans (congrArg (· ++ framed) made.bytes)
  · rw [List.map_append]
    exact congrArg (· ++ [u.header.type]) made.types
  · rw [List.any_append, List.any_cons, List.any_nil, Bool.or_false]
    exact congrArg (· || decide (u.header.type = .idr)) made.isKeyFrame
  · cases count with
    | none =>
      have other : Arrival.isSlice { unit := u, count := none } = false := slice.symm
      rw [Arrival.lastSlice_append_other arrivals other]
      exact made.order
    | some count =>
      have last : Arrival.isSlice { unit := u, count := some count } = true := slice.symm
      rw [Arrival.lastSlice_append_slice arrivals last]
      rfl
  · rw [List.forall_mem_append]
    exact ⟨made.framable, List.forall_mem_singleton.mpr (NalUnit.ofFramed_framable framing)⟩
  · rw [List.forall_mem_append]
    exact ⟨made.counted, List.forall_mem_singleton.mpr slice⟩

theorem isSlice_of_endsAccessUnit {profile : Profile} {type : NalUnitType} {order : PictureOrder}
    (ends : endsAccessUnit profile type order = true) : type.isSlice = true := by
  cases type with
  | idr => rfl
  | nonIdr => rfl
  | _ => cases profile <;> cases ends

theorem endsAccessUnit_baseline (type : NalUnitType) (order : PictureOrder) :
    endsAccessUnit .baseline type order = type.isSlice := by
  cases type <;> rfl

theorem endsAccessUnit_idr (profile : Profile) (order : PictureOrder) :
    endsAccessUnit profile .idr order = true := by
  cases profile <;> rfl

def AllBaseline (arrivals : List Arrival) : Prop :=
  ∀ x ∈ arrivals, ∀ sps, ParameterStore.readSequence x.unit = .ok sps → sps.profile = .baseline

theorem Interpreted.profile_baseline (h : Interpreted u a count b)
    (unit : ∀ sps, ParameterStore.readSequence u = .ok sps → sps.profile = .baseline)
    (before : a.profile = .baseline) : b.profile = .baseline := by
  cases h with
  | sequence type read => exact unit _ read
  | picture type read => exact before
  | slice type read moved => exact before
  | other sps pps slice => exact before

end EvcStream.Assembler
