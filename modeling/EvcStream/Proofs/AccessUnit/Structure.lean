import EvcStream.Proofs.AccessUnit.Journal
/-!
# The structure of access units

An access unit that is handed out is made of the units accepted since the one before, in their
order. It is closed by a slice, or taken while it is open. An IDR slice always closes, and in the
baseline profile every slice does.
-/
namespace EvcStream.Assembler

/-- What holds between calls, with so many bytes still to come: the open access unit is made of
what the journal says. It has no IDR slice, and no slice at all unless there has been a sequence
parameter set of the main profile. -/
structure Journal.Coherent (more : Nat) (j : Journal) : Prop where
  made : MadeOf j.assembler.opened j.held
  noIdr : ∀ x ∈ j.held, x.type ≠ .idr
  room : j.assembler.HasRoom more
  baseline : AllBaseline (j.past ++ j.held) →
    j.assembler.profile = .baseline ∧ ∀ x ∈ j.held, x.isSlice = false

structure Handover.Closed (h : Handover) (before : List Arrival) (last : Arrival) : Prop where
  held : h.held = before ++ [last]
  slice : last.isSlice = true
  noIdr : ∀ x ∈ before, x.type ≠ .idr
  baseline : AllBaseline (h.past ++ h.held) → ∀ x ∈ before, x.isSlice = false

structure Handover.LeftOpen (h : Handover) : Prop where
  noIdr : ∀ x ∈ h.held, x.type ≠ .idr
  baseline : AllBaseline (h.past ++ h.held) → ∀ x ∈ h.held, x.isSlice = false

/-- The access unit is made of what the journal says, and ended by the call that it answers. -/
structure Handover.Proper (h : Handover) : Prop where
  made : MadeOf h.unit h.held
  ended : match h.call with
    | .push _ => ∃ before last, h.Closed before last
    | .take => h.LeftOpen

variable {a b : Assembler} {j : Journal} {call : Call} {framed : List UInt8} {more : Nat}

theorem closed_of_ends {type : NalUnitType} (ends : endsAccessUnit a.profile type a.order = true) :
    a.closed type = a.takeOpen := if_pos ends

theorem closed_of_not_ends {type : NalUnitType}
    (ends : ¬ endsAccessUnit a.profile type a.order = true) : a.closed type = (none, a) :=
  if_neg ends

theorem HasRoom.emptied (room : a.HasRoom more) : a.emptied.HasRoom more := by
  have fewer : a.emptied.buffer.length + more ≤ a.buffer.length + more :=
    Nat.add_le_add_right (Nat.zero_le _) more
  exact (UnitBuffer.CanHold.of_capacity room rfl).mono fewer

theorem AllBaseline.of_append {arrivals later : List Arrival}
    (all : AllBaseline (arrivals ++ later)) : AllBaseline arrivals :=
  fun x member => all x (List.mem_append_left later member)

theorem AllBaseline.of_concat {past held : List Arrival} {x : Arrival}
    (all : AllBaseline (past ++ (held ++ [x]))) : AllBaseline (past ++ held) := by
  rw [← List.append_assoc] at all
  exact all.of_append

namespace Journal.Coherent

theorem take (h : j.Coherent more) :
    (j.answer .take).2.Coherent more ∧ ∀ out ∈ (j.answer .take).1, out.Proper := by
  by_cases empty : j.assembler.buffer.bytes = []
  · rw [answer, takeOpen_of_empty empty]
    exact ⟨h, fun _ absent => (nomatch absent)⟩
  · rw [answer, takeOpen_of_nonempty empty, note]
    dsimp only
    constructor
    · refine ⟨emptied_madeOf j.assembler, fun _ absent => (nomatch absent), h.room.emptied, ?_⟩
      intro all
      rw [List.append_nil] at all
      exact ⟨(h.baseline all).1, fun _ absent => (nomatch absent)⟩
    · intro out same
      cases same
      exact ⟨h.made, ⟨h.noIdr, fun all => (h.baseline all).2⟩⟩

theorem refused (h : j.Coherent (framed.length + more)) {fault : Fault}
    (pushed : push framed j.assembler = .error fault b) :
    Coherent more { j with assembler := b } := by
  have same : b.core = j.assembler.core := h.room.push_fault pushed
  have profile : b.profile = j.assembler.profile := congrArg (·.profile) same
  refine ⟨?_, h.noIdr, ?_, ?_⟩
  · rw [(SameOpen.of_core same).opened_eq]
    exact h.made
  · exact (h.room.of_core same).mono (Nat.le_add_left more _)
  · intro all
    rw [profile]
    exact h.baseline all

section

variable {x : Arrival} {total : Nat} (h : j.Coherent total)
  (made : MadeOf a.opened (j.held ++ [x]))
  (profile : AllBaseline (j.past ++ (j.held ++ [x])) → a.profile = .baseline)
include h made profile

theorem closing (slice : x.isSlice = true) (room : a.emptied.HasRoom more) :
    Coherent more { assembler := a.emptied, past := j.past ++ (j.held ++ [x]) } ∧
      Handover.Proper { call := .push framed, unit := a.opened, past := j.past,
                        held := j.held ++ [x] } := by
  constructor
  · refine ⟨emptied_madeOf a, fun _ absent => (nomatch absent), room, ?_⟩
    intro all
    rw [List.append_nil] at all
    exact ⟨profile all, fun _ absent => (nomatch absent)⟩
  · refine ⟨made, j.held, x, rfl, slice, h.noIdr, ?_⟩
    exact fun all => (h.baseline all.of_concat).2

theorem staying (stays : ¬ endsAccessUnit a.profile x.type a.order = true)
    (room : a.HasRoom more) :
    Coherent more { assembler := a, past := j.past, held := j.held ++ [x] } := by
  refine ⟨made, ?_, room, ?_⟩
  · rw [List.forall_mem_append]
    refine ⟨h.noIdr, List.forall_mem_singleton.mpr ?_⟩
    intro idr
    rw [idr, endsAccessUnit_idr] at stays
    exact stays rfl
  · intro all
    have baseline := profile all
    rw [baseline, endsAccessUnit_baseline] at stays
    refine ⟨baseline, ?_⟩
    rw [List.forall_mem_append]
    exact ⟨(h.baseline all.of_concat).2, List.forall_mem_singleton.mpr (eq_false_of_ne_true stays)⟩

end

theorem accepted (h : j.Coherent (framed.length + more)) {unit : Option AccessUnit}
    (pushed : push framed j.assembler = .ok unit b) :
    (j.answer (.push framed)).2.Coherent more ∧
      ∀ out ∈ (j.answer (.push framed)).1, out.Proper := by
  have room : b.HasRoom more := h.room.push pushed
  obtain ⟨u, count, c, buffer, framing, read, appended, result⟩ := push_ok pushed
  have read := interpret_ok read
  have made := h.made.collected framing read appended
  have nonempty : (c.collected u count buffer).buffer.bytes ≠ [] := by
    rw [collected, UnitBuffer.append_bytes appended]
    exact List.append_ne_nil_of_right_ne_nil _ (NalUnit.ofFramed_nonempty framing)
  have arrival : Arrival.ofPush framed j.assembler = [{ unit := u, count }] := by
    rw [Arrival.ofPush, framing, read.count_eq.1]
  have profile : AllBaseline (j.past ++ (j.held ++ [{ unit := u, count }])) →
      (c.collected u count buffer).profile = .baseline := by
    intro all
    have last : { unit := u, count } ∈ j.past ++ (j.held ++ [{ unit := u, count }]) :=
      List.mem_append_right _ (List.mem_concat_self ..)
    exact read.profile_baseline (all _ last) (h.baseline all.of_concat).1
  rw [answer, pushed, arrival]
  by_cases ends : endsAccessUnit (c.collected u count buffer).profile u.header.type
      (c.collected u count buffer).order = true
  · rw [closed_of_ends ends, takeOpen_of_nonempty nonempty] at result
    cases result
    obtain ⟨next, proper⟩ := h.closing made profile (isSlice_of_endsAccessUnit ends) room
    refine ⟨next, ?_⟩
    intro out same
    cases same
    exact proper
  · rw [closed_of_not_ends ends] at result
    cases result
    exact ⟨h.staying made profile ends room, fun _ absent => (nomatch absent)⟩

theorem answer (h : j.Coherent (call.bytes.length + more)) :
    (j.answer call).2.Coherent more ∧ ∀ out ∈ (j.answer call).1, out.Proper := by
  cases call with
  | take =>
    refine take ?_
    rwa [Call.bytes, List.length_nil, Nat.zero_add] at h
  | push framed =>
    cases pushed : push framed j.assembler with
    | ok unit b => exact h.accepted pushed
    | error fault b =>
      rw [Journal.answer, pushed]
      exact ⟨h.refused pushed, fun _ absent => (nomatch absent)⟩

theorem handovers {calls : List Call} (h : j.Coherent (calls.flatMap Call.bytes).length) :
    ∀ out ∈ j.handovers calls, out.Proper := by
  induction calls generalizing j with
  | nil => exact fun _ absent => (nomatch absent)
  | cons call later ih =>
    rw [List.flatMap_cons, List.length_append] at h
    obtain ⟨next, proper⟩ := h.answer
    intro out member
    rcases List.mem_append.mp member with here | behind
    · exact proper out (Option.mem_toList.mp here)
    · exact ih next out behind

end Journal.Coherent

theorem Journal.start_coherent {capacity : Nat}
    (room : (UnitBuffer.ofCapacity capacity).CanHold more) : (start capacity).Coherent more := by
  refine ⟨emptied_madeOf (ofCapacity capacity), fun _ absent => (nomatch absent), ?_,
    fun _ => ⟨rfl, fun _ absent => (nomatch absent)⟩⟩
  have empty : (ofCapacity capacity).buffer.length + more = more := Nat.zero_add more
  rw [start, HasRoom, empty]
  exact room

namespace MadeOf

variable {unit : AccessUnit} {arrivals : List Arrival}

theorem walk (made : MadeOf unit arrivals) :
    (NalWalk.of unit.bytes).stop = unit.bytes.length ∧
      (NalWalk.of unit.bytes).units.map NalUnit.framed = arrivals.map (·.unit.framed) ∧
      (NalWalk.of unit.bytes).units.map (·.header.type) = unit.types := by
  have bytes : unit.bytes = (arrivals.map Arrival.unit).flatMap NalUnit.framed := by
    rw [made.bytes, List.flatMap_map]
  have framable : ∀ u ∈ arrivals.map Arrival.unit, u.Framable := by
    rw [List.forall_mem_map]
    exact made.framable
  rw [made.types, bytes, NalWalk.map_of_framed framable fun _ => rfl,
    NalWalk.map_of_framed framable fun _ => rfl, List.map_map, List.map_map]
  exact ⟨NalWalk.stop_of_framed framable, rfl, rfl⟩

theorem isKeyFrame_iff (made : MadeOf unit arrivals) :
    unit.isKeyFrame = true ↔ .idr ∈ unit.types := by
  rw [made.isKeyFrame, made.types, List.any_eq_true, List.mem_map]
  simp only [decide_eq_true_eq]

theorem order_eq_none_iff (made : MadeOf unit arrivals) :
    unit.order = none ↔ ∀ type ∈ unit.types, type.isSlice = false := by
  have none_iff : Arrival.lastSlice arrivals = none ↔ ∀ x ∈ arrivals, x.isSlice = false := by
    rw [Arrival.lastSlice, List.getLast?_eq_none_iff, List.filter_eq_nil_iff]
    simp only [Bool.not_eq_true]
  rw [made.order, made.types, List.forall_mem_map]
  change _ ↔ ∀ x ∈ arrivals, x.isSlice = false
  rw [← none_iff]
  cases last : Arrival.lastSlice arrivals with
  | none => exact iff_of_true rfl rfl
  | some x =>
    obtain ⟨member, slice⟩ := List.mem_filter.mp (List.mem_of_getLast? last)
    have counted : x.count.isSome = true := (made.counted x member).trans slice
    refine iff_of_false ?_ (Option.some_ne_none x)
    intro missing
    change x.count = none at missing
    rw [missing] at counted
    cases counted

end MadeOf

namespace Handover

variable {h : Handover} {before : List Arrival} {last : Arrival}

/-- What the call that hands out an access unit says about its units. -/
def EndsFor (h : Handover) : Prop :=
  match h.call with
  | .push _ => ∃ type ∈ h.unit.types.getLast?, type.isSlice = true
  | .take => .idr ∉ h.unit.types ∧ h.unit.isKeyFrame = false

/-- What it says about the slices as long as every sequence is of the baseline profile. -/
def BaselineFor (h : Handover) : Prop :=
  match h.call with
  | .push _ => h.unit.types.countP NalUnitType.isSlice = 1
  | .take => h.unit.types.countP NalUnitType.isSlice = 0 ∧ h.unit.order = none

theorem Closed.types_eq (closed : h.Closed before last) (made : MadeOf h.unit h.held) :
    h.unit.types = before.map Arrival.type ++ [last.type] := by
  rw [made.types, closed.held, List.map_append, List.map_singleton]

theorem Closed.noIdr_types (closed : h.Closed before last) (made : MadeOf h.unit h.held) :
    .idr ∉ h.unit.types.dropLast := by
  rw [closed.types_eq made, List.dropLast_concat, List.mem_map]
  rintro ⟨x, member, idr⟩
  exact closed.noIdr x member idr

theorem LeftOpen.noIdr_types (leftOpen : h.LeftOpen) (made : MadeOf h.unit h.held) :
    .idr ∉ h.unit.types := by
  rw [made.types, List.mem_map]
  rintro ⟨x, member, idr⟩
  exact leftOpen.noIdr x member idr

theorem countP_types_eq_zero {arrivals : List Arrival} (none : ∀ x ∈ arrivals, x.isSlice = false) :
    (arrivals.map Arrival.type).countP NalUnitType.isSlice = 0 := by
  rw [List.countP_map, List.countP_eq_zero]
  intro x member
  exact ne_true_of_eq_false (none x member)

namespace Proper

theorem noIdr_dropLast (proper : h.Proper) : .idr ∉ h.unit.types.dropLast := by
  have ended := proper.ended
  cases call : h.call with
  | push framed =>
    rw [call] at ended
    obtain ⟨before, last, closed⟩ := ended
    exact closed.noIdr_types proper.made
  | take =>
    rw [call] at ended
    intro member
    exact ended.noIdr_types proper.made (List.dropLast_subset _ member)

theorem endsFor (proper : h.Proper) : h.EndsFor := by
  have ended := proper.ended
  rw [EndsFor]
  cases call : h.call with
  | push framed =>
    rw [call] at ended
    obtain ⟨before, last, closed⟩ := ended
    refine ⟨last.type, ?_, closed.slice⟩
    rw [closed.types_eq proper.made, List.getLast?_concat]
    rfl
  | take =>
    rw [call] at ended
    have noIdr := ended.noIdr_types proper.made
    exact ⟨noIdr, eq_false_of_ne_true (mt proper.made.isKeyFrame_iff.mp noIdr)⟩

theorem baselineFor (proper : h.Proper) (all : AllBaseline (h.past ++ h.held)) :
    h.BaselineFor := by
  have ended := proper.ended
  rw [BaselineFor]
  cases call : h.call with
  | push framed =>
    rw [call] at ended
    obtain ⟨before, last, closed⟩ := ended
    have slice : last.type.isSlice = true := closed.slice
    dsimp only
    rw [closed.types_eq proper.made, List.countP_append, countP_types_eq_zero (closed.baseline all),
      List.countP_cons_of_pos slice, List.countP_nil]
  | take =>
    rw [call] at ended
    have none := countP_types_eq_zero (ended.baseline all)
    rw [← proper.made.types] at none
    refine ⟨none, proper.made.order_eq_none_iff.mpr ?_⟩
    intro type member
    exact eq_false_of_ne_true (List.countP_eq_zero.mp none type member)

end Proper

end Handover

/-- Every access unit that is handed out, by taking in units and by taking what is open, from a
fresh start, consists of whole units, and has the types, the key frame flag and the order that its
units have. -/
theorem access_unit_structure {capacity : Nat} {calls : List Call} {h : Handover}
    (room : (UnitBuffer.ofCapacity capacity).CanHold (calls.flatMap Call.bytes).length)
    (returned : h ∈ (Journal.start capacity).handovers calls) :
    ((NalWalk.of h.unit.bytes).stop = h.unit.bytes.length ∧
      (NalWalk.of h.unit.bytes).units.map NalUnit.framed = h.held.map (·.unit.framed) ∧
      (NalWalk.of h.unit.bytes).units.map (·.header.type) = h.unit.types) ∧
    (h.unit.isKeyFrame = true ↔ .idr ∈ h.unit.types) ∧
    .idr ∉ h.unit.types.dropLast ∧
    h.unit.order = (Arrival.lastSlice h.held).bind Arrival.count ∧
    (h.unit.order = none ↔ ∀ type ∈ h.unit.types, type.isSlice = false) ∧
    h.EndsFor ∧
    (AllBaseline (h.past ++ h.held) → h.BaselineFor) := by
  have proper : h.Proper := (Journal.start_coherent room).handovers h returned
  exact ⟨proper.made.walk, proper.made.isKeyFrame_iff, proper.noIdr_dropLast, proper.made.order,
    proper.made.order_eq_none_iff, proper.endsFor, proper.baselineFor⟩

/-- A message and the slice of a second picture, and the next message is left open. -/
theorem access_unit_structure_second_picture :
    let unit (type : NalUnitType) (bytes : List UInt8) : NalUnit :=
      { header := { type, temporalId := 0, reserved := 0, extension := false }, bytes }
    let calls : List Call :=
      [.push [0, 0, 0, 20, 50, 0, 128, 15, 0, 0, 0, 0, 0, 0, 0, 0, 32, 11, 8, 4, 135, 0, 3, 136],
        .push [0, 0, 0, 4, 52, 0, 251, 4], .push [0, 0, 0, 3, 4, 0, 180],
        .push [0, 0, 0, 2, 58, 0], .push [0, 0, 0, 3, 2, 192, 224], .push [0, 0, 0, 3, 2, 0, 224],
        .push [0, 0, 0, 2, 58, 0], .take]
    let h : Handover :=
      { call := .push [0, 0, 0, 3, 2, 0, 224]
        unit :=
          { bytes := [0, 0, 0, 2, 58, 0, 0, 0, 0, 3, 2, 0, 224], order := some 4,
            isKeyFrame := false, types := [.sei, .nonIdr] }
        past :=
          [⟨unit .sps [50, 0, 128, 15, 0, 0, 0, 0, 0, 0, 0, 0, 32, 11, 8, 4, 135, 0, 3, 136], none⟩,
            ⟨unit .pps [52, 0, 251, 4], none⟩, ⟨unit .idr [4, 0, 180], some 0⟩]
        held := [⟨unit .sei [58, 0], none⟩, ⟨unit .nonIdr [2, 0, 224], some 4⟩] }
    (UnitBuffer.ofCapacity 4).CanHold (calls.flatMap Call.bytes).length ∧
      h ∈ (Journal.start 4).handovers calls ∧ AllBaseline (h.past ++ h.held) ∧
      (NalWalk.of h.unit.bytes).units.map (·.header.type) = [.sei, .nonIdr] ∧
      h.unit.order = (Arrival.lastSlice h.held).bind Arrival.count ∧ h.BaselineFor := by
  intro unit calls h
  have room : (UnitBuffer.ofCapacity 4).CanHold (calls.flatMap Call.bytes).length :=
    UnitBuffer.canHold_of_half _ (by decide)
  have returned : h ∈ (Journal.start 4).handovers calls := by decide +kernel
  have all : AllBaseline (h.past ++ h.held) := by
    have profiles : ∀ x ∈ h.past ++ h.held, (ParameterStore.readSequence x.unit).toOption.all
        (·.profile = .baseline) = true := by decide +kernel
    intro x member sps read
    have profile := profiles x member
    rw [read] at profile
    exact of_decide_eq_true profile
  obtain ⟨⟨-, -, types⟩, -, -, order, -, -, baseline⟩ := access_unit_structure room returned
  exact ⟨room, returned, all, types, order, baseline all⟩

end EvcStream.Assembler
