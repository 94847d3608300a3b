import EvcStream.Proofs.AccessUnit.Structure
import EvcStream.Proofs.Stream.Sessions
/-!
# The sequence parameter set in force

A chronicle keeps what a splitter has taken in since it was new, or since it last started over.
Whatever was refused or came in between, the last sequence parameter set of the chronicle is the
one that the assembler goes by, and the one that the splitter sums up.
-/
namespace EvcStream

def lastSequenceUnit (taken : List (List UInt8)) : Option NalUnit :=
  ((taken.filterMap fun framed => (NalUnit.ofFramed framed).toOption).filter
    (·.header.type = .sps)).getLast?

theorem lastSequenceUnit_concat (taken : List (List UInt8)) {framed : List UInt8} {u : NalUnit}
    (framing : NalUnit.ofFramed framed = .ok u) :
    lastSequenceUnit (taken ++ [framed]) =
      if u.header.type = .sps then some u else lastSequenceUnit taken := by
  unfold lastSequenceUnit
  by_cases type : u.header.type = .sps
  · simp [framing, Except.toOption, type]
  · simp [framing, Except.toOption, type]

namespace Assembler

variable {a b : Assembler} {taken : List (List UInt8)} {framed : List UInt8} {u : NalUnit}

/-- The assembler goes by the last sequence parameter set of these units. -/
structure Follows (a : Assembler) (taken : List (List UInt8)) : Prop where
  lastSps : a.lastSps.map Except.ok = (lastSequenceUnit taken).map ParameterStore.readSequence
  profile : a.profile = (a.lastSps.map SequenceParameterSet.profile).getD .baseline

theorem Follows.start (capacity : Nat) : (ofCapacity capacity).Follows [] := ⟨rfl, rfl⟩

theorem Follows.of_same (h : a.Follows taken) (lastSps : b.lastSps = a.lastSps)
    (profile : b.profile = a.profile) : b.Follows taken := by
  refine ⟨?_, ?_⟩
  · rw [lastSps]
    exact h.lastSps
  · rw [profile, lastSps]
    exact h.profile

theorem lastSps_of_core (same : b.core = a.core) :
    b.lastSps = a.lastSps ∧ b.profile = a.profile := by
  have sequences : b.store.sequences = a.store.sequences := congrArg (·.store.sequences) same
  have lastSpsId : b.lastSpsId = a.lastSpsId := congrArg (·.lastSpsId) same
  refine ⟨?_, congrArg (·.profile) same⟩
  rw [lastSps, lastSps, sequences, lastSpsId]

theorem keepSequence_lastSps (a : Assembler) (sps : SequenceParameterSet) :
    (a.keepSequence sps).lastSps = some sps := by
  change (a.store.sequences.insert sps.format.id sps).find? sps.format.id = some sps
  rw [IdTable.find?_insert, if_pos rfl]

/-- A unit is a sequence parameter set and takes over, or leaves the last one in force. -/
inductive Governs (u : NalUnit) (a b : Assembler) : Prop
  | sequence {sps : SequenceParameterSet} (type : u.header.type = .sps)
      (read : ParameterStore.readSequence u = .ok sps) (lastSps : b.lastSps = some sps)
      (profile : b.profile = sps.profile)
  | other (type : u.header.type ≠ .sps) (lastSps : b.lastSps = a.lastSps)
      (profile : b.profile = a.profile)

theorem Interpreted.governs {count : Option Int} (read : Interpreted u a count b) :
    Governs u a b := by
  cases read with
  | @sequence sps type found => exact .sequence type found (keepSequence_lastSps a sps) rfl
  | picture type found =>
    refine .other ?_ rfl rfl
    rw [type]
    decide
  | slice type found moved => exact .other (NalUnitType.ne_of_isSlice type rfl) rfl rfl
  | other noSps noPps slice => exact .other noSps rfl rfl

theorem Governs.of_same {c : Assembler} (h : Governs u a b) (lastSps : c.lastSps = b.lastSps)
    (profile : c.profile = b.profile) : Governs u a c := by
  cases h with
  | sequence type read last same =>
    exact .sequence type read (lastSps.trans last) (profile.trans same)
  | other type last same => exact .other type (lastSps.trans last) (profile.trans same)

theorem HasRoom.takeOpen {more : Nat} (room : a.HasRoom more) : a.takeOpen.2.HasRoom more := by
  by_cases empty : a.buffer.bytes = []
  · rw [takeOpen_of_empty empty]
    exact room
  · rw [takeOpen_of_nonempty empty]
    exact room.emptied

theorem push_governs {unit : Option AccessUnit} (pushed : push framed a = .ok unit b) :
    ∃ u, NalUnit.ofFramed framed = .ok u ∧ Governs u a b := by
  obtain ⟨u, count, c, framing, read, store, profile, lastSpsId⟩ := push_interpreted pushed
  have same : b.lastSps = c.lastSps := by rw [lastSps, lastSps, store, lastSpsId]
  exact ⟨u, framing, read.governs.of_same same profile⟩

theorem Follows.push {unit : Option AccessUnit} (h : a.Follows taken)
    (pushed : push framed a = .ok unit b) : b.Follows (taken ++ [framed]) := by
  obtain ⟨u, framing, governs⟩ := push_governs pushed
  cases governs with
  | sequence type read lastSps profile =>
    refine ⟨?_, ?_⟩
    · rw [lastSequenceUnit_concat taken framing, if_pos type, lastSps, Option.map_some,
        Option.map_some, read]
    · rw [profile, lastSps]
      rfl
  | other type lastSps profile =>
    have kept : b.Follows taken := h.of_same lastSps profile
    refine ⟨?_, kept.profile⟩
    rw [lastSequenceUnit_concat taken framing, if_neg type]
    exact kept.lastSps

end Assembler

namespace Splitter

open Assembler (push pushAll accepted)
open Machine.Splitter (Call Call.size answer answerAll)

/-- A splitter, and the units that it has taken in since it was new or started over. -/
structure Chronicle where
  splitter : Splitter
  taken : List (List UInt8) := []
  deriving DecidableEq, Repr

namespace Chronicle

def note (c : Chronicle) (call : Call) : Chronicle where
  splitter := (answer c.splitter call).2
  taken :=
    match call with
    | .feed chunk =>
      c.taken ++ accepted id (unitsOf (c.splitter.worked chunk)) c.splitter.assembler
    | .flush => c.taken
    | .reset => []

def ofCalls (config : SplitterConfig) (calls : List Call) : Chronicle :=
  calls.foldl note { splitter := new config }

theorem foldl_splitter (calls : List Call) (c : Chronicle) :
    (calls.foldl note c).splitter = (answerAll calls c.splitter).2 := by
  induction calls generalizing c with
  | nil => rfl
  | cons call calls ih => exact ih (c.note call)

theorem ofCalls_splitter (config : SplitterConfig) (calls : List Call) :
    (ofCalls config calls).splitter = after config calls :=
  foldl_splitter calls _

end Chronicle

/-- The splitter says what the assembler goes by, the last sequence parameter set of the units. -/
structure Announces (s : Splitter) (taken : List (List UInt8)) : Prop where
  follows : s.assembler.Follows taken
  summary : s.summary = s.assembler.lastSps.map StreamSummary.ofSps

variable {s t : Splitter} {taken : List (List UInt8)} {framed : List UInt8} {more : Nat}
  {c : Chronicle} {config : SplitterConfig}

theorem Announces.of_same (h : s.Announces taken)
    (lastSps : t.assembler.lastSps = s.assembler.lastSps)
    (profile : t.assembler.profile = s.assembler.profile) (summary : t.summary = s.summary) :
    t.Announces taken := by
  refine ⟨h.follows.of_same lastSps profile, ?_⟩
  rw [summary, lastSps]
  exact h.summary

theorem announces_keeping_iff {given : List AccessUnit} :
    (s.keeping given).Announces taken ↔ s.Announces taken :=
  ⟨fun h => h.of_same rfl rfl rfl, fun h => h.of_same rfl rfl rfl⟩

theorem Announces.accept (h : s.Announces taken) (accepting : s.accept framed = .ok () t) :
    t.Announces (taken ++ [framed]) := by
  obtain ⟨u, unit, framing, pushed, summary⟩ := accept_ok accepting
  refine ⟨h.follows.push pushed, ?_⟩
  obtain ⟨v, again, governs⟩ := Assembler.push_governs pushed
  rw [framing] at again
  cases again
  cases governs with
  | sequence type => rw [summary, if_pos type]
  | other type lastSps =>
    rw [summary, if_neg type, lastSps]
    exact h.summary

/-- Each unit that is worked through is taken in, or leaves what is in force alone. -/
theorem Announces.work {parts : List Part} (h : s.Announces taken)
    (room : s.assembler.HasRoom ((unitsOf parts).flatten.length + more)) :
    (work parts s).2.Announces (taken ++ accepted id (unitsOf parts) s.assembler) ∧
      (work parts s).2.assembler.HasRoom more := by
  induction parts generalizing s taken with
  | nil =>
    rw [unitsOf, List.filterMap_nil, accepted, List.append_nil]
    exact ⟨h, room.mono (Nat.le_add_left more _)⟩
  | cons part later ih =>
    cases part with
    | badLength bytes fault => exact ih h room
    | unit framed =>
      have units : unitsOf (.unit framed :: later) = framed :: unitsOf later := rfl
      rw [units, List.flatten_cons, List.length_append, Nat.add_assoc] at room
      rw [units, accepted, id_eq, Splitter.work, handle]
      cases pushed : push framed s.assembler with
      | ok unit b =>
        obtain ⟨summary, accepting⟩ := accept_of_push pushed
        simp only [accepting]
        rw [List.append_cons]
        exact ih (h.accept accepting) (room.push pushed)
      | error fault b =>
        obtain ⟨found, refused⟩ := accept_of_push_fault pushed
        have same := room.push_fault pushed
        obtain ⟨lastSps, profile⟩ := Assembler.lastSps_of_core same
        have kept : Announces { s with assembler := b } taken := h.of_same lastSps profile rfl
        simp only [refused]
        exact ih kept ((room.of_core same).mono (Nat.le_add_left _ _))

theorem unitsOf_length (parts : List Part) :
    (unitsOf parts).flatten.length ≤ (parts.flatMap Part.bytes).length := by
  induction parts with
  | nil => exact Nat.le_refl 0
  | cons part later ih =>
    rw [List.flatMap_cons, List.length_append]
    cases part with
    | badLength bytes fault => exact ih.trans (Nat.le_add_left _ _)
    | unit framed =>
      have units : unitsOf (.unit framed :: later) = framed :: unitsOf later := rfl
      rw [units, List.flatten_cons, List.length_append]
      exact Nat.add_le_add_left ih _

structure Chronicle.Coherent (config : SplitterConfig) (more : Nat) (c : Chronicle) : Prop where
  announces : c.splitter.Announces c.taken
  room : c.splitter.assembler.HasRoom (c.splitter.pending.length + more)
  config_eq : c.splitter.config = config

namespace Chronicle.Coherent

theorem start (room : (UnitBuffer.ofCapacity config.initialCapacity).CanHold more) :
    Coherent config more { splitter := new config } := by
  refine ⟨⟨.start _, rfl⟩, ?_, rfl⟩
  have empty : (new config).assembler.buffer.length + ((new config).pending.length + more) =
      more := (Nat.zero_add _).trans (Nat.zero_add more)
  rw [Assembler.HasRoom, empty]
  exact room

theorem feed {chunk : List UInt8} (h : c.Coherent config (chunk.length + more)) :
    (c.note (.feed chunk)).Coherent config more := by
  have bytes := congrArg List.length (worked_bytes chunk c.splitter)
  have units := unitsOf_length (c.splitter.worked chunk)
  rw [List.length_append, List.length_append] at bytes
  have fits : (unitsOf (c.splitter.worked chunk)).flatten.length +
      ((c.splitter.attempt chunk).after.pending.length + more) ≤
        c.splitter.pending.length + (chunk.length + more) := by
    omega
  obtain ⟨announces, room⟩ := (announces_keeping_iff.mpr h.announces).work (h.room.mono fits)
  rw [work_worked] at announces room
  rw [note, answer_feed]
  exact ⟨announces_keeping_iff.mp announces, room,
    (attempt_config chunk c.splitter).trans h.config_eq⟩

theorem flush (h : c.Coherent config more) : (c.note .flush).Coherent config more := by
  have rest := c.splitter.assembler.takeOpen_frame
  have room : c.splitter.assembler.takeOpen.2.HasRoom (0 + more) :=
    h.room.takeOpen.mono (Nat.add_le_add_right (Nat.zero_le _) more)
  exact ⟨h.announces.of_same rest.lastSps_eq rest.profile rfl, room, h.config_eq⟩

theorem reset (h : c.Coherent config more)
    (room : (UnitBuffer.ofCapacity config.initialCapacity).CanHold more) :
    (c.note .reset).Coherent config more := by
  have fresh : c.note .reset = { splitter := new config } := by
    rw [note, ← h.config_eq]
    rfl
  rw [fresh]
  exact start room

theorem run {calls : List Call} {total : Nat} (h : c.Coherent config (calls.map Call.size).sum)
    (room : (UnitBuffer.ofCapacity config.initialCapacity).CanHold total)
    (le : (calls.map Call.size).sum ≤ total) : (calls.foldl note c).Coherent config 0 := by
  induction calls generalizing c with
  | nil => exact h
  | cons call calls ih =>
    rw [List.map_cons, List.sum_cons] at h le
    have left : (calls.map Call.size).sum ≤ total := by omega
    refine ih ?_ left
    cases call with
    | feed chunk => exact h.feed
    | flush =>
      rw [Call.size, Nat.zero_add] at h
      exact h.flush
    | reset =>
      rw [Call.size, Nat.zero_add] at h
      exact h.reset (room.mono left)

end Chronicle.Coherent

/-- After any calls, the splitter sums up what the assembler has as the last sequence parameter set,
this is the last one among the units taken in since the stream began, and the profile is its
profile. Without one there is no summary, and the profile is the baseline one. -/
theorem summary_of_last_sequence {calls : List Call}
    (room : (UnitBuffer.ofCapacity config.initialCapacity).CanHold (calls.map Call.size).sum) :
    let s := after config calls
    let taken := (Chronicle.ofCalls config calls).taken
    s.summary = s.assembler.lastSps.map StreamSummary.ofSps ∧
      s.assembler.lastSps.map Except.ok =
        (lastSequenceUnit taken).map ParameterStore.readSequence ∧
      s.assembler.profile =
        (s.assembler.lastSps.map SequenceParameterSet.profile).getD .baseline := by
  intro s taken
  have kept := (Chronicle.Coherent.start room).run room (Nat.le_refl _)
  have same : (Chronicle.ofCalls config calls).splitter = s :=
    Chronicle.ofCalls_splitter config calls
  obtain ⟨follows, summary⟩ := kept.announces
  rw [Chronicle.ofCalls] at same
  rw [same] at follows summary
  exact ⟨summary, follows.lastSps, follows.profile⟩

/-- A stream that is forgotten, a sequence parameter set, another one with its id in two chunks, one
that is refused, and the end of the stream: the one in two chunks is in force. -/
theorem summary_of_last_sequence_redefined :
    let replaced : List UInt8 := [0, 0, 0, 20, 50, 0, 128, 15, 0, 0, 0, 0, 0, 0, 0, 0, 32, 11, 8,
      4, 135, 0, 3, 136]
    let inForce : List UInt8 := [0, 0, 0, 19, 50, 0, 128, 0, 0, 0, 0, 0, 0, 0, 0, 0, 32, 32, 129,
      7, 0, 7, 16]
    let refused : List UInt8 := [0, 0, 0, 6, 50, 0, 128, 0, 0, 0]
    let config : SplitterConfig := { initialCapacity := 4 }
    let calls : List Call := [.feed inForce, .reset, .feed (replaced ++ inForce.take 9),
      .feed (inForce.drop 9 ++ refused), .flush]
    let s := after config calls
    let taken := (Chronicle.ofCalls config calls).taken
    (UnitBuffer.ofCapacity 4).CanHold (calls.map Call.size).sum ∧ taken = [replaced, inForce] ∧
      s.assembler.lastSps.map Except.ok =
        (NalUnit.ofFramed inForce).toOption.map ParameterStore.readSequence ∧
      s.summary = s.assembler.lastSps.map StreamSummary.ofSps ∧ s.summary.isSome := by
  intro replaced inForce refused config calls s taken
  have room : (UnitBuffer.ofCapacity config.initialCapacity).CanHold (calls.map Call.size).sum :=
    UnitBuffer.canHold_of_half _ (by decide)
  obtain ⟨summary, lastSps, -⟩ := summary_of_last_sequence room
  have log : taken = [replaced, inForce] := by decide +kernel
  have last : lastSequenceUnit taken = (NalUnit.ofFramed inForce).toOption := by
    rw [log]
    decide +kernel
  rw [last] at lastSps
  exact ⟨room, log, lastSps, summary, by decide +kernel⟩

end Splitter
end EvcStream
