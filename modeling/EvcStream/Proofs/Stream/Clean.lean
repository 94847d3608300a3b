import EvcStream.Proofs.Stream.Conservation
/-!
# Clean input

A stream without damage is handed over unit by unit: its parts are those of the walk over the whole
of it, whatever its chunks.
-/
namespace EvcStream
namespace Splitter

open Assembler (pushAll)

theorem unitsOf_units (walked : List (List UInt8)) : unitsOf (walked.map Part.unit) = walked := by
  rw [unitsOf, List.filterMap_map]
  exact List.filterMap_some

section Walk

variable {maxUnitSize start : Nat} {bytes rest : List UInt8} {u : NalUnit}

theorem front_of_split (h : NalUnit.split start bytes = .ok (u, rest))
    (small : u.size ≤ maxUnitSize) : front maxUnitSize bytes = .unit u.framed rest := by
  obtain ⟨counted, -, whole⟩ := NalUnit.split_ok h
  have total : u.framed.length = NalUnit.lengthSize + u.size := by
    rw [NalUnit.framed, List.length_append, BigEndian.encode_length, NalUnit.size]
  have cutting : cut? (NalUnit.lengthSize + u.size) bytes = some (u.framed, rest) :=
    cut?_eq_some_iff.mpr ⟨total, whole⟩
  rw [front_of_long (NalUnit.length_le_of_length counted), counted]
  simp only [Nat.not_lt.mpr small, if_false, cutting]

theorem parts_of_walk (complete : (NalWalk.startingAt start bytes).stop = start + bytes.length)
    (small : ∀ u ∈ (NalWalk.startingAt start bytes).units, u.size ≤ maxUnitSize) :
    parts maxUnitSize bytes =
      (((NalWalk.startingAt start bytes).units.map NalUnit.framed).map .unit, []) := by
  fun_induction NalWalk.startingAt start bytes with
  | case1 start bytes fault stopped =>
    have : bytes = [] := List.eq_nil_of_length_eq_zero (by dsimp only at complete; omega)
    subst this
    exact parts_of_incomplete rfl
  | case2 start bytes u rest cutting shorter walk ih =>
    obtain ⟨first, others⟩ := List.forall_mem_cons.mp small
    have length := NalUnit.split_length cutting
    have behind : walk.stop = u.stop + rest.length := by
      change walk.stop = _ at complete
      rw [complete, NalUnit.stop, NalUnit.offset, NalUnit.split_start cutting]
      omega
    rw [parts_of_unit (front_of_split cutting first), ih behind others]
    rfl

end Walk

/-- Where a walk comes to the end of a stream and meets no unit that is too large, the stream in
chunks gives the access units of the walked units, pushed one by one, and leaves their assembler
behind. -/
theorem whole_buffer_agrees (config : SplitterConfig) {chunks : List (List UInt8)}
    (complete : (NalWalk.of chunks.flatten).stop = chunks.flatten.length)
    (small : ∀ u ∈ (NalWalk.of chunks.flatten).units, u.size ≤ config.maxUnitSize) :
    let run := transcript config chunks
    let walked := (NalWalk.of chunks.flatten).units.map NalUnit.framed
    let whole := pushAll walked (Assembler.ofCapacity config.initialCapacity)
    run.units = whole.1 ++ whole.2.takeOpen.1.toList ∧
      run.last.flush.2.assembler = whole.2.takeOpen.2 := by
  intro run walked whole
  have done : Completed config chunks.flatten (handedOut (callThrough chunks (new config)))
      run.faults run.last := callThrough_completed config chunks
  have cutting : unitsOf (parts config.maxUnitSize chunks.flatten).1 = walked := by
    rw [parts_of_walk (complete.trans (Nat.zero_add _).symm) small]
    exact unitsOf_units walked
  obtain ⟨assembler, units⟩ := done.units_eq
  rw [cutting] at assembler units
  refine ⟨units, ?_⟩
  change run.last.assembler.takeOpen.2 = _
  rw [assembler]
  rfl

/-- A slice that lacks its parameter sets and is refused, and a unit that is taken in, in chunks
that cut both. -/
theorem whole_buffer_agrees_refused :
    let chunks : List (List UInt8) := [[0, 0, 0, 3, 2], [0, 184, 0], [0, 0, 3, 58, 0, 128]]
    let run := transcript {} chunks
    let whole := pushAll [[0, 0, 0, 3, 2, 0, 184], [0, 0, 0, 3, 58, 0, 128]]
      (Assembler.ofCapacity 1024)
    (NalWalk.of chunks.flatten).stop = chunks.flatten.length ∧
      (∀ u ∈ (NalWalk.of chunks.flatten).units, u.size ≤ 64 * 2 ^ 20) ∧
      run.units = whole.1 ++ whole.2.takeOpen.1.toList ∧
      run.last.flush.2.assembler = whole.2.takeOpen.2 := by
  intro chunks run whole
  have walked : (NalWalk.of chunks.flatten).stop = chunks.flatten.length ∧
      (∀ u ∈ (NalWalk.of chunks.flatten).units, u.size ≤ 64 * 2 ^ 20) ∧
      (NalWalk.of chunks.flatten).units.map NalUnit.framed =
        [[0, 0, 0, 3, 2, 0, 184], [0, 0, 0, 3, 58, 0, 128]] := by
    decide +kernel
  obtain ⟨complete, small, framed⟩ := walked
  have agreed := whole_buffer_agrees {} complete small
  rw [framed] at agreed
  exact ⟨complete, small, agreed⟩

end Splitter

theorem NalUnit.split_of_ofFramed {framed : List UInt8} {u : NalUnit}
    (framing : ofFramed framed = .ok u) (start : Nat) (rest : List UInt8) :
    split start (framed ++ rest) = .ok ({ u with start }, rest) := by
  have size := (ofFramed_framable framing).size
  obtain ⟨decoded, whole⟩ := ofFramed_ok framing
  rw [← whole]
  exact split_framed (u := { u with start }) decoded size rest

namespace Splitter

open Assembler (push)

inductive Takes : Splitter → List NalUnit → Splitter → Prop
  | nil (s : Splitter) : Takes s [] s
  | cons {s t last : Splitter} {u : NalUnit} {later : List NalUnit} (framable : u.Framable)
      (accepted : s.accept u.framed = .ok () t) (rest : Takes t later last) :
      Takes s (u :: later) last

variable {s t last : Splitter} {u : NalUnit} {units early late : List NalUnit}
  {bytes framed : List UInt8} {maxUnitSize : Nat} {config : SplitterConfig}

theorem Takes.append_iff :
    Takes s (early ++ late) last ↔ ∃ middle, Takes s early middle ∧ Takes middle late last := by
  induction early generalizing s with
  | nil =>
    constructor
    · intro taken
      exact ⟨s, .nil s, taken⟩
    · rintro ⟨middle, ⟨⟩, rest⟩
      exact rest
  | cons u early ih =>
    constructor
    · intro taken
      obtain - | ⟨framable, accepted, rest⟩ := taken
      obtain ⟨middle, before, after⟩ := ih.mp rest
      exact ⟨middle, .cons framable accepted before, after⟩
    · rintro ⟨middle, before, after⟩
      obtain - | ⟨framable, accepted, rest⟩ := before
      exact .cons framable accepted (ih.mpr ⟨middle, rest, after⟩)

theorem Takes.framable (taken : Takes s units last) : ∀ u ∈ units, u.Framable := by
  induction taken with
  | nil => exact fun _ absent => (nomatch absent)
  | cons framable accepted rest ih => exact List.forall_mem_cons.mpr ⟨framable, ih⟩

theorem accept_ok (accepted : s.accept framed = .ok () t) :
    ∃ u unit, NalUnit.ofFramed framed = .ok u ∧
      push framed s.assembler = .ok unit t.assembler ∧
      t.summary = if u.header.type = .sps then t.assembler.lastSps.map StreamSummary.ofSps
        else s.summary := by
  unfold accept at accepted
  split at accepted
  · cases accepted
  · next header decoded =>
    split at accepted
    · cases accepted
    · next unit assembler pushed =>
      cases accepted
      obtain ⟨u, -, -, -, framing, -⟩ := Assembler.push_ok pushed
      have same := ofFramed_drop framing
      rw [decoded] at same
      cases same
      exact ⟨u, unit, framing, pushed, rfl⟩

theorem Takes.work_eq (taken : Takes s units last) :
    (work (units.map fun u => .unit u.framed) s).2 = last ∧
      refusals (work (units.map fun u => .unit u.framed) s).1 = [] := by
  induction taken with
  | nil s => exact ⟨rfl, rfl⟩
  | cons framable accepted rest ih =>
    simp only [List.map_cons, work, handle, accepted]
    exact ih

theorem accepted_of_clean {part : Part} {later : List Part}
    (clean : refusals (work (part :: later) s).1 = []) :
    ∃ framed t, part = .unit framed ∧ s.accept framed = .ok () t ∧
      (work (part :: later) s).2 = (work later t).2 ∧ refusals (work later t).1 = [] := by
  cases part with
  | badLength bytes fault => cases clean
  | unit framed =>
    cases accepted : s.accept framed with
    | error fault t =>
      simp only [work, handle, accepted, refusals, List.filterMap_cons] at clean
      cases clean
    | ok _ t =>
      simp only [work, handle, accepted] at clean ⊢
      exact ⟨framed, t, rfl, accepted, rfl, clean⟩

theorem front_of_large {start : Nat} {rest : List UInt8}
    (cutting : NalUnit.split start bytes = .ok (u, rest)) (large : maxUnitSize < u.size) :
    front maxUnitSize bytes =
      .badLength (.unitExceedsLimit u.size maxUnitSize) (bytes.drop NalUnit.lengthSize) := by
  have counted := (NalUnit.split_ok cutting).1
  rw [front_of_long (NalUnit.length_le_of_length counted), counted]
  exact if_pos large

/-- Where no part is refused, a walk meets the parts. -/
theorem takes_of_work (start : Nat) (clean : refusals (work (parts maxUnitSize bytes).1 s).1 = []) :
    Takes s (NalWalk.startingAt start bytes).units (work (parts maxUnitSize bytes).1 s).2 := by
  fun_induction NalWalk.startingAt start bytes generalizing s with
  | case1 start bytes fault stopped =>
    cases found : front maxUnitSize bytes with
    | incomplete missing =>
      rw [parts_of_incomplete found]
      exact .nil s
    | badLength fault rest =>
      rw [parts_of_badLength found] at clean
      cases clean
    | unit framed rest =>
      rw [parts_of_unit found] at clean
      obtain ⟨_, t, ⟨⟩, accepted, -, -⟩ := accepted_of_clean clean
      obtain ⟨u, -, framing, -, -⟩ := accept_ok accepted
      rw [(front_unit found).1, NalUnit.split_of_ofFramed framing] at stopped
      cases stopped
  | case2 start bytes u rest cutting shorter walk =>
    rename_i ih
    by_cases small : u.size ≤ maxUnitSize
    · rw [parts_of_unit (front_of_split cutting small)] at clean ⊢
      obtain ⟨_, t, ⟨⟩, accepted, worked, later⟩ := accepted_of_clean clean
      rw [worked]
      exact .cons (NalUnit.split_framable cutting) accepted (ih later)
    · rw [parts_of_badLength (front_of_large cutting (Nat.lt_of_not_le small))] at clean
      cases clean

theorem attempt_of_feed {progress : Progress} (fed : s.feed bytes = .ok progress last) :
    s.attempt bytes = { outcome := .ok progress, after := last } := by
  rw [attempt, fed]

theorem takes_of_feed {progress : Progress} (fed : (new config).feed bytes = .ok progress last) :
    ∃ t, Takes (new config) (NalWalk.of bytes).units t ∧ t.assembler = last.assembler ∧
      t.summary = last.summary := by
  obtain ⟨events, reached, clean, settled⟩ := attempt_reaches bytes (new config)
  rw [attempt_of_feed fed] at reached clean settled
  have done := reached.completed (settled rfl)
  have worked := done.work_eq
  have quiet : refusals (work (parts config.maxUnitSize bytes).1 (new config)).1 = [] := by
    rw [worked]
    exact done.faults_eq.trans clean
  have taken := takes_of_work 0 quiet
  rw [worked] at taken
  exact ⟨_, taken, rfl, rfl⟩

/-- A call succeeds if none of its parts is refused, and ends where working on them ends. -/
theorem feed_of_clean
    (clean : refusals (work (parts config.maxUnitSize bytes).1 (new config)).1 = []) :
    ∃ progress last, (new config).feed bytes = .ok progress last ∧
      last.assembler = (work (parts config.maxUnitSize bytes).1 (new config)).2.assembler ∧
      last.summary = (work (parts config.maxUnitSize bytes).1 (new config)).2.summary := by
  obtain ⟨events, reached, reported, settled⟩ := attempt_reaches bytes (new config)
  cases fed : (new config).feed bytes with
  | error fault after =>
    -- The parts up to the fault come first, so that this fault would be among the refusals.
    have divided : (parts config.maxUnitSize bytes).1 = events.map Event.part ++ _ :=
      congrArg Prod.fst reached.parts_eq
    have early : work (events.map Event.part) (new config) = (events, _) := reached.work_eq []
    rw [divided, work_append, refusals_append, early] at clean
    rw [(List.append_eq_nil_iff.mp clean).1, attempt, fed] at reported
    cases reported
  | ok progress last =>
    rw [attempt_of_feed fed] at reached settled
    have worked := (reached.completed (settled rfl)).work_eq
    refine ⟨progress, last, rfl, ?_⟩
    rw [worked]
    exact ⟨rfl, rfl⟩

theorem Takes.feed (taken : Takes (new config) units t)
    (small : ∀ u ∈ units, u.size ≤ config.maxUnitSize) :
    ∃ progress last, (new config).feed (units.flatMap NalUnit.framed) = .ok progress last ∧
      last.assembler = t.assembler ∧ last.summary = t.summary := by
  have stop := NalWalk.stop_of_framed taken.framable
  have framed := NalWalk.map_of_framed (f := NalUnit.framed) taken.framable fun _ => rfl
  have sizes : ∀ u ∈ (NalWalk.of (units.flatMap NalUnit.framed)).units,
      u.size ≤ config.maxUnitSize := by
    have same := NalWalk.map_of_framed (f := NalUnit.size) taken.framable fun _ => rfl
    rw [← List.forall_mem_map (P := (· ≤ config.maxUnitSize)), same, List.forall_mem_map]
    exact small
  have cut : parts config.maxUnitSize (units.flatMap NalUnit.framed) =
      (units.map fun u => .unit u.framed, []) := by
    rw [parts_of_walk (stop.trans (Nat.zero_add _).symm) sizes, ← NalWalk.of, framed, List.map_map]
    rfl
  obtain ⟨worked, quiet⟩ := taken.work_eq
  have clean : refusals (work (parts config.maxUnitSize (units.flatMap NalUnit.framed)).1
      (new config)).1 = [] := by
    rw [cut]
    exact quiet
  obtain ⟨progress, last, fed, assembler, summary⟩ := feed_of_clean clean
  rw [cut, worked] at assembler summary
  exact ⟨progress, last, fed, assembler, summary⟩

end Splitter
end EvcStream
