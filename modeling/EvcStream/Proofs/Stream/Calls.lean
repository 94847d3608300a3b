import EvcStream.Proofs.Stream.Parts
/-!
# Feeding chunks

One feed works through parts of what is pending until a part is missing or a unit is refused. Calls
that follow a fault go on behind it, so the parts do not depend on where the chunks were cut.
-/
namespace EvcStream.Splitter

def Progress.units : Progress → List AccessUnit
  | .needMoreData => []
  | .accessUnits units => units

def Attempt.units (attempt : Attempt) : List AccessUnit :=
  match attempt.outcome with
  | .ok progress => Progress.units progress
  | .error _ => []

def Attempt.faults (attempt : Attempt) : List Fault :=
  match attempt.outcome with
  | .ok _ => []
  | .error fault => [fault]

def handedOut (run : List Attempt) : List AccessUnit := run.flatMap Attempt.units

def reported (run : List Attempt) : List Fault := run.flatMap Attempt.faults

def final (s : Splitter) (run : List Attempt) : Splitter :=
  run.foldl (fun _ attempt => attempt.after) s

def attempt (chunk : List UInt8) (s : Splitter) : Attempt :=
  match s.feed chunk with
  | .ok progress after => { outcome := .ok progress, after }
  | .error fault after => { outcome := .error fault, after }

def callOnce : List (List UInt8) → Splitter → List Attempt
  | [], _ => []
  | chunk :: chunks, s => s.attempt chunk :: callOnce chunks (s.attempt chunk).after

/-- Hands over each chunk, and goes on after each fault until a call succeeds. -/
def callThrough : List (List UInt8) → Splitter → List Attempt
  | [], _ => []
  | chunk :: chunks, s =>
    s.attempts chunk ++ callThrough chunks (final s (s.attempts chunk))

structure Transcript where
  units : List AccessUnit
  faults : List Fault
  /-- The splitter right before the end of the stream. -/
  last : Splitter

def Transcript.of (config : SplitterConfig) (run : List Attempt) : Transcript :=
  let last := final (new config) run
  { units := handedOut run ++ last.flush.1, faults := reported run, last }

/-- A stream whose chunks are handed over once each, failing or not. -/
def transcriptOnce (config : SplitterConfig) (chunks : List (List UInt8)) : Transcript :=
  Transcript.of config (callOnce chunks (new config))

/-- A stream where each failing call is followed up until a call succeeds. -/
def transcript (config : SplitterConfig) (chunks : List (List UInt8)) : Transcript :=
  Transcript.of config (callThrough chunks (new config))

@[simp] theorem handedOut_nil : handedOut [] = [] := rfl

@[simp] theorem handedOut_cons (a : Attempt) (run : List Attempt) :
    handedOut (a :: run) = a.units ++ handedOut run := rfl

@[simp] theorem handedOut_append (run later : List Attempt) :
    handedOut (run ++ later) = handedOut run ++ handedOut later := by
  simp [handedOut]

@[simp] theorem reported_nil : reported [] = [] := rfl

@[simp] theorem reported_cons (a : Attempt) (run : List Attempt) :
    reported (a :: run) = a.faults ++ reported run := rfl

@[simp] theorem reported_append (run later : List Attempt) :
    reported (run ++ later) = reported run ++ reported later := by
  simp [reported]

@[simp] theorem final_nil (s : Splitter) : final s [] = s := rfl

@[simp] theorem final_cons (s : Splitter) (a : Attempt) (run : List Attempt) :
    final s (a :: run) = final a.after run := rfl

@[simp] theorem final_append (s : Splitter) (run later : List Attempt) :
    final s (run ++ later) = final (final s run) later := by
  simp [final]

structure Event where
  part : Part
  fault : Option Fault
  deriving DecidableEq, Repr

def handle (s : Splitter) : Part → Option Fault × Splitter
  | .badLength _ fault => (some fault, s)
  | .unit framed =>
    match s.accept framed with
    | .ok () t => (none, t)
    | .error fault t => (some fault, t)

def work : List Part → Splitter → List Event × Splitter
  | [], s => ([], s)
  | part :: later, s =>
    let (fault, t) := s.handle part
    let (events, u) := work later t
    ({ part, fault } :: events, u)

def refusals (events : List Event) : List Fault := events.filterMap Event.fault

/-- The splitter without its input, and with the access units in hand that were given away. -/
def keeping (given : List AccessUnit) (s : Splitter) : Splitter :=
  { s with pending := [], missing := 0, ready := given ++ s.ready }

theorem work_append (front back : List Part) (s : Splitter) :
    work (front ++ back) s =
      ((work front s).1 ++ (work back (work front s).2).1, (work back (work front s).2).2) := by
  induction front generalizing s with
  | nil => rfl
  | cons part front ih =>
    simp only [List.cons_append, work, ih]

@[simp] theorem refusals_append (events later : List Event) :
    refusals (events ++ later) = refusals events ++ refusals later := by
  simp [refusals]

theorem accept_keeping (given : List AccessUnit) (s : Splitter) (framed : List UInt8) :
    (s.keeping given).accept framed =
      match s.accept framed with
      | .ok () t => .ok () (t.keeping given)
      | .error fault t => .error fault (t.keeping given) := by
  unfold accept keeping
  cases NalUnitHeader.decode (framed.drop NalUnit.lengthSize) with
  | error fault => rfl
  | ok header =>
    dsimp only
    cases Assembler.push framed s.assembler with
    | error fault assembler => rfl
    | ok closed assembler =>
      dsimp only
      rw [List.append_assoc]

theorem handle_keeping (given : List AccessUnit) (s : Splitter) (part : Part) :
    (s.keeping given).handle part = ((s.handle part).1, (s.handle part).2.keeping given) := by
  cases part with
  | badLength bytes fault => rfl
  | unit framed =>
    simp only [handle, accept_keeping]
    cases s.accept framed <;> rfl

theorem accept_config {s t : Splitter} {framed : List UInt8}
    (h : s.accept framed = .ok () t) : t.config = s.config := by
  unfold accept at h
  split at h
  · cases h
  · split at h
    · cases h
    · cases h
      rfl

theorem accept_fault_config {s t : Splitter} {framed : List UInt8} {fault : Fault}
    (h : s.accept framed = .error fault t) : t.config = s.config := by
  unfold accept at h
  split at h
  · cases h
    rfl
  · split at h
    · cases h
      rfl
    · cases h

theorem handle_frame (s : Splitter) (part : Part) :
    (s.handle part).2.config = s.config ∧ (s.handle part).2.pending = s.pending := by
  cases part with
  | badLength bytes fault => exact ⟨rfl, rfl⟩
  | unit framed =>
    unfold handle
    dsimp only
    split
    · next accepted => exact ⟨accept_config accepted, accept_pending accepted⟩
    · next refused => exact ⟨accept_fault_config refused, accept_fault_pending refused⟩

def cut (s : Splitter) : List Part × List UInt8 := parts s.config.maxUnitSize s.pending

/-- Nothing is left to work through, and nothing to hand out. -/
structure Settled (s : Splitter) : Prop where
  broken : front s.config.maxUnitSize s.pending = .incomplete s.missing
  empty : s.ready = []

/-- With `input` the splitter `s` becomes `t`: it works through some parts, here with what became
of them, and gives away these access units. What it becomes is what it would be if the parts had
been handed over one at a time. -/
structure Reaches (s : Splitter) (input : List UInt8) (events : List Event)
    (units : List AccessUnit) (t : Splitter) : Prop where
  config_eq : t.config = s.config
  parts_eq : parts s.config.maxUnitSize (s.pending ++ input) =
    (events.map Event.part ++ t.cut.1, t.cut.2)
  work_eq : ∀ given, work (events.map Event.part) (s.keeping given) =
    (events, t.keeping (given ++ units))

variable {s t u : Splitter} {input more : List UInt8} {events later : List Event}
  {units further : List AccessUnit}

theorem Reaches.trans (h : Reaches s input events units t) (k : Reaches t more later further u) :
    Reaches s (input ++ more) (events ++ later) (units ++ further) u := by
  constructor
  · exact k.config_eq.trans h.config_eq
  · -- What `t` left pending is cut anew, now that more follows.
    have ahead := k.parts_eq
    have behind := parts_append t.config.maxUnitSize t.pending more
    rw [behind] at ahead
    simp only [Prod.mk.injEq] at ahead
    rw [← List.append_assoc, parts_append, h.parts_eq]
    simp only [cut, h.config_eq, List.map_append, List.append_assoc] at ahead ⊢
    rw [ahead.1, ahead.2]
  · intro given
    rw [List.map_append, work_append, h.work_eq, k.work_eq, List.append_assoc]

theorem reaches_part {part : Part} {rest : List UInt8}
    (next : parts s.config.maxUnitSize s.pending =
      (part :: (parts s.config.maxUnitSize rest).1,
        (parts s.config.maxUnitSize rest).2))
    {fault : Option Fault} (h : handle { s with pending := rest, missing := 0 } part = (fault, t)) :
    Reaches s [] [{ part, fault }] [] t := by
  have frame := handle_frame { s with pending := rest, missing := 0 } part
  rw [h] at frame
  obtain ⟨config, pending⟩ := frame
  constructor
  · exact config
  · rw [List.append_nil, next, cut, config, pending]
    rfl
  · intro given
    have same := handle_keeping given { s with pending := rest, missing := 0 } part
    rw [h] at same
    simp only [List.map_cons, List.map_nil, work, List.append_nil]
    change handle (keeping given s) part = _ at same
    rw [same]

theorem Reaches.idle (s : Splitter) (missing : Nat) : Reaches s [] [] [] { s with missing } := by
  constructor
  · rfl
  · rw [List.append_nil]
    rfl
  · intro given
    rw [List.append_nil]
    rfl

theorem Reaches.refl (s : Splitter) : Reaches s [] [] [] s := Reaches.idle s s.missing

theorem drain_reaches (h : s.drain = .ok () t) :
    ∃ events, Reaches s [] events [] t ∧ refusals events = [] ∧
      front t.config.maxUnitSize t.pending = .incomplete t.missing := by
  fun_induction drain s with
  | case1 s missing cutting =>
    cases h
    exact ⟨[], Reaches.idle s missing, rfl, cutting⟩
  | case2 => cases h
  | case3 => cases h
  | case4 s framed pending cutting u accepted ih =>
    obtain ⟨events, reached, clean, broken⟩ := ih h
    have handled : handle { s with pending, missing := 0 } (.unit framed) = (none, u) := by
      simp only [handle, accepted]
    have first := reaches_part (parts_of_unit cutting) handled
    refine ⟨_, first.trans reached, ?_, broken⟩
    rw [refusals_append, clean]
    rfl

theorem drain_fault_reaches {fault : Fault} (h : s.drain = .error fault t) :
    ∃ events, Reaches s [] events [] t ∧ refusals events = [fault] := by
  fun_induction drain s with
  | case1 => cases h
  | case2 s found pending cutting =>
    cases h
    exact ⟨_, reaches_part (parts_of_badLength cutting) rfl, rfl⟩
  | case3 s framed pending cutting found u refused =>
    cases h
    have handled : handle { s with pending, missing := 0 } (.unit framed) = (some fault, t) := by
      simp only [handle, refused]
    exact ⟨_, reaches_part (parts_of_unit cutting) handled, rfl⟩
  | case4 s framed pending cutting u accepted ih =>
    obtain ⟨events, reached, last⟩ := ih h
    have handled : handle { s with pending, missing := 0 } (.unit framed) = (none, u) := by
      simp only [handle, accepted]
    have first := reaches_part (parts_of_unit cutting) handled
    refine ⟨_, first.trans reached, ?_⟩
    rw [refusals_append, last]
    rfl

theorem Reaches.of_pending {chunk : List UInt8}
    (h : Reaches { s with pending := s.pending ++ chunk } [] events units t) :
    Reaches s chunk events units t := by
  constructor
  · exact h.config_eq
  · simpa only [List.append_nil] using h.parts_eq
  · exact h.work_eq

theorem Reaches.give (h : Reaches s input events units t) :
    Reaches s input events (units ++ t.ready) { t with ready := [] } := by
  constructor
  · exact h.config_eq
  · exact h.parts_eq
  · intro given
    rw [h.work_eq]
    simp only [keeping, List.append_assoc, List.append_nil]

theorem attempt_reaches (chunk : List UInt8) (s : Splitter) :
    ∃ events, Reaches s chunk events (s.attempt chunk).units (s.attempt chunk).after ∧
      refusals events = (s.attempt chunk).faults ∧
      ((s.attempt chunk).faults = [] → Settled (s.attempt chunk).after) := by
  unfold attempt feed
  cases drained : drain { s with pending := s.pending ++ chunk } with
  | error fault t =>
    obtain ⟨events, reached, last⟩ := drain_fault_reaches drained
    refine ⟨events, reached.of_pending, last, ?_⟩
    intro clean
    cases clean
  | ok _ t =>
    obtain ⟨events, reached, clean, broken⟩ := drain_reaches drained
    have given := reached.of_pending.give
    dsimp only
    by_cases waiting : t.ready.isEmpty && 0 < t.missing
    · have none : t.ready = [] := by
        simp only [Bool.and_eq_true, List.isEmpty_iff] at waiting
        exact waiting.1
      rw [if_pos waiting]
      exact ⟨events, reached.of_pending, clean, fun _ => ⟨broken, none⟩⟩
    · rw [if_neg waiting]
      exact ⟨events, given, clean, fun _ => ⟨broken, rfl⟩⟩

theorem callOnce_reaches (chunks : List (List UInt8)) (s : Splitter) :
    ∃ events, Reaches s chunks.flatten events (handedOut (callOnce chunks s))
        (final s (callOnce chunks s)) ∧
      refusals events = reported (callOnce chunks s) := by
  induction chunks generalizing s with
  | nil => exact ⟨[], Reaches.refl s, rfl⟩
  | cons chunk chunks ih =>
    obtain ⟨events, reached, clean, -⟩ := attempt_reaches chunk s
    obtain ⟨later, further, behind⟩ := ih (s.attempt chunk).after
    refine ⟨events ++ later, ?_, ?_⟩
    · exact reached.trans further
    · rw [refusals_append, clean, behind]
      rfl

theorem attempts_reaches (chunk : List UInt8) (s : Splitter) :
    ∃ events, Reaches s chunk events (handedOut (s.attempts chunk))
        (final s (s.attempts chunk)) ∧
      refusals events = reported (s.attempts chunk) ∧ Settled (final s (s.attempts chunk)) := by
  fun_induction attempts chunk s with
  | case1 chunk s progress after fed =>
    have single : s.attempt chunk = { outcome := .ok progress, after } := by
      simp only [attempt, fed]
    obtain ⟨events, reached, clean, settled⟩ := attempt_reaches chunk s
    rw [single] at reached clean settled
    refine ⟨events, ?_, ?_, settled rfl⟩
    · simpa using reached
    · simpa using clean
  | case2 chunk s fault after fed shorter ih =>
    have single : s.attempt chunk = { outcome := .error fault, after } := by
      simp only [attempt, fed]
    obtain ⟨events, reached, clean, -⟩ := attempt_reaches chunk s
    rw [single] at reached clean
    obtain ⟨later, further, behind, settled⟩ := ih
    refine ⟨events ++ later, ?_, ?_, settled⟩
    · simpa using reached.trans further
    · rw [refusals_append, clean, behind]
      rfl

theorem callThrough_reaches (chunks : List (List UInt8)) {s : Splitter} (start : Settled s) :
    ∃ events, Reaches s chunks.flatten events (handedOut (callThrough chunks s))
        (final s (callThrough chunks s)) ∧
      refusals events = reported (callThrough chunks s) ∧
      Settled (final s (callThrough chunks s)) := by
  induction chunks generalizing s with
  | nil => exact ⟨[], Reaches.refl s, rfl, start⟩
  | cons chunk chunks ih =>
    obtain ⟨events, reached, clean, settled⟩ := attempts_reaches chunk s
    obtain ⟨later, further, behind, done⟩ := ih settled
    refine ⟨events ++ later, ?_, ?_, ?_⟩
    · simpa [callThrough] using reached.trans further
    · simp [callThrough, clean, behind]
    · simpa [callThrough] using done

theorem new_settled (config : SplitterConfig) : Settled (new config) := ⟨rfl, rfl⟩

def history (config : SplitterConfig) (input : List UInt8) : List Event :=
  (work (parts config.maxUnitSize input).1 (new config)).1

/-- All parts of the input have been worked through: with these access units given away and these
faults reported, `last` is the splitter that waits behind them. -/
structure Completed (config : SplitterConfig) (input : List UInt8) (units : List AccessUnit)
    (faults : List Fault) (last : Splitter) : Prop where
  work_eq : work (parts config.maxUnitSize input).1 (new config) =
    (history config input, last.keeping units)
  faults_eq : refusals (history config input) = faults
  config_eq : last.config = config
  pending_eq : last.pending = (parts config.maxUnitSize input).2
  settled : Settled last

theorem Reaches.completed {config : SplitterConfig} {input : List UInt8} {events : List Event}
    {units : List AccessUnit} {last : Splitter}
    (h : Reaches (new config) input events units last) (settled : Settled last) :
    Completed config input units (refusals events) last := by
  have waiting : last.cut = ([], last.pending) := parts_of_incomplete settled.broken
  have all : parts config.maxUnitSize input = (events.map Event.part, last.pending) := by
    have divided := h.parts_eq
    rw [waiting, List.append_nil] at divided
    exact divided
  have worked : work (events.map Event.part) (new config) =
      (events, last.keeping units) := h.work_eq []
  have log : history config input = events := by
    rw [history, all, worked]
  constructor
  · rw [log, all, worked]
  · rw [log]
  · exact h.config_eq
  · rw [all]
  · exact settled

theorem callThrough_completed (config : SplitterConfig) (chunks : List (List UInt8)) :
    Completed config chunks.flatten (handedOut (callThrough chunks (new config)))
      (reported (callThrough chunks (new config)))
      (final (new config) (callThrough chunks (new config))) := by
  obtain ⟨events, reached, clean, settled⟩ := callThrough_reaches chunks (new_settled config)
  rw [← clean]
  exact reached.completed settled

theorem Completed.unique {config : SplitterConfig} {input : List UInt8}
    {units others : List AccessUnit} {faults errors : List Fault} {s t : Splitter}
    (h : Completed config input units faults s) (k : Completed config input others errors t) :
    units = others ∧ faults = errors ∧ s = t := by
  -- Handing over the parts settles all but the pending input, and that is the tail.
  have same := h.work_eq.symm.trans k.work_eq
  simp only [keeping, h.settled.empty, k.settled.empty, List.append_nil, Prod.mk.injEq,
    Splitter.mk.injEq, true_and] at same
  obtain ⟨config, assembler, summary, units⟩ := same
  have pending : s.pending = t.pending := h.pending_eq.trans k.pending_eq.symm
  have broken := h.settled.broken
  rw [pending, config, k.settled.broken, Front.incomplete.injEq] at broken
  refine ⟨units, h.faults_eq.symm.trans k.faults_eq, ?_⟩
  have ready : s.ready = t.ready := h.settled.empty.trans k.settled.empty.symm
  cases s
  cases t
  dsimp only at config assembler summary pending broken ready
  rw [config, assembler, pending, ← broken, summary, ready]

/-- However a stream is cut into chunks, it gives the same access units and the same faults, and
leaves the same splitter behind right before its end. -/
theorem chunking_invariance (config : SplitterConfig) {chunks others : List (List UInt8)}
    (same : chunks.flatten = others.flatten) :
    (transcript config chunks).units = (transcript config others).units ∧
      (transcript config chunks).faults = (transcript config others).faults ∧
      (transcript config chunks).last = (transcript config others).last := by
  have one := callThrough_completed config chunks
  have other := callThrough_completed config others
  rw [same] at one
  obtain ⟨units, faults, last⟩ := one.unique other
  refine ⟨?_, faults, last⟩
  simp only [transcript, Transcript.of, units, last]

/-- A damaged stream, cut inside a bad length, inside a length and inside a unit. -/
theorem chunking_invariance_damaged :
    ([[0], [0, 0, 0, 0], [], [0, 0, 3, 58, 0], [128, 0, 0]] : List (List UInt8)).flatten =
        [[0, 0, 0, 0, 0, 0, 0, 3, 58, 0, 128, 0, 0]].flatten ∧
      (transcript {} [[0], [0, 0, 0, 0], [], [0, 0, 3, 58, 0], [128, 0, 0]]).units =
        (transcript {} [[0, 0, 0, 0, 0, 0, 0, 3, 58, 0, 128, 0, 0]]).units ∧
      (transcript {} [[0], [0, 0, 0, 0], [], [0, 0, 3, 58, 0], [128, 0, 0]]).faults =
        (transcript {} [[0, 0, 0, 0, 0, 0, 0, 3, 58, 0, 128, 0, 0]]).faults ∧
      (transcript {} [[0], [0, 0, 0, 0], [], [0, 0, 3, 58, 0], [128, 0, 0]]).last =
        (transcript {} [[0, 0, 0, 0, 0, 0, 0, 3, 58, 0, 128, 0, 0]]).last :=
  ⟨by decide, chunking_invariance {} (by decide)⟩

end EvcStream.Splitter
