import EvcStream.Proofs.AccessUnit.Push
import EvcStream.Proofs.Stream.Calls
/-!
# Units keep their bytes

The access units that come out of a splitter are made of segments of its input, in their order, and
a flush gives the rest of them if nothing but a broken off unit was pending.
-/
namespace EvcStream.Splitter

open Assembler (push pushAll accepted map_accepted accepted_sublist accessUnits
  accessUnits_bytes)

def Part.unit? : Part → Option (List UInt8)
  | .badLength _ _ => none
  | .unit framed => some framed

def unitsOf (parts : List Part) : List (List UInt8) := parts.filterMap Part.unit?

theorem ofFramed_drop {framed : List UInt8} {u : NalUnit} (h : NalUnit.ofFramed framed = .ok u) :
    NalUnitHeader.decode (framed.drop NalUnit.lengthSize) = .ok u.header := by
  obtain ⟨decoded, whole⟩ := NalUnit.ofFramed_ok h
  rw [← whole, NalUnit.framed, List.drop_left' (BigEndian.encode_length _ _)]
  exact decoded

section Accept

variable {s : Splitter} {framed : List UInt8} {b : Assembler}

theorem accept_of_push {unit : Option AccessUnit} (h : push framed s.assembler = .ok unit b) :
    ∃ summary, s.accept framed =
      .ok () { s with assembler := b, summary, ready := s.ready ++ unit.toList } := by
  obtain ⟨u, -, -, -, cutting, -⟩ := Assembler.push_ok h
  unfold accept
  rw [ofFramed_drop cutting, h]
  exact ⟨_, rfl⟩

/-- A unit that the assembler refuses is refused; one that is refused for its header would be. -/
theorem accept_of_push_fault {fault : Fault} (h : push framed s.assembler = .error fault b) :
    ∃ found, s.accept framed = .error found { s with assembler := b } := by
  unfold accept
  cases decoded : NalUnitHeader.decode (framed.drop NalUnit.lengthSize) with
  | ok header => exact ⟨fault, by rw [h]⟩
  | error found =>
    refine ⟨found, ?_⟩
    rw [Assembler.push_eq] at h
    cases cutting : NalUnit.ofFramed framed with
    | ok u =>
      rw [ofFramed_drop cutting] at decoded
      cases decoded
    | error other =>
      rw [cutting] at h
      cases h
      rfl

end Accept

theorem work_pushAll (parts : List Part) (s : Splitter) :
    (work parts s).2.assembler = (pushAll (unitsOf parts) s.assembler).2 ∧
      (work parts s).2.ready = s.ready ++ (pushAll (unitsOf parts) s.assembler).1 := by
  induction parts generalizing s with
  | nil => exact ⟨rfl, (List.append_nil _).symm⟩
  | cons part later ih =>
    cases part with
    | badLength bytes fault => exact ih s
    | unit framed =>
      simp only [unitsOf, List.filterMap_cons, Part.unit?, work, handle, pushAll]
      cases pushed : push framed s.assembler with
      | ok unit b =>
        obtain ⟨summary, taken⟩ := accept_of_push pushed
        simp only [taken]
        obtain ⟨assembler, ready⟩ :=
          ih { s with assembler := b, summary, ready := s.ready ++ unit.toList }
        exact ⟨assembler, by rw [ready, List.append_assoc]; rfl⟩
      | error fault b =>
        obtain ⟨found, refused⟩ := accept_of_push_fault pushed
        simp only [refused]
        exact ih { s with assembler := b }

theorem units_of_work {parts : List Part} {s last : Splitter} {units : List AccessUnit}
    (settled : Settled last) (worked : (work parts s).2 = last.keeping units) :
    last.assembler = (pushAll (unitsOf parts) s.assembler).2 ∧
      units ++ last.flush.1 = s.ready ++ accessUnits (unitsOf parts) s.assembler := by
  obtain ⟨assembler, ready⟩ := work_pushAll parts s
  rw [worked] at assembler ready
  simp only [keeping, settled.empty, List.append_nil] at assembler ready
  refine ⟨assembler, ?_⟩
  have ended : last.flush.1 = last.assembler.takeOpen.1.toList := by
    simp only [flush, settled.empty, List.nil_append]
  rw [ended, ready, assembler, accessUnits, List.append_assoc]

theorem accepted_of_work {parts : List Part} {s : Splitter}
    (clean : refusals (work parts s).1 = []) :
    (accepted id (unitsOf parts) s.assembler).flatten = parts.flatMap Part.bytes := by
  induction parts generalizing s with
  | nil => rfl
  | cons part later ih =>
    cases part with
    | badLength bytes fault => cases clean
    | unit framed =>
      simp only [unitsOf, List.filterMap_cons, Part.unit?, accepted, id_eq]
      cases pushed : push framed s.assembler with
      | ok unit b =>
        obtain ⟨summary, taken⟩ := accept_of_push pushed
        simp only [work, handle, taken, refusals, List.filterMap_cons] at clean
        have rest := ih clean
        simp only [List.flatten_cons, List.flatMap_cons]
        rw [← rest]
        rfl
      | error fault b =>
        obtain ⟨found, refused⟩ := accept_of_push_fault pushed
        simp only [work, handle, refused, refusals, List.filterMap_cons] at clean
        cases clean

structure Segment where
  start : Nat
  bytes : List UInt8
  deriving DecidableEq, Repr

def Segment.stop (segment : Segment) : Nat := segment.start + segment.bytes.length

def located (start : Nat) : List Part → List Segment
  | [] => []
  | .badLength bytes _ :: later => located (start + bytes.length) later
  | .unit framed :: later =>
    { start, bytes := framed } :: located (start + framed.length) later

def unitSegments (config : SplitterConfig) (input : List UInt8) : List Segment :=
  located 0 (parts config.maxUnitSize input).1

theorem located_bytes (start : Nat) (parts : List Part) :
    (located start parts).map Segment.bytes = unitsOf parts := by
  induction parts generalizing start with
  | nil => rfl
  | cons part later ih =>
    cases part with
    | badLength bytes fault => exact ih (start + bytes.length)
    | unit framed =>
      simp only [located, List.map_cons, ih (start + framed.length)]
      rfl

theorem located_start {start : Nat} {parts : List Part} {segment : Segment}
    (h : segment ∈ located start parts) : start ≤ segment.start := by
  induction parts generalizing start with
  | nil => cases h
  | cons part later ih =>
    cases part with
    | badLength bytes fault => exact Nat.le_trans (Nat.le_add_right _ _) (ih h)
    | unit framed =>
      rcases List.mem_cons.mp h with rfl | later
      · exact Nat.le_refl start
      · exact Nat.le_trans (Nat.le_add_right _ _) (ih later)

theorem located_pairwise (start : Nat) (parts : List Part) :
    (located start parts).Pairwise (fun one next => one.stop ≤ next.start) := by
  induction parts generalizing start with
  | nil => exact List.Pairwise.nil
  | cons part later ih =>
    cases part with
    | badLength bytes fault => exact ih (start + bytes.length)
    | unit framed =>
      apply List.Pairwise.cons
      · intro segment member
        exact located_start member
      · exact ih (start + framed.length)

theorem located_input {front tail : List UInt8} {parts : List Part} {segment : Segment}
    (h : segment ∈ located front.length parts) :
    ((front ++ parts.flatMap Part.bytes ++ tail).drop segment.start).take segment.bytes.length =
      segment.bytes := by
  induction parts generalizing front with
  | nil => cases h
  | cons part later ih =>
    have further : front ++ (part :: later).flatMap Part.bytes =
        (front ++ part.bytes) ++ later.flatMap Part.bytes := by
      rw [List.flatMap_cons, List.append_assoc]
    rw [further]
    cases part with
    | badLength bytes fault =>
      apply ih
      rwa [List.length_append]
    | unit framed =>
      rcases List.mem_cons.mp h with rfl | later
      · simp [Part.bytes]
      · apply ih
        rwa [List.length_append]

def fresh (config : SplitterConfig) : Assembler := Assembler.ofCapacity config.initialCapacity

section Completed

variable {config : SplitterConfig} {input : List UInt8} {units : List AccessUnit}
  {faults : List Fault} {last : Splitter}

/-- A run that works through a stream is a run of its units over one assembler. -/
theorem Completed.units_eq (h : Completed config input units faults last) :
    last.assembler = (pushAll (unitsOf (parts config.maxUnitSize input).1) (fresh config)).2 ∧
      units ++ last.flush.1 =
        accessUnits (unitsOf (parts config.maxUnitSize input).1) (fresh config) :=
  units_of_work h.settled (congrArg Prod.snd h.work_eq)

theorem Completed.whole (h : Completed config input units [] last) (none : last.missing = 0) :
    (accepted id (unitsOf (parts config.maxUnitSize input).1) (fresh config)).flatten = input := by
  have broken := h.settled.broken
  rw [none] at broken
  have tail : (parts config.maxUnitSize input).2 = [] := by
    rw [← h.pending_eq]
    exact eq_nil_of_missing_zero broken
  have clean : refusals (work (parts config.maxUnitSize input).1 (new config)).1 = [] :=
    h.faults_eq
  have divided := parts_bytes config.maxUnitSize input
  rw [tail, List.append_nil, ← accepted_of_work clean] at divided
  exact divided

end Completed

/-- The access units of a stream, the last one with them, hold the units that the assembler
accepts, each once and in order, from separate places of the input. If nothing was refused and
nothing is missing at the end, they hold the whole input. -/
theorem units_conserved (config : SplitterConfig) (chunks : List (List UInt8)) :
    let run := transcript config chunks
    let segments := unitSegments config chunks.flatten
    let taken := accepted Segment.bytes segments (fresh config)
    run.last.assembler = (pushAll (segments.map Segment.bytes) (fresh config)).2 ∧
      run.units = accessUnits (segments.map Segment.bytes) (fresh config) ∧
      run.units.flatMap AccessUnit.bytes = taken.flatMap Segment.bytes ∧
      (∀ segment ∈ taken,
        (chunks.flatten.drop segment.start).take segment.bytes.length = segment.bytes) ∧
      taken.Pairwise (fun one next => one.stop ≤ next.start) ∧
      (run.faults = [] → run.last.missing = 0 →
        run.units.flatMap AccessUnit.bytes = chunks.flatten) := by
  intro run segments taken
  have done : Completed config chunks.flatten (handedOut (callThrough chunks (new config)))
      run.faults run.last := callThrough_completed config chunks
  have located : segments.map Segment.bytes =
      unitsOf (parts config.maxUnitSize chunks.flatten).1 := located_bytes 0 _
  have all : run.units = accessUnits (segments.map Segment.bytes) (fresh config) := by
    rw [located]
    exact done.units_eq.2
  have kept : taken.Sublist segments := accepted_sublist _ _ _
  have bytes : taken.flatMap Segment.bytes =
      (accepted id (segments.map Segment.bytes) (fresh config)).flatten := by
    rw [List.flatMap_def, map_accepted]
  have conserved : run.units.flatMap AccessUnit.bytes = taken.flatMap Segment.bytes := by
    rw [bytes, all, accessUnits_bytes]
    rfl
  refine ⟨?_, all, conserved, ?_, ?_, ?_⟩
  · rw [located]
    exact done.units_eq.1
  · intro segment member
    have inside := @located_input [] (parts config.maxUnitSize chunks.flatten).2 _ segment
      (kept.subset member)
    rwa [List.nil_append, parts_bytes] at inside
  · exact (located_pairwise 0 _).sublist kept
  · intro clean complete
    rw [clean] at done
    rw [conserved, bytes, located]
    exact done.whole complete

open Assembler (accepted accessUnits accessUnits_bytes accessUnits_eq_open_iff
  takeOpen_all)

/-- The complete units that the end of the stream drops, as far as the assembler accepts them. -/
def forfeited (s : Splitter) : List (List UInt8) := accepted id (unitsOf s.cut.1) s.assembler

theorem Settled.forfeited_eq {s : Splitter} (h : Settled s) : s.forfeited = [] := by
  have waiting : s.cut = ([], s.pending) := parts_of_incomplete h.broken
  rw [forfeited, waiting]
  rfl

theorem unitsOf_nonempty {maxUnitSize : Nat} {input framed : List UInt8}
    (h : framed ∈ unitsOf (parts maxUnitSize input).1) : framed ≠ [] := by
  fun_induction parts maxUnitSize input with
  | case1 input missing cutting => cases h
  | case2 input fault rest cutting later tail split ih =>
    rw [split] at ih
    exact ih h
  | case3 input whole rest cutting later tail split ih =>
    rw [split] at ih
    rcases List.mem_cons.mp h with rfl | behind
    · obtain ⟨-, size, -, -, long⟩ := front_unit cutting
      intro empty
      rw [empty] at long
      simp only [List.length_nil, NalUnit.lengthSize] at long
      omega
    · exact ih behind

/-- What a run that goes on makes of the input which another run left pending. -/
theorem Reaches.resumed {config : SplitterConfig} {input : List UInt8} {events : List Event}
    {given units : List AccessUnit} {faults : List Fault} {s last : Splitter}
    (h : Reaches (new config) input events given s)
    (k : Completed config input units faults last) :
    units ++ last.flush.1 = given ++ s.ready ++ accessUnits (unitsOf s.cut.1) s.assembler := by
  -- The run that goes on comes past `s`, as far as handing over parts can tell.
  have worked : work (events.map Event.part) (new config) = (events, s.keeping given) :=
    h.work_eq []
  have divided : (parts config.maxUnitSize input).1 = events.map Event.part ++ s.cut.1 :=
    congrArg Prod.fst h.parts_eq
  have same : (work s.cut.1 (s.keeping given)).2 = last.keeping units := by
    have all := congrArg Prod.snd k.work_eq
    rw [divided, work_append, worked] at all
    exact all
  exact (units_of_work k.settled same).2

theorem callOnce_append (chunks more : List (List UInt8)) (s : Splitter) :
    callOnce (chunks ++ more) s =
      callOnce chunks s ++ callOnce more (final s (callOnce chunks s)) := by
  induction chunks generalizing s with
  | nil => rfl
  | cons chunk chunks ih =>
    simp only [List.cons_append, callOnce, final_cons, ih]

theorem callOnce_settled {chunks : List (List UInt8)} {s : Splitter} (start : Settled s)
    (h : ∀ attempt ∈ (callOnce chunks s).getLast?, attempt.faults = []) :
    Settled (final s (callOnce chunks s)) := by
  rcases List.eq_nil_or_concat chunks with rfl | ⟨before, chunk, rfl⟩
  · exact start
  · rw [List.concat_eq_append, callOnce_append] at h ⊢
    obtain ⟨-, -, -, settled⟩ := attempt_reaches chunk (final s (callOnce before s))
    rw [final_append]
    apply settled
    apply h
    simp [callOnce]

/-- A caller who does not go on after each fault gets all access units if and only if no unit is
forfeited at the end, misses exactly the bytes of the forfeited units, and misses nothing if the
last call succeeded. -/
theorem flush_complete_iff (config : SplitterConfig) (chunks : List (List UInt8)) :
    let once := transcriptOnce config chunks
    let through := transcript config chunks
    (once.units = through.units ↔ once.last.forfeited = []) ∧
      through.units.flatMap AccessUnit.bytes =
        once.units.flatMap AccessUnit.bytes ++ once.last.forfeited.flatten ∧
      ((∀ attempt ∈ (callOnce chunks (new config)).getLast?, attempt.faults = []) →
        once.units = through.units) := by
  intro once through
  obtain ⟨events, reached, -⟩ := callOnce_reaches chunks (new config)
  have resumed : through.units = handedOut (callOnce chunks (new config)) ++ once.last.ready ++
      accessUnits (unitsOf once.last.cut.1) once.last.assembler :=
    reached.resumed (callThrough_completed config chunks)
  have ended : once.units = handedOut (callOnce chunks (new config)) ++ once.last.ready ++
      once.last.assembler.takeOpen.1.toList := (List.append_assoc _ _ _).symm
  have exact_iff : once.units = through.units ↔ once.last.forfeited = [] := by
    rw [resumed, ended, List.append_right_inj, eq_comm]
    exact accessUnits_eq_open_iff fun _ => unitsOf_nonempty
  refine ⟨exact_iff, ?_, ?_⟩
  · have further : (accessUnits (unitsOf once.last.cut.1) once.last.assembler).flatMap
          AccessUnit.bytes =
        once.last.assembler.takeOpen.1.toList.flatMap AccessUnit.bytes ++
          once.last.forfeited.flatten := by
      rw [accessUnits_bytes, takeOpen_all]
      rfl
    rw [resumed, ended, List.flatMap_append, further, ← List.append_assoc,
      ← List.flatMap_append]
  · intro succeeded
    rw [exact_iff]
    exact (callOnce_settled (new_settled config) succeeded).forfeited_eq

/-- A bad length with a complete unit behind it, in one chunk. -/
theorem flush_forfeits_unit_behind_bad_length :
    (transcriptOnce {} [[0, 0, 0, 0, 0, 0, 0, 3, 58, 0, 128]]).units = [] ∧
      (transcriptOnce {} [[0, 0, 0, 0, 0, 0, 0, 3, 58, 0, 128]]).last.forfeited =
        [[0, 0, 0, 3, 58, 0, 128]] ∧
      (transcript {} [[0, 0, 0, 0, 0, 0, 0, 3, 58, 0, 128]]).units ≠ [] := by
  decide +kernel

end EvcStream.Splitter
