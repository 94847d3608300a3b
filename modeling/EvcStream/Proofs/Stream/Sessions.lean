import EvcStream.Proofs.Machine.Splitting
import EvcStream.Proofs.Stream.Clean
/-!
# Sessions: waiting for bytes and recovering from damage

After any calls a splitter says how many bytes it waits for, and it says so only while a part is
incomplete. A feed ends, and each failing call drops at least the bytes of a length, so that repeated
calls get behind any damage.
-/
namespace EvcStream.Splitter

open Assembler (pushAll)
open Machine.Splitter (Call answer answerAll)

def after (config : SplitterConfig) (calls : List Call) : Splitter :=
  (answerAll calls (new config)).2

/-- The parts that a call works through: those that it does not leave pending. -/
def worked (chunk : List UInt8) (s : Splitter) : List Part :=
  let all := (parts s.config.maxUnitSize (s.pending ++ chunk)).1
  all.take (all.length - (s.attempt chunk).after.cut.1.length)

/-- The access units that are ready when a call has worked through its parts: those that were
ready before, and those that the parts complete. -/
def completed (chunk : List UInt8) (s : Splitter) : List AccessUnit :=
  s.ready ++ (pushAll (unitsOf (s.worked chunk)) s.assembler).1

variable {s : Splitter} {chunk : List UInt8} {events : List Event}

theorem Reaches.worked_eq
    (h : Reaches s chunk events (s.attempt chunk).units (s.attempt chunk).after) :
    events.map Event.part = s.worked chunk := by
  have divided : (parts s.config.maxUnitSize (s.pending ++ chunk)).1 =
      events.map Event.part ++ (s.attempt chunk).after.cut.1 := congrArg Prod.fst h.parts_eq
  simp only [worked, divided, List.length_append, Nat.add_sub_cancel, List.take_left]

theorem parts_worked (chunk : List UInt8) (s : Splitter) :
    parts s.config.maxUnitSize (s.pending ++ chunk) =
      (s.worked chunk ++ (s.attempt chunk).after.cut.1, (s.attempt chunk).after.cut.2) := by
  obtain ⟨events, reached, -⟩ := attempt_reaches chunk s
  rw [← reached.worked_eq]
  exact reached.parts_eq

theorem work_worked (chunk : List UInt8) (s : Splitter) :
    (work (s.worked chunk) (s.keeping [])).2 =
      (s.attempt chunk).after.keeping (s.attempt chunk).units := by
  obtain ⟨events, reached, -⟩ := attempt_reaches chunk s
  rw [← reached.worked_eq, reached.work_eq]
  rfl

theorem attempt_config (chunk : List UInt8) (s : Splitter) :
    (s.attempt chunk).after.config = s.config := by
  obtain ⟨events, reached, -⟩ := attempt_reaches chunk s
  exact reached.config_eq

/-- The input is what a call works through, and what it leaves pending. -/
theorem worked_bytes (chunk : List UInt8) (s : Splitter) :
    (s.worked chunk).flatMap Part.bytes ++ (s.attempt chunk).after.pending =
      s.pending ++ chunk := by
  have input := parts_bytes s.config.maxUnitSize (s.pending ++ chunk)
  have later := parts_bytes (s.attempt chunk).after.config.maxUnitSize
    (s.attempt chunk).after.pending
  rw [parts_worked, List.flatMap_append, List.append_assoc] at input
  rw [← input]
  exact congrArg _ later.symm

theorem attempt_ready (chunk : List UInt8) (s : Splitter) :
    (s.attempt chunk).units ++ (s.attempt chunk).after.ready = s.completed chunk := by
  have ready := (work_pushAll (s.worked chunk) (s.keeping [])).2
  rw [work_worked] at ready
  exact ready

theorem feed_eq_attempt (chunk : List UInt8) (s : Splitter) :
    s.feed chunk = match (s.attempt chunk).outcome with
      | .ok progress => .ok progress (s.attempt chunk).after
      | .error fault => .error fault (s.attempt chunk).after := by
  unfold attempt
  cases s.feed chunk <;> rfl

theorem feed_of_attempt {progress : Progress}
    (succeeded : (s.attempt chunk).outcome = .ok progress) :
    s.feed chunk = .ok progress (s.attempt chunk).after := by
  rw [feed_eq_attempt, succeeded]

theorem fault_of_attempt {fault : Fault} (failed : (s.attempt chunk).outcome = .error fault) :
    s.feed chunk = .error fault (s.attempt chunk).after := by
  rw [feed_eq_attempt, failed]

theorem answer_feed (chunk : List UInt8) (s : Splitter) :
    (answer s (.feed chunk)).2 = (s.attempt chunk).after := by
  unfold answer attempt
  dsimp only
  cases s.feed chunk <;> rfl

theorem answer_config (s : Splitter) (call : Call) : (answer s call).2.config = s.config := by
  cases call with
  | feed chunk =>
    rw [answer_feed]
    exact attempt_config chunk s
  | flush => rfl
  | reset => rfl

theorem answerAll_config (calls : List Call) (s : Splitter) :
    (answerAll calls s).2.config = s.config := by
  induction calls generalizing s with
  | nil => rfl
  | cons call calls ih => exact (ih (answer s call).2).trans (answer_config s call)

theorem after_config (config : SplitterConfig) (calls : List Call) :
    (after config calls).config = config :=
  answerAll_config calls (new config)

def announced (input : List UInt8) : Nat :=
  BigEndian.decode (input.take NalUnit.lengthSize)

/-- How many bytes the input lacks of what it breaks off in. -/
inductive Lacks (maxUnitSize : Nat) : List UInt8 → Nat → Prop
  | nothing : Lacks maxUnitSize [] 0
  | length {input : List UInt8} (started : input ≠ []) (short : input.length < NalUnit.lengthSize) :
      Lacks maxUnitSize input (NalUnit.lengthSize - input.length)
  | unit {input : List UInt8} (long : NalUnit.lengthSize ≤ input.length)
      (positive : 1 ≤ announced input) (small : announced input ≤ maxUnitSize)
      (short : input.length < NalUnit.lengthSize + announced input) :
      Lacks maxUnitSize input (NalUnit.lengthSize + announced input - input.length)

variable {maxUnitSize missing : Nat} {input more : List UInt8}

theorem length_eq_announced (long : NalUnit.lengthSize ≤ input.length) :
    NalUnit.length input =
      if announced input = 0 then .error .lengthZero else .ok (announced input) := by
  have whole : cut? NalUnit.lengthSize input =
      some (input.take NalUnit.lengthSize, input.drop NalUnit.lengthSize) :=
    cut?_eq_some_iff.mpr ⟨List.length_take_of_le long, (List.take_append_drop _ _).symm⟩
  rw [NalUnit.length, whole]
  rfl

theorem announced_append (long : NalUnit.lengthSize ≤ input.length) (more : List UInt8) :
    announced (input ++ more) = announced input :=
  congrArg BigEndian.decode (List.take_append_of_le_length long)

theorem Lacks.front_eq (lacks : Lacks maxUnitSize input missing) :
    front maxUnitSize input = .incomplete missing := by
  cases lacks with
  | nothing => rfl
  | length started short =>
    have nonempty : input.isEmpty = false := List.isEmpty_eq_false_iff.mpr started
    simp [front_of_short short, nonempty]
  | unit long positive small short =>
    have counted : NalUnit.length input = .ok (announced input) := by
      rw [length_eq_announced long, if_neg (by omega)]
    rw [front_of_long long, counted]
    simp only [Nat.not_lt.mpr small, if_false, cut?_eq_none_iff.mpr short]

theorem lacks_of_front (broken : front maxUnitSize input = .incomplete missing) :
    Lacks maxUnitSize input missing := by
  rcases Nat.lt_or_ge input.length NalUnit.lengthSize with short | long
  · rw [front_of_short short, Front.incomplete.injEq] at broken
    by_cases empty : input = []
    · subst empty
      cases broken
      exact .nothing
    · rw [if_neg (mt List.isEmpty_iff.mp empty)] at broken
      subst broken
      exact .length empty short
  · rw [front_of_long long, length_eq_announced long] at broken
    by_cases zero : announced input = 0
    · simp [zero] at broken
    · by_cases large : maxUnitSize < announced input
      · simp [zero, large] at broken
      · cases cutting : cut? (NalUnit.lengthSize + announced input) input with
        | some found => simp [zero, large, cutting] at broken
        | none =>
          simp only [zero, large, cutting, if_false, Front.incomplete.injEq] at broken
          subst broken
          exact .unit long (Nat.one_le_iff_ne_zero.mpr zero) (Nat.not_lt.mp large)
            (cut?_eq_none_iff.mp cutting)

theorem Lacks.append (lacks : Lacks maxUnitSize input missing) (few : more.length < missing) :
    Lacks maxUnitSize (input ++ more) (missing - more.length) := by
  cases lacks with
  | nothing => exact absurd few (Nat.not_lt_zero _)
  | length started short =>
    have left : NalUnit.lengthSize - input.length - more.length =
        NalUnit.lengthSize - (input ++ more).length := by
      rw [List.length_append, Nat.sub_sub]
    rw [left]
    apply Lacks.length
    · intro empty
      exact started (List.append_eq_nil_iff.mp empty).1
    · rw [List.length_append]
      omega
  | unit long positive small short =>
    have same := announced_append long more
    have left : NalUnit.lengthSize + announced input - input.length - more.length =
        NalUnit.lengthSize + announced (input ++ more) - (input ++ more).length := by
      rw [same, List.length_append, Nat.sub_sub]
    rw [left]
    apply Lacks.unit
    · rw [List.length_append]
      omega
    · rwa [same]
    · rwa [same]
    · rw [same, List.length_append]
      omega

theorem Lacks.eq_zero_iff (lacks : Lacks maxUnitSize input missing) :
    missing = 0 ↔ input = [] := by
  cases lacks with
  | nothing => exact ⟨fun _ => rfl, fun _ => rfl⟩
  | length started short =>
    constructor
    · intro none
      omega
    · intro empty
      exact absurd empty started
  | unit long positive small short =>
    constructor
    · intro none
      omega
    · rintro rfl
      cases long

theorem Lacks.in_length (lacks : Lacks maxUnitSize input missing) (started : input ≠ [])
    (short : input.length < NalUnit.lengthSize) :
    input.length + missing = NalUnit.lengthSize := by
  cases lacks with
  | nothing => exact absurd rfl started
  | length => omega
  | unit long => omega

theorem Lacks.in_unit (lacks : Lacks maxUnitSize input missing)
    (long : NalUnit.lengthSize ≤ input.length) :
    1 ≤ announced input ∧ announced input ≤ maxUnitSize ∧
      input.length + missing = NalUnit.lengthSize + announced input := by
  cases lacks with
  | nothing => cases long
  | length started short => omega
  | unit _ positive small short => exact ⟨positive, small, by omega⟩

theorem Lacks.length_le (lacks : Lacks maxUnitSize input missing) :
    input.length ≤ NalUnit.lengthSize + maxUnitSize - 1 := by
  unfold NalUnit.lengthSize at *
  cases lacks with
  | nothing => exact Nat.zero_le _
  | length started short =>
    unfold NalUnit.lengthSize at short
    omega
  | unit long positive small short =>
    unfold NalUnit.lengthSize at short
    omega

variable {s t : Splitter} {chunk : List UInt8} {progress : Progress}

theorem Settled.lacks (settled : Settled s) : Lacks s.config.maxUnitSize s.pending s.missing :=
  lacks_of_front settled.broken

/-- A call that brings too little only counts what it brings. -/
theorem Settled.feed_few (settled : Settled s) (few : more.length < s.missing) :
    s.feed more = .ok .needMoreData
      { s with pending := s.pending ++ more, missing := s.missing - more.length } := by
  have broken : front s.config.maxUnitSize (s.pending ++ more) =
      .incomplete (s.missing - more.length) := (settled.lacks.append few).front_eq
  have drained : drain { s with pending := s.pending ++ more } = .ok ()
      { s with pending := s.pending ++ more, missing := s.missing - more.length } := by
    rw [drain]
    split
    · next found =>
      cases broken.symm.trans found
      rfl
    · next found => cases broken.symm.trans found
    · next found => cases broken.symm.trans found
  have still : 0 < s.missing - more.length := Nat.sub_pos_of_lt few
  have waiting : (s.ready.isEmpty && 0 < s.missing - more.length) = true := by
    simp [settled.empty, still]
  rw [feed, drained]
  exact if_pos waiting

theorem needMoreData_iff (fed : s.feed chunk = .ok progress t) :
    progress = .needMoreData ↔ Progress.units progress = [] ∧ 0 < t.missing := by
  unfold feed at fed
  split at fed
  · cases fed
  · next u _ =>
    split at fed
    · next waiting =>
      cases fed
      rw [Bool.and_eq_true, decide_eq_true_eq] at waiting
      exact ⟨fun _ => ⟨rfl, waiting.2⟩, fun _ => rfl⟩
    · next waiting =>
      cases fed
      constructor
      · intro same
        cases same
      · rintro ⟨empty, missing⟩
        change u.ready = [] at empty
        change 0 < u.missing at missing
        simp [empty, missing] at waiting

/-- After any calls, a call that succeeds says that more data is needed if and only if no access
unit is ready and something is missing. Nothing is missing exactly if nothing is pending. Otherwise
what is pending and what is missing make up a length, or a length and the unit that it announces, of
an admissible size. A chunk that brings less than is missing is only added to what is pending. -/
theorem waiting_exact (config : SplitterConfig) (calls : List Call)
    (fed : (after config calls).feed chunk = .ok progress t) :
    Progress.units progress = (after config calls).completed chunk ∧
      (progress = .needMoreData ↔ (after config calls).completed chunk = [] ∧ 0 < t.missing) ∧
      (t.missing = 0 ↔ t.pending = []) ∧
      (t.pending ≠ [] → t.pending.length < 4 → t.pending.length + t.missing = 4) ∧
      (4 ≤ t.pending.length → 1 ≤ announced t.pending ∧
        announced t.pending ≤ config.maxUnitSize ∧
        t.pending.length + t.missing = 4 + announced t.pending) ∧
      t.pending.length ≤ 4 + config.maxUnitSize - 1 ∧
      ∀ more, more.length < t.missing → t.feed more = .ok .needMoreData
        { t with pending := t.pending ++ more, missing := t.missing - more.length } := by
  obtain ⟨events, reached, -, settled⟩ := attempt_reaches chunk (after config calls)
  have given := attempt_ready chunk (after config calls)
  rw [attempt_of_feed fed] at reached given settled
  have settled : Settled t := settled rfl
  have ready : Progress.units progress = (after config calls).completed chunk := by
    rw [← given, settled.empty, List.append_nil]
    rfl
  have lacks := settled.lacks
  rw [reached.config_eq, after_config] at lacks
  have answer := needMoreData_iff fed
  rw [ready] at answer
  exact ⟨ready, answer, lacks.eq_zero_iff, lacks.in_length, lacks.in_unit, lacks.length_le,
    fun _ => settled.feed_few⟩

/-- A bad length, the end of a stream, and then a unit with the start of another one behind it,
which needs two more bytes. -/
theorem waiting_exact_in_unit :
    let config : SplitterConfig := { maxUnitSize := 3 }
    let calls : List Call := [.feed [0, 0, 0, 0, 0, 0, 0, 3, 58], .flush]
    let t := ((after config calls).attempt [0, 0, 0, 3, 58, 0, 128, 0, 0, 0, 3, 58]).after
    (after config calls).feed [0, 0, 0, 3, 58, 0, 128, 0, 0, 0, 3, 58] = .ok .needMoreData t ∧
      t.pending.length + t.missing = 4 + announced t.pending ∧
      t.feed [0] = .ok .needMoreData
        { t with pending := t.pending ++ [0], missing := t.missing - 1 } := by
  intro config calls t
  have fed : (after config calls).feed [0, 0, 0, 3, 58, 0, 128, 0, 0, 0, 3, 58] =
      .ok .needMoreData t := feed_of_attempt (by decide +kernel)
  obtain ⟨-, -, -, -, unit, -, few⟩ := waiting_exact config calls fed
  have pending : 4 ≤ t.pending.length ∧ [(0 : UInt8)].length < t.missing := by decide +kernel
  exact ⟨fed, (unit pending.1).2.2, few [0] pending.2⟩

/-- Works through the input in at most so many rounds, each of which begins with a front. -/
def drainWithin : Nat → Splitter → Option (EStateM.Result Fault Splitter Unit)
  | 0, _ => none
  | rounds + 1, s =>
    match front s.config.maxUnitSize s.pending with
    | .incomplete missing => some (.ok () { s with missing })
    | .badLength fault pending => some (.error fault { s with pending, missing := 0 })
    | .unit framed pending =>
      match accept { s with pending, missing := 0 } framed with
      | .error fault t => some (.error fault t)
      | .ok () t => drainWithin rounds t

def feedWithin (rounds : Nat) (chunk : List UInt8) (s : Splitter) :
    Option (EStateM.Result Fault Splitter Progress) :=
  (drainWithin rounds { s with pending := s.pending ++ chunk }).map fun
    | .error fault s => .error fault s
    | .ok () s =>
      if s.ready.isEmpty && 0 < s.missing then .ok .needMoreData s
      else .ok (.accessUnits s.ready) { s with ready := [] }

variable {s t : Splitter} {chunk : List UInt8} {fault : Fault}

/-- A round that is followed by another one has taken a length and more out of the input. -/
theorem drainWithin_eq {rounds : Nat} (enough : s.pending.length / 4 ≤ rounds) :
    drainWithin (rounds + 1) s = some s.drain := by
  fun_induction drain s generalizing rounds with
  | case1 s missing cutting => simp only [drainWithin, cutting]
  | case2 s found pending cutting => simp only [drainWithin, cutting]
  | case3 s framed pending cutting found u refused => simp only [drainWithin, cutting, refused]
  | case4 s framed pending cutting u accepted ih =>
    have shorter := front_unit_length cutting
    have kept : u.pending = pending := accept_pending accepted
    unfold NalUnit.lengthSize at shorter
    obtain ⟨later, rfl⟩ : ∃ later, rounds = later + 1 :=
      Nat.exists_eq_add_one_of_ne_zero (by omega)
    rw [drainWithin, cutting]
    dsimp only
    rw [accepted]
    apply ih
    rw [kept]
    omega

theorem feedWithin_eq (chunk : List UInt8) (s : Splitter) :
    feedWithin ((s.pending ++ chunk).length / 4 + 1) chunk s = some (s.feed chunk) := by
  have drained := drainWithin_eq (s := { s with pending := s.pending ++ chunk }) (Nat.le_refl _)
  rw [feedWithin, drained, feed]
  cases drain { s with pending := s.pending ++ chunk } with
  | error fault t => rfl
  | ok done t => rfl

theorem attempt_of_fault (failed : s.feed chunk = .error fault t) :
    s.attempt chunk = { outcome := .error fault, after := t } := by
  rw [attempt, failed]

/-- To go on after each fault is to call again without new input, as often as calls fail. -/
theorem attempts_eq (chunk : List UInt8) (s : Splitter) :
    ∃ failing last, s.attempts chunk = failing ++ [last] ∧
      callOnce (chunk :: List.replicate failing.length []) s = failing ++ [last] ∧
      (∀ attempt ∈ failing, ∃ fault, attempt.outcome = .error fault) ∧
      (∃ progress, last.outcome = .ok progress) ∧
      NalUnit.lengthSize * failing.length ≤ (s.pending ++ chunk).length := by
  fun_induction attempts chunk s with
  | case1 chunk s progress t fed =>
    refine ⟨[], _, rfl, ?_, ?_, ⟨progress, rfl⟩, Nat.zero_le _⟩
    · simp [callOnce, attempt_of_feed fed]
    · intro attempt absent
      cases absent
  | case2 chunk s fault t failed shorter ih =>
    obtain ⟨failing, last, all, calls, faults, succeeded, few⟩ := ih
    refine ⟨{ outcome := .error fault, after := t } :: failing, last, ?_, ?_, ?_, succeeded, ?_⟩
    · rw [all, List.cons_append]
    · rw [List.length_cons, List.replicate_succ, callOnce, attempt_of_fault failed, calls,
        List.cons_append]
    · exact List.forall_mem_cons.mpr ⟨⟨fault, rfl⟩, faults⟩
    · rw [List.append_nil] at few
      rw [List.length_append, List.length_cons, Nat.mul_succ]
      omega

/-- The call that succeeds hands out everything, what was ready before the first call first. -/
theorem handedOut_attempts (chunk : List UInt8) (s : Splitter) :
    handedOut (s.attempts chunk) = s.ready ++
      (pushAll (unitsOf (parts s.config.maxUnitSize (s.pending ++ chunk)).1) s.assembler).1 := by
  obtain ⟨events, reached, -, settled⟩ := attempts_reaches chunk s
  have waiting : (final s (s.attempts chunk)).cut = ([], (final s (s.attempts chunk)).pending) :=
    parts_of_incomplete settled.broken
  have all := congrArg Prod.fst reached.parts_eq
  rw [waiting, List.append_nil] at all
  have worked : work (events.map Event.part) (s.keeping []) = _ := reached.work_eq []
  have ready := (work_pushAll (events.map Event.part) (s.keeping [])).2
  rw [worked] at ready
  simp only [keeping, settled.empty, List.nil_append, List.append_nil] at ready
  rw [ready, all]

/-- Each call ends. One that fails leaves the end of the input pending, shorter by a length or more,
and keeps what is ready, in order. Calls that bring nothing new succeed after no more failing ones
than a quarter of the bytes, and all access units come with the one that succeeds. -/
theorem recovery_progresses (s : Splitter) (chunk : List UInt8) :
    let input := s.pending ++ chunk
    feedWithin (input.length / 4 + 1) chunk s = some (s.feed chunk) ∧
      (∀ fault t, s.feed chunk = .error fault t →
        t.pending <:+ input ∧ t.pending.length + 4 ≤ input.length ∧
          t.ready = s.ready ++ (pushAll (unitsOf (s.worked chunk)) s.assembler).1 ∧
          input = (s.worked chunk).flatMap Part.bytes ++ t.pending) ∧
      ∃ failing last, callOnce (chunk :: List.replicate failing.length []) s = failing ++ [last] ∧
        (∀ attempt ∈ failing, ∃ fault, attempt.outcome = .error fault) ∧
        (∃ progress, last.outcome = .ok progress) ∧
        failing.length ≤ input.length / 4 ∧
        last.units =
          s.ready ++ (pushAll (unitsOf (parts s.config.maxUnitSize input).1) s.assembler).1 := by
  intro input
  refine ⟨feedWithin_eq chunk s, ?_, ?_⟩
  · intro fault t failed
    have bytes := worked_bytes chunk s
    have ready := attempt_ready chunk s
    have shorter := feed_fault_length failed
    rw [attempt_of_fault failed] at bytes ready
    refine ⟨⟨_, bytes⟩, ?_, ready, bytes.symm⟩
    rw [List.length_append]
    exact shorter
  · obtain ⟨failing, last, all, calls, faults, succeeded, few⟩ := attempts_eq chunk s
    refine ⟨failing, last, calls, faults, succeeded, ?_, ?_⟩
    · apply (Nat.le_div_iff_mul_le (by decide)).mpr
      rw [Nat.mul_comm]
      exact few
    · have given := handedOut_attempts chunk s
      have none : handedOut failing = [] := by
        apply List.flatMap_eq_nil_iff.mpr
        intro attempt member
        obtain ⟨fault, failed⟩ := faults attempt member
        rw [Attempt.units, failed]
      rw [all, handedOut_append, none] at given
      simpa using given

/-- An access unit, a bad length, and a slice whose parameter set nobody has seen: the access unit
comes with the call behind both faults. -/
theorem recovery_progresses_twice :
    let s := new { initialCapacity := 4 }
    let chunk : List UInt8 := [0, 0, 0, 20, 50, 0, 128, 15, 0, 0, 0, 0, 0, 0, 0, 0, 32, 11, 8, 4,
      135, 0, 3, 136, 0, 0, 0, 4, 52, 0, 251, 4, 0, 0, 0, 3, 4, 0, 180, 0, 0, 0, 0, 0, 0, 0, 3, 2,
      0, 90]
    let t := (s.attempt chunk).after
    s.feed chunk = .error .lengthZero t ∧ t.pending.length + 4 ≤ chunk.length ∧
      t.ready.length = 1 ∧
      ∃ failing last, callOnce (chunk :: List.replicate failing.length []) s = failing ++ [last] ∧
        failing.length ≤ 12 ∧ last.units = t.ready := by
  intro s chunk t
  have failed : s.feed chunk = .error .lengthZero t := fault_of_attempt (by decide +kernel)
  obtain ⟨-, each, failing, last, calls, -, -, few, all⟩ := recovery_progresses s chunk
  obtain ⟨-, shorter, ready, -⟩ := each .lengthZero t failed
  have one : t.ready.length = 1 ∧
      t.ready = s.ready ++ (pushAll (unitsOf (parts s.config.maxUnitSize chunk).1)
        s.assembler).1 := by
    decide +kernel
  have bound : (s.pending ++ chunk).length / 4 ≤ 12 := by decide +kernel
  exact ⟨failed, shorter, one.1, failing, last, calls, few.trans bound, all.trans one.2.symm⟩

end EvcStream.Splitter
