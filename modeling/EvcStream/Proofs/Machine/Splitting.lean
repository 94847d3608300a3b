import EvcStream.Proofs.Machine.Records
import EvcStream.Proofs.Stream.Parts
/-!
# Splitting on a machine, and safety of the whole

The splitter with its buffer operations, then all that a caller can ask of the program. Within the
sizes that a machine can address nothing panics, and everything gives what the program gives.
-/
namespace EvcStream.Machine

def summaryOf (sps : SequenceParameterSet) : Checked StreamSummary := do
  let bitDepthLuma ← word 8 (sps.format.bitDepthLumaMinus8 + 8)
  let bitDepthChroma ← word 8 (sps.format.bitDepthChromaMinus8 + 8)
  let gopSize ← shl 32 1 sps.subGop.log2Length
  return { StreamSummary.ofSps sps with bitDepthLuma, bitDepthChroma, gopSize }

def summarize : Option SequenceParameterSet → Checked (Option StreamSummary)
  | none => return none
  | some sps => return some (← summaryOf sps)

section
variable {sps : SequenceParameterSet} {store : ParameterStore}

theorem summaryOf_eq (valid : sps.WellFormed) : summaryOf sps = .ok (StreamSummary.ofSps sps) := by
  have luma := valid.format.bitDepthLumaMinus8
  have chroma := valid.format.bitDepthChromaMinus8
  have short := valid.bounded.subGop
  have small : 2 ^ sps.subGop.log2Length ≤ 2 ^ SubGop.maxLog2Length :=
    Nat.pow_le_pow_right Nat.two_pos short
  have bound : 2 ^ SubGop.maxLog2Length < 2 ^ 32 := by decide
  unfold summaryOf
  rw [word_eq (by omega), ok_bind, word_eq (by omega), ok_bind,
    shl_eq_of_lt (Nat.lt_of_le_of_lt short (by decide)) (by omega), ok_bind, Nat.one_mul]
  rfl

theorem wellFormed_of_reachable (reachable : store.Reachable) :
    ∀ id sps, store.sequences.find? id = some sps → sps.WellFormed := by
  induction reachable with
  | empty => exact fun _ _ found => nomatch found
  | addSequence _ added valid =>
    obtain ⟨read, rfl⟩ := ParameterStore.stored_of_ok added
    obtain ⟨-, s, read⟩ := NalUnit.require_read_ok read
    intro id stored found
    rw [IdTable.find?_insert] at found
    split at found
    · cases found
      exact (SequenceParameterSet.decode_exact _ _ _ read).1
    · exact valid id stored found
  | addPicture _ added valid =>
    obtain ⟨-, rfl⟩ := ParameterStore.stored_of_ok added
    exact valid
  | addSlice _ added valid =>
    obtain ⟨-, rfl⟩ := ParameterStore.stored_of_ok added
    exact valid

theorem summarize_eq {a : EvcStream.Assembler} (sane : Sane a) :
    summarize a.lastSps = .ok (a.lastSps.map StreamSummary.ofSps) := by
  unfold EvcStream.Assembler.lastSps
  cases a.lastSpsId with
  | none => rfl
  | some id =>
    cases found : a.store.sequences.find? id with
    | none =>
      simp only [Option.bind_eq_bind, Option.bind_some, found]
      rfl
    | some sps =>
      simp only [Option.bind_eq_bind, Option.bind_some, found, Option.map_some]
      rw [summarize, summaryOf_eq (wellFormed_of_reachable sane.store id sps found)]
      rfl

end

namespace Splitter

open EvcStream.Splitter (Front)

def front (maxUnitSize : Nat) (pending : List UInt8) : Checked Front :=
  if pending.length < NalUnit.lengthSize then
    if pending.isEmpty then return .incomplete 0
    else do return .incomplete (← minus NalUnit.lengthSize pending.length)
  else do
    match ← length pending with
    | .error fault => return .badLength fault (← advance NalUnit.lengthSize pending)
    | .ok size =>
      if maxUnitSize < size then
        let rest ← advance NalUnit.lengthSize pending
        return .badLength (.unitExceedsLimit size maxUnitSize) rest
      else
        let total ← word 64 (NalUnit.lengthSize + size)
        if pending.length < total then return .incomplete (← minus total pending.length)
        else
          let (framed, rest) ← splitTo total pending
          return .unit framed rest

theorem front_eq (maxUnitSize : Nat) (pending : List UInt8) :
    front maxUnitSize pending = .ok (EvcStream.Splitter.front maxUnitSize pending) := by
  unfold front
  by_cases short : pending.length < NalUnit.lengthSize
  · rw [if_pos short, EvcStream.Splitter.front_of_short short, minus_eq (Nat.le_of_lt short)]
    split <;> rfl
  have long := Nat.le_of_not_lt short
  rw [if_neg short, EvcStream.Splitter.front_of_long long, length_eq, ok_bind]
  cases counted : NalUnit.length pending with
  | error fault =>
    dsimp only
    rw [advance_eq long]
    rfl
  | ok size =>
    have small := NalUnit.length_lt counted
    dsimp only
    by_cases large : maxUnitSize < size
    · rw [if_pos large, if_pos large, advance_eq long]
      rfl
    have total : word 64 (NalUnit.lengthSize + size) = .ok (NalUnit.lengthSize + size) :=
      word_eq (by unfold NalUnit.lengthSize; omega)
    rw [if_neg large, if_neg large, total, ok_bind]
    by_cases incomplete : pending.length < NalUnit.lengthSize + size
    · rw [if_pos incomplete, cut?_eq_none_iff.mpr incomplete, minus_eq (Nat.le_of_lt incomplete)]
      rfl
    · have complete := Nat.le_of_not_lt incomplete
      have cutting : cut? (NalUnit.lengthSize + size) pending =
          some (pending.take (NalUnit.lengthSize + size),
            pending.drop (NalUnit.lengthSize + size)) :=
        cut?_eq_some_iff.mpr
          ⟨List.length_take_of_le complete, (List.take_append_drop _ _).symm⟩
      rw [if_neg incomplete, cutting, splitTo_eq complete]
      rfl

def accept (s : Splitter) (framed : List UInt8) :
    Checked (EStateM.Result Fault Splitter Unit) := do
  match ← header (← slice framed NalUnit.lengthSize framed.length) with
  | .error fault => return .error fault s
  | .ok header =>
    match ← Assembler.push framed s.assembler with
    | .error fault assembler => return .error fault { s with assembler }
    | .ok closed assembler =>
      let summary ← if header.type = .sps then summarize assembler.lastSps else pure s.summary
      return .ok () { s with assembler, summary, ready := s.ready ++ closed.toList }

/-- What a splitter has to be like, which was given so many bytes. -/
structure Sound (total : Nat) (s : EvcStream.Splitter) : Prop where
  assembler : Sane s.assembler
  size : s.assembler.buffer.length + s.pending.length ≤ total
  allocatable : max s.config.initialCapacity 1 ≤ maxAllocation

def behind {α : Type} : EStateM.Result Fault EvcStream.Splitter α → EvcStream.Splitter
  | .ok _ s => s
  | .error _ s => s

section
variable {total : Nat} {s t : EvcStream.Splitter} {framed : List UInt8}

theorem Sound.mono {more : Nat} (sound : Sound total s) (le : total ≤ more) : Sound more s :=
  ⟨sound.assembler, Nat.le_trans sound.size le, sound.allocatable⟩

theorem accept_eq (sane : Sane s.assembler) (long : NalUnit.lengthSize ≤ framed.length)
    (small : s.assembler.buffer.length + framed.length < 2 ^ 32) :
    accept s framed = .ok (s.accept framed) := by
  unfold accept EvcStream.Splitter.accept
  rw [slice_behind long, ok_bind, header_eq, ok_bind]
  cases NalUnitHeader.decode (framed.drop NalUnit.lengthSize) with
  | error fault => rfl
  | ok header =>
  dsimp only
  rw [Assembler.push_eq sane small, ok_bind]
  cases pushed : EvcStream.Assembler.push framed s.assembler with
  | error fault assembler => rfl
  | ok closed assembler =>
  have sane := sane.of_effect (EvcStream.Assembler.push_ok_effect pushed)
  dsimp only
  by_cases sps : header.type = .sps
  · rw [if_pos sps, if_pos sps, summarize_eq sane]
    rfl
  · rw [if_neg sps, if_neg sps]
    rfl

theorem Sound.accept (sane : Sane s.assembler)
    (size : s.assembler.buffer.length + framed.length + s.pending.length ≤ total)
    (allocatable : max s.config.initialCapacity 1 ≤ maxAllocation) :
    Sound total (behind (s.accept framed)) := by
  unfold EvcStream.Splitter.accept
  split
  · refine ⟨sane, ?_, allocatable⟩
    change s.assembler.buffer.length + s.pending.length ≤ total
    omega
  split
  · next assembler pushed =>
    have same := push_fault_length pushed
    refine ⟨sane.of_effect (EvcStream.Assembler.push_fault_effect pushed), ?_, allocatable⟩
    change assembler.buffer.length + s.pending.length ≤ total
    omega
  · next assembler pushed =>
    have more := push_ok_length pushed
    refine ⟨sane.of_effect (EvcStream.Assembler.push_ok_effect pushed), ?_, allocatable⟩
    change assembler.buffer.length + s.pending.length ≤ total
    omega

theorem accept_pending (accepted : accept s framed = .ok (.ok () t)) : t.pending = s.pending := by
  obtain ⟨part, -, accepted⟩ := bind_ok accepted
  obtain ⟨decoded, -, accepted⟩ := bind_ok accepted
  cases decoded with
  | error fault => cases accepted
  | ok header =>
  obtain ⟨pushed, -, accepted⟩ := bind_ok accepted
  cases pushed with
  | error fault assembler => cases accepted
  | ok closed assembler =>
  dsimp only at accepted
  split at accepted
  all_goals
    obtain ⟨summary, -, accepted⟩ := bind_ok accepted
    cases accepted
    rfl

end

def drain (s : Splitter) : Checked (EStateM.Result Fault Splitter Unit) :=
  match _ : front s.config.maxUnitSize s.pending with
  | .error panic => .error panic
  | .ok (.incomplete missing) => .ok (.ok () { s with missing })
  | .ok (.badLength fault pending) => .ok (.error fault { s with pending, missing := 0 })
  | .ok (.unit framed pending) =>
    match _ : accept { s with pending, missing := 0 } framed with
    | .error panic => .error panic
    | .ok (.error fault s) => .ok (.error fault s)
    | .ok (.ok () t) => drain t
termination_by s.pending.length
decreasing_by
  rename_i cutting accepted
  rw [front_eq] at cutting
  have := EvcStream.Splitter.front_unit_length (Except.ok.inj cutting)
  unfold NalUnit.lengthSize at this
  rw [accept_pending accepted]
  dsimp only
  omega

section
variable {total : Nat} {s t : EvcStream.Splitter} {framed rest : List UInt8}

theorem accept_front (sound : Sound total s) (small : total < 2 ^ 32)
    (cutting : EvcStream.Splitter.front s.config.maxUnitSize s.pending = .unit framed rest) :
    accept { s with pending := rest, missing := 0 } framed =
        .ok (EvcStream.Splitter.accept { s with pending := rest, missing := 0 } framed) ∧
      Sound total
        (behind (EvcStream.Splitter.accept { s with pending := rest, missing := 0 } framed)) := by
  obtain ⟨whole, unitSize, -, -, long⟩ := EvcStream.Splitter.front_unit cutting
  have length := congrArg List.length whole
  have size := sound.size
  rw [List.length_append] at length
  constructor
  · exact accept_eq sound.assembler (by omega) (by dsimp only; omega)
  · exact .accept sound.assembler (by dsimp only; omega) sound.allocatable

theorem drain_step (s : EvcStream.Splitter) :
    drain s = (match EvcStream.Splitter.front s.config.maxUnitSize s.pending with
      | .incomplete missing => .ok (.ok () { s with missing })
      | .badLength fault pending => .ok (.error fault { s with pending, missing := 0 })
      | .unit framed pending => do
        match ← accept { s with pending, missing := 0 } framed with
        | .error fault s => return .error fault s
        | .ok () t => drain t) := by
  have known := front_eq s.config.maxUnitSize s.pending
  rw [drain]
  split
  · next found => exact nomatch known.symm.trans found
  · next found => rw [Except.ok.inj (known.symm.trans found)]
  · next found => rw [Except.ok.inj (known.symm.trans found)]
  · next found =>
    rw [Except.ok.inj (known.symm.trans found)]
    dsimp only
    split
    all_goals
      next done =>
      rw [done]
      rfl

/-- The induction is on the input that is left, whose front is gone with every unit. -/
theorem drain_eq (sound : Sound total s) (small : total < 2 ^ 32) :
    drain s = .ok s.drain ∧ Sound total (behind s.drain) := by
  fun_induction EvcStream.Splitter.drain s with
  | case1 s missing broken =>
    rw [drain_step, broken]
    exact ⟨rfl, sound.assembler, sound.size, sound.allocatable⟩
  | case2 s fault pending cutting =>
    have shorter := EvcStream.Splitter.front_badLength_length cutting
    have size := sound.size
    rw [drain_step, cutting]
    refine ⟨rfl, sound.assembler, ?_, sound.allocatable⟩
    change s.assembler.buffer.length + pending.length ≤ total
    omega
  | case3 s framed pending cutting fault t rejected =>
    obtain ⟨accepts, kept⟩ := accept_front sound small cutting
    rw [rejected] at accepts kept
    rw [drain_step, cutting]
    dsimp only
    rw [accepts]
    exact ⟨rfl, kept⟩
  | case4 s framed pending cutting t accepted ih =>
    obtain ⟨accepts, kept⟩ := accept_front sound small cutting
    rw [accepted] at accepts kept
    rw [drain_step, cutting]
    dsimp only
    rw [accepts]
    exact ih kept

end

def new (config : SplitterConfig) : Checked Splitter := do
  allocate (max config.initialCapacity 1)
  return .new config

def feed (chunk : List UInt8) (s : Splitter) :
    Checked (EStateM.Result Fault Splitter Progress) := do
  allocate (← word 64 (s.pending.length + chunk.length))
  match ← drain { s with pending := s.pending ++ chunk } with
  | .error fault s => return .error fault s
  | .ok () s =>
    if s.ready.isEmpty && 0 < s.missing then return .ok .needMoreData s
    else return .ok (.accessUnits s.ready) { s with ready := [] }

def flush (s : Splitter) : Checked (List AccessUnit × Splitter) := do
  let (last, assembler) ← Assembler.takeOpen s.assembler
  return (s.ready ++ last.toList,
    { s with
      assembler
      pending := []
      missing := if s.pending.isEmpty then s.missing else 0
      ready := [] })

inductive Call where
  | feed (chunk : List UInt8)
  | flush
  | reset
  deriving DecidableEq, Repr

inductive Reply where
  | progress (outcome : Except Fault Progress)
  | accessUnits (units : List AccessUnit)
  | done

def Call.size : Call → Nat
  | .feed chunk => chunk.length
  | .flush | .reset => 0

def perform (s : Splitter) : Call → Checked (Reply × Splitter)
  | .feed chunk => do
    match ← feed chunk s with
    | .ok progress s => return (.progress (.ok progress), s)
    | .error fault s => return (.progress (.error fault), s)
  | .flush => do
    let (units, s) ← flush s
    return (.accessUnits units, s)
  | .reset => do return (.done, ← new s.config)

def performAll : List Call → Splitter → Checked (List Reply × Splitter)
  | [], s => return ([], s)
  | call :: calls, s => do
    let (reply, s) ← perform s call
    let (replies, s) ← performAll calls s
    return (reply :: replies, s)

def session (config : SplitterConfig) (calls : List Call) : Checked (List Reply × Splitter) := do
  performAll calls (← new config)

/-- What a call should lead to. -/
def answer (s : EvcStream.Splitter) : Call → Reply × EvcStream.Splitter
  | .feed chunk =>
    match s.feed chunk with
    | .ok progress s => (.progress (.ok progress), s)
    | .error fault s => (.progress (.error fault), s)
  | .flush => (.accessUnits s.flush.1, s.flush.2)
  | .reset => (.done, s.reset)

def answerAll : List Call → EvcStream.Splitter → List Reply × EvcStream.Splitter
  | [], s => ([], s)
  | call :: calls, s =>
    let (reply, s) := answer s call
    let (replies, s) := answerAll calls s
    (reply :: replies, s)

section
variable {total : Nat} {s : EvcStream.Splitter} {config : SplitterConfig} {chunk : List UInt8}

theorem new_eq (allocatable : max config.initialCapacity 1 ≤ maxAllocation) :
    new config = .ok (.new config) := by
  rw [new, allocate_eq allocatable]
  rfl

theorem Sound.new (allocatable : max config.initialCapacity 1 ≤ maxAllocation) :
    Sound 0 (.new config) :=
  ⟨.ofCapacity _, Nat.le_refl 0, allocatable⟩

theorem feed_eq (sound : Sound total s) (small : total + chunk.length < 2 ^ 32) :
    feed chunk s = .ok (s.feed chunk) ∧ Sound (total + chunk.length) (behind (s.feed chunk)) := by
  have size := sound.size
  have fed : Sound (total + chunk.length) { s with pending := s.pending ++ chunk } := by
    refine ⟨sound.assembler, ?_, sound.allocatable⟩
    dsimp only
    rw [List.length_append]
    omega
  obtain ⟨drained, kept⟩ := drain_eq fed small
  unfold feed EvcStream.Splitter.feed
  rw [word_eq (by omega), ok_bind, allocate_eq (by unfold maxAllocation; omega), ok_bind, drained,
    ok_bind]
  cases outcome : EvcStream.Splitter.drain { s with pending := s.pending ++ chunk } with
  | error fault t =>
    rw [outcome] at kept
    exact ⟨rfl, kept⟩
  | ok u t =>
    rw [outcome] at kept
    dsimp only
    split
    · exact ⟨rfl, kept⟩
    · exact ⟨rfl, kept.assembler, kept.size, kept.allocatable⟩

theorem flush_eq (sound : Sound total s) (small : total < 2 ^ 32) :
    flush s = .ok s.flush ∧ Sound total s.flush.2 := by
  have size := sound.size
  have taken : s.assembler.takeOpen.2.buffer.length ≤ s.assembler.buffer.length := by
    have bytes := congrArg List.length (EvcStream.Assembler.takeOpen_bytes s.assembler)
    rw [List.length_append] at bytes
    unfold UnitBuffer.length
    omega
  refine ⟨?_, sound.assembler.takeOpen, ?_, sound.allocatable⟩
  · rw [flush, Assembler.takeOpen_eq (by unfold maxAllocation; omega)]
    rfl
  · change s.assembler.takeOpen.2.buffer.length + 0 ≤ total
    omega

theorem perform_eq (sound : Sound total s) {call : Call} (small : total + call.size < 2 ^ 32) :
    perform s call = .ok (answer s call) ∧ Sound (total + call.size) (answer s call).2 := by
  cases call with
  | feed chunk =>
    obtain ⟨fed, kept⟩ := feed_eq sound small
    rw [perform, answer, fed, ok_bind]
    cases outcome : EvcStream.Splitter.feed chunk s with
    | ok progress t =>
      rw [outcome] at kept
      exact ⟨rfl, kept⟩
    | error fault t =>
      rw [outcome] at kept
      exact ⟨rfl, kept⟩
  | flush =>
    obtain ⟨flushed, kept⟩ := flush_eq sound small
    rw [perform, answer, flushed, ok_bind]
    exact ⟨rfl, kept⟩
  | reset =>
    rw [perform, answer, new_eq sound.allocatable, ok_bind]
    exact ⟨rfl, (Sound.new sound.allocatable).mono (Nat.zero_le _)⟩

/-- The bytes of all calls so far bound what the splitter holds. -/
theorem performAll_eq {calls : List Call} (sound : Sound total s)
    (small : total + (calls.map Call.size).sum < 2 ^ 32) :
    performAll calls s = .ok (answerAll calls s) := by
  induction calls generalizing s total with
  | nil => rfl
  | cons call calls ih =>
    rw [List.map_cons, List.sum_cons] at small
    have room : total + call.size < 2 ^ 32 := by omega
    obtain ⟨performed, kept⟩ := perform_eq sound room
    rw [performAll, answerAll, performed, ok_bind]
    dsimp only
    rw [ih kept (by omega), ok_bind]
    rfl

theorem session_eq {calls : List Call} (allocatable : max config.initialCapacity 1 ≤ maxAllocation)
    (small : (calls.map Call.size).sum < 2 ^ 32) :
    session config calls = .ok (answerAll calls (.new config)) := by
  rw [session, new_eq allocatable, ok_bind]
  exact performAll_eq (.new allocatable) (by rwa [Nat.zero_add])

end

end Splitter

/-- No calls of a splitter panic, nor does a scan over a byte string, nor does reading it as a
record and writing the record or its units. All of them give what they should. -/
theorem never_panics {config : SplitterConfig} {calls : List Splitter.Call} {bytes : List UInt8}
    (allocatable : max config.initialCapacity 1 ≤ maxAllocation)
    (fed : (calls.map Splitter.Call.size).sum < 2 ^ 32) (small : bytes.length < 2 ^ 32)
    (allComplete : Bool) :
    Splitter.session config calls = .ok (Splitter.answerAll calls (.new config)) ∧
      likeness bytes = .ok (EvcStream.likeness bytes) ∧
      framedUnits bytes = .ok ((NalWalk.of bytes).units.map NalUnit.framed) ∧
      ofStream bytes allComplete = .ok (EvcStream.DecoderConfig.ofStream bytes allComplete) ∧
      DecoderConfig.decode bytes = .ok (EvcStream.DecoderConfig.decode bytes) ∧
      (ExceptT.mk (DecoderConfig.decode bytes) >>= DecoderConfig.encode).run =
        .ok (EvcStream.DecoderConfig.decode bytes >>= EvcStream.DecoderConfig.encode) ∧
      (ExceptT.mk (DecoderConfig.decode bytes) >>= DecoderConfig.unitStream).run =
        .ok (EvcStream.DecoderConfig.decode bytes >>= EvcStream.DecoderConfig.unitStream) := by
  refine ⟨Splitter.session_eq allocatable fed, likeness_eq small, framedUnits_eq small,
    ofStream_eq small, DecoderConfig.decode_eq bytes, DecoderConfig.encode_read small,
    DecoderConfig.unitStream_read small⟩

/-- Units in pieces, a unit that is refused, and calls in between, with the smallest buffer there
is. The record that follows is written as it was read. -/
theorem never_panics_small_buffer :
    let config : SplitterConfig := { initialCapacity := 0 }
    let calls : List Splitter.Call := [.feed [0, 0, 0, 3, 2], .flush,
      .feed [0, 0, 0, 3, 58, 0, 128], .feed [0, 0, 0, 2, 50, 0, 0, 0, 0, 0], .reset,
      .feed [255, 255, 255, 255]]
    let bytes : List UInt8 := [1, 1, 41, 222, 173, 190, 239, 0, 0, 0, 0, 121, 7, 128, 4, 56, 255, 2,
      152, 0, 1, 0, 3, 50, 0, 128, 28, 0, 2, 0, 0, 0, 2, 58, 0]
    max config.initialCapacity 1 ≤ maxAllocation ∧
      (calls.map Splitter.Call.size).sum < 2 ^ 32 ∧ bytes.length < 2 ^ 32 ∧
      Splitter.session config calls = .ok (Splitter.answerAll calls (.new config)) ∧
      (ExceptT.mk (DecoderConfig.decode bytes) >>= DecoderConfig.encode).run = .ok (.ok bytes) := by
  intro config calls bytes
  have allocatable : max config.initialCapacity 1 ≤ maxAllocation := by decide
  have fed : (calls.map Splitter.Call.size).sum < 2 ^ 32 := by decide
  have small : bytes.length < 2 ^ 32 := by decide
  have same : (EvcStream.DecoderConfig.decode bytes >>= EvcStream.DecoderConfig.encode) =
      .ok bytes := ok_of_toOption (by decide +kernel)
  obtain ⟨performed, -, -, -, -, written, -⟩ := never_panics allocatable fed small true
  rw [same] at written
  exact ⟨allocatable, fed, small, performed, written⟩

end EvcStream.Machine
