import EvcStream.AccessUnit
import EvcStream.Stream.Likeness
/-!
# Splitting a chunked stream

A splitter takes a stream in chunks of any size, cut anywhere, and hands complete NAL units to an
assembler. What is damaged is dropped, a unit as a whole or a bad length alone, and reported; the
rest of the input waits for the next call, and so do the access units that were complete before.
-/
namespace EvcStream

structure SplitterConfig where
  initialCapacity : Nat := Assembler.defaultCapacity
  /-- Units that announce a larger size are refused before they are collected. -/
  maxUnitSize : Nat := 64 * 2 ^ (20 : Nat)
  deriving DecidableEq, Repr

structure Splitter where
  config : SplitterConfig
  assembler : Assembler
  pending : List UInt8 := []
  /-- Bytes missing to complete the unit, or the length, that the input broke off in. -/
  missing : Nat := 0
  summary : Option StreamSummary := none
  ready : List AccessUnit := []
  deriving DecidableEq, Repr

inductive Progress where
  | needMoreData
  | accessUnits (units : List AccessUnit)
  deriving DecidableEq, Repr

namespace Splitter

def new (config : SplitterConfig) : Splitter :=
  { config, assembler := Assembler.ofCapacity config.initialCapacity }

inductive Front where
  | incomplete (missing : Nat)
  | badLength (fault : Fault) (rest : List UInt8)
  | unit (framed rest : List UInt8)
  deriving DecidableEq, Repr

def front (maxUnitSize : Nat) (pending : List UInt8) : Front :=
  if pending.isEmpty then .incomplete 0
  else match cut? NalUnit.lengthSize pending with
    | none => .incomplete (NalUnit.lengthSize - pending.length)
    | some (_, body) =>
      match NalUnit.length pending with
      | .error fault => .badLength fault body
      | .ok size =>
        if maxUnitSize < size then .badLength (.unitExceedsLimit size maxUnitSize) body
        else match cut? (NalUnit.lengthSize + size) pending with
          | none => .incomplete (NalUnit.lengthSize + size - pending.length)
          | some (framed, rest) => .unit framed rest

def accept (s : Splitter) (framed : List UInt8) : EStateM.Result Fault Splitter Unit :=
  match NalUnitHeader.decode (framed.drop NalUnit.lengthSize) with
  | .error fault => .error fault s
  | .ok header =>
    match Assembler.push framed s.assembler with
    | .error fault assembler => .error fault { s with assembler }
    | .ok closed assembler =>
      let summary :=
        if header.type = .sps then assembler.lastSps.map StreamSummary.ofSps else s.summary
      .ok () { s with assembler, summary, ready := s.ready ++ closed.toList }

theorem front_unit_length {maxUnitSize : Nat} {pending framed rest : List UInt8}
    (h : front maxUnitSize pending = .unit framed rest) :
    rest.length + NalUnit.lengthSize ≤ pending.length := by
  unfold front at h
  split at h
  · cases h
  · split at h
    · cases h
    · split at h
      · cases h
      · next size _ =>
        split at h
        · cases h
        · split at h
          · cases h
          · next cutting =>
            obtain ⟨long, whole⟩ := cut?_eq_some_iff.mp cutting
            simp only [Front.unit.injEq] at h
            obtain ⟨rfl, rfl⟩ := h
            rw [whole, List.length_append, long]
            omega

theorem front_badLength_length {maxUnitSize : Nat} {pending rest : List UInt8} {fault : Fault}
    (h : front maxUnitSize pending = .badLength fault rest) :
    rest.length + NalUnit.lengthSize ≤ pending.length := by
  unfold front at h
  split at h
  · cases h
  · split at h
    · cases h
    · next length body cutting =>
      obtain ⟨long, whole⟩ := cut?_eq_some_iff.mp cutting
      have behind : rest = body := by
        split at h
        · simp only [Front.badLength.injEq] at h
          exact h.2.symm
        · split at h
          · simp only [Front.badLength.injEq] at h
            exact h.2.symm
          · split at h <;> cases h
      rw [behind, whole, List.length_append, long]
      omega

theorem accept_pending {s t : Splitter} {framed : List UInt8}
    (h : s.accept framed = .ok () t) : t.pending = s.pending := by
  unfold accept at h
  split at h
  · cases h
  · split at h
    · cases h
    · simp only [EStateM.Result.ok.injEq, true_and] at h
      rw [← h]

theorem accept_fault_pending {s t : Splitter} {framed : List UInt8} {fault : Fault}
    (h : s.accept framed = .error fault t) : t.pending = s.pending := by
  unfold accept at h
  split at h
  · simp only [EStateM.Result.error.injEq] at h
    rw [← h.2]
  · split at h
    · simp only [EStateM.Result.error.injEq] at h
      rw [← h.2]
    · cases h

/-- Works through the input until it breaks off or a part of it is refused. -/
def drain (s : Splitter) : EStateM.Result Fault Splitter Unit :=
  match _ : front s.config.maxUnitSize s.pending with
  | .incomplete missing => .ok () { s with missing }
  | .badLength fault pending => .error fault { s with pending, missing := 0 }
  | .unit framed pending =>
    match _ : accept { s with pending, missing := 0 } framed with
    | .error fault s => .error fault s
    | .ok () t => drain t
termination_by s.pending.length
decreasing_by
  rename_i cutting accepted
  have := front_unit_length cutting
  simp only [NalUnit.lengthSize] at this
  rw [accept_pending accepted]
  dsimp only
  omega

def feed (chunk : List UInt8) (s : Splitter) : EStateM.Result Fault Splitter Progress :=
  match drain { s with pending := s.pending ++ chunk } with
  | .error fault s => .error fault s
  | .ok () s =>
    if s.ready.isEmpty && 0 < s.missing then .ok .needMoreData s
    else .ok (.accessUnits s.ready) { s with ready := [] }

/-- A call that fails leaves less input behind, by at least a length. -/
theorem drain_fault_length {s t : Splitter} {fault : Fault} (h : s.drain = .error fault t) :
    t.pending.length + NalUnit.lengthSize ≤ s.pending.length := by
  fun_induction drain s with
  | case1 => cases h
  | case2 s found pending cutting =>
    simp only [EStateM.Result.error.injEq] at h
    rw [← h.2]
    exact front_badLength_length cutting
  | case3 s framed pending cutting found u rejected =>
    simp only [EStateM.Result.error.injEq] at h
    rw [← h.2, accept_fault_pending rejected]
    exact front_unit_length cutting
  | case4 s framed pending cutting u accepted ih =>
    have shorter := front_unit_length cutting
    have kept := accept_pending accepted
    have := ih h
    rw [kept] at this
    dsimp only at this
    omega

theorem feed_fault_length {s t : Splitter} {chunk : List UInt8} {fault : Fault}
    (h : s.feed chunk = .error fault t) :
    t.pending.length + NalUnit.lengthSize ≤ s.pending.length + chunk.length := by
  unfold feed at h
  split at h
  · next failed =>
    simp only [EStateM.Result.error.injEq] at h
    have := drain_fault_length failed
    rw [← h.2]
    simpa only [List.length_append] using this
  · split at h <;> cases h

/-- A call and what the splitter is after it. -/
structure Attempt where
  outcome : Except Fault Progress
  after : Splitter

/-- Takes in a chunk, and goes on with the input behind each fault until a call succeeds. -/
def attempts (chunk : List UInt8) (s : Splitter) : List Attempt :=
  match failing : s.feed chunk with
  | .ok progress after => [{ outcome := .ok progress, after }]
  | .error fault after =>
    have := feed_fault_length failing
    { outcome := .error fault, after } :: attempts [] after
termination_by s.pending.length + chunk.length
decreasing_by
  simp only [NalUnit.lengthSize] at this
  simp only [List.length_nil]
  omega

/-- Ends the stream: input that is left over is dropped, and the access units that have not been
handed out are, the last one as far as it is assembled. -/
def flush (s : Splitter) : List AccessUnit × Splitter :=
  let (last, assembler) := s.assembler.takeOpen
  (s.ready ++ last.toList,
    { s with
      assembler
      pending := []
      missing := if s.pending.isEmpty then s.missing else 0
      ready := [] })

def reset (s : Splitter) : Splitter := new s.config

end Splitter
end EvcStream
