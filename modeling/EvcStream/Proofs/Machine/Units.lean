import EvcStream.Proofs.Machine.Basic
import EvcStream.Proofs.Nal
/-!
# Units within data on a machine

A unit is a span of the data that it was found in: it is kept as offsets, and its parts are cut out
of the data when they are needed. The offsets of a unit that was found lie within the data, in order
and with room for the header, so every part of it can be cut out.
-/
namespace EvcStream.Machine

def length (bytes : List UInt8) : Checked (Except Fault Nat) :=
  if bytes.length < NalUnit.lengthSize then return .error (.lengthMissing bytes.length)
  else do
    let value ← number NalUnit.lengthSize bytes
    if value = 0 then return .error .lengthZero else return .ok value

def header (bytes : List UInt8) : Checked (Except Fault NalUnitHeader) :=
  if bytes.length < NalUnitHeader.size then return .error (.headerMissing bytes.length)
  else do
    let word ← number NalUnitHeader.size bytes
    if word / 2 ^ 15 % 2 = 1 then return .error .forbiddenBit
    else
      let typePlus1 ← shr 16 word 9
      if nonzero : typePlus1 % 2 ^ 6 = 0 then return .error .typeZero
      else
        let _ ← minus (typePlus1 % 2 ^ 6) 1
        let temporalId ← shr 16 word 6
        let reserved ← shr 16 word 1
        return .ok {
          type := NalUnitType.ofCode (typePlus1 % 2 ^ 6 - 1) (by omega)
          temporalId := temporalId % 2 ^ 3
          reserved := reserved % 2 ^ 5
          extension := word % 2 == 1 }

theorem length_eq (bytes : List UInt8) : length bytes = .ok (NalUnit.length bytes) := by
  unfold length NalUnit.length
  by_cases short : bytes.length < NalUnit.lengthSize
  · rw [if_pos short, cut?_eq_none_iff.mpr short]
    rfl
  · have long := Nat.le_of_not_lt short
    have front : cut? NalUnit.lengthSize bytes =
        some (bytes.take NalUnit.lengthSize, bytes.drop NalUnit.lengthSize) :=
      cut?_eq_some_iff.mpr ⟨List.length_take_of_le long, (List.take_append_drop _ _).symm⟩
    rw [if_neg short, front, number_eq long]
    simp only [ok_bind]
    split <;> rfl

theorem header_eq (bytes : List UInt8) : header bytes = .ok (NalUnitHeader.decode bytes) := by
  unfold header NalUnitHeader.decode
  by_cases short : bytes.length < NalUnitHeader.size
  · rw [if_pos short, if_pos short]
    rfl
  rw [if_neg short, if_neg short, number_eq (Nat.le_of_not_lt short)]
  simp only [ok_bind]
  split
  · rfl
  rw [shr_eq (by decide)]
  simp only [ok_bind]
  split
  · rfl
  next nonzero =>
  rw [minus_eq (by omega), shr_eq (by decide), shr_eq (by decide)]
  rfl

structure Span where
  data : List UInt8
  header : NalUnitHeader
  size : Nat
  offset : Nat
  /-- Where the length in front of the unit starts. -/
  prefixOffset : Nat
  deriving DecidableEq, Repr

namespace Span

def next (data : List UInt8) (position : Nat) : Checked (Except Fault Span) := do
  let remaining := data.drop position
  match ← length remaining with
  | .error fault => return .error fault
  | .ok size =>
    let offset ← word 64 (position + NalUnit.lengthSize)
    let available ← minus remaining.length NalUnit.lengthSize
    if available < size then return .error (.unitExceedsData size available)
    else
      let stop ← word 64 (offset + size)
      match ← Machine.header (← slice data offset stop) with
      | .error fault => return .error fault
      | .ok header => return .ok { data, header, size, offset, prefixOffset := position }

def framed (span : Span) : Checked (List UInt8) := do
  slice span.data span.prefixOffset (← word 64 (span.offset + span.size))

def bytes (span : Span) : Checked (List UInt8) := do
  slice span.data span.offset (← word 64 (span.offset + span.size))

def payload (span : Span) : Checked (List UInt8) := do
  let start ← word 64 (span.offset + NalUnitHeader.size)
  slice span.data start (← word 64 (span.offset + span.size))

def ofFramed (data : List UInt8) : Checked (Except Fault Span) := do
  match ← next data 0 with
  | .error fault => return .error fault
  | .ok span =>
    let framed ← span.framed
    if framed.length = data.length then return .ok span
    else
      let trailing ← minus data.length (← span.framed).length
      return .error (.trailingBytes trailing)

end Span

/-- The unit stands in the data where it says. -/
structure Lies (data : List UInt8) (u : NalUnit) : Prop where
  small : data.length < 2 ^ 32
  framable : u.Framable
  here : ∃ rest, data.drop u.start = u.framed ++ rest

def Span.of (data : List UInt8) (u : NalUnit) : Span :=
  { data, header := u.header, size := u.size, offset := u.offset, prefixOffset := u.start }

namespace Lies

variable {data rest : List UInt8} {u : NalUnit} {position : Nat}

theorem of_split (small : data.length < 2 ^ 32)
    (cutting : NalUnit.split position (data.drop position) = .ok (u, rest)) : Lies data u := by
  obtain ⟨-, -, whole⟩ := NalUnit.split_ok cutting
  refine ⟨small, NalUnit.split_framable cutting, rest, ?_⟩
  rw [NalUnit.split_start cutting, whole]

theorem of_ofFramed (small : data.length < 2 ^ 32) (framing : NalUnit.ofFramed data = .ok u) :
    Lies data u := by
  obtain ⟨⟨found, rest⟩, cutting, framing⟩ := Fault.bind_ok framing
  have lies : Lies data found := of_split small cutting
  dsimp only at framing
  split at framing
  · cases framing
    exact lies
  · cases framing

theorem stop_le (lies : Lies data u) : u.stop ≤ data.length := by
  obtain ⟨rest, here⟩ := lies.here
  have length := congrArg List.length here
  have long := NalUnit.framed_length u
  rw [List.length_drop, List.length_append] at length
  rw [NalUnit.stop_eq]
  unfold NalUnit.lengthSize at long
  omega

theorem word_stop (lies : Lies data u) : word 64 (u.offset + u.size) = .ok u.stop := by
  have inside := lies.stop_le
  have small := lies.small
  exact word_eq (by unfold NalUnit.stop at inside; omega)

theorem slice_eq (lies : Lies data u) {count : Nat} (inside : count ≤ u.framed.length) :
    slice data (u.start + count) u.stop = .ok (u.framed.drop count) := by
  obtain ⟨rest, here⟩ := lies.here
  have stop := NalUnit.stop_eq u
  rw [Machine.slice_eq (by omega) lies.stop_le, List.extract_eq_take_drop, ← List.drop_drop, here,
    stop, Nat.add_sub_add_left, List.drop_append_of_le_length inside,
    List.take_left' List.length_drop]

theorem framed_drop (u : NalUnit) (count : Nat) :
    u.framed.drop (NalUnit.lengthSize + count) = u.bytes.drop count := by
  rw [← List.drop_drop, NalUnit.framed, List.drop_left' (BigEndian.encode_length _ _)]

theorem framed_eq (lies : Lies data u) : (Span.of data u).framed = .ok u.framed := by
  unfold Span.framed Span.of
  rw [lies.word_stop]
  exact lies.slice_eq (Nat.zero_le _)

theorem bytes_eq (lies : Lies data u) : (Span.of data u).bytes = .ok u.bytes := by
  have long := NalUnit.framed_length u
  unfold Span.bytes Span.of
  rw [lies.word_stop]
  have cut := lies.slice_eq (by omega : NalUnit.lengthSize + 0 ≤ u.framed.length)
  rwa [framed_drop] at cut

theorem payload_eq (lies : Lies data u) : (Span.of data u).payload = .ok u.payload := by
  have long := NalUnit.framed_length u
  have header := lies.framable.long
  have inside := lies.stop_le
  have small := lies.small
  unfold NalUnit.stop at inside
  unfold NalUnit.size at long inside
  have start : word 64 (u.offset + NalUnitHeader.size) = .ok (u.offset + NalUnitHeader.size) :=
    word_eq (by omega)
  unfold Span.payload Span.of
  rw [start, lies.word_stop]
  have cut := lies.slice_eq
    (by omega : NalUnit.lengthSize + NalUnitHeader.size ≤ u.framed.length)
  rwa [framed_drop, ← Nat.add_assoc] at cut

end Lies

namespace Span

variable {data : List UInt8} {position : Nat}

theorem next_eq (small : data.length < 2 ^ 32) (within : position ≤ data.length) :
    next data position =
      .ok ((NalUnit.split position (data.drop position)).map fun found => of data found.1) := by
  have length : (data.drop position).length = data.length - position := List.length_drop
  unfold next NalUnit.split
  dsimp only
  rw [length_eq]
  simp only [ok_bind]
  cases counted : NalUnit.length (data.drop position) with
  | error fault => rfl
  | ok size =>
    have long := NalUnit.length_le_of_length counted
    unfold NalUnit.lengthSize at long ⊢
    dsimp only
    rw [word_eq (by omega), minus_eq long]
    simp only [ok_bind]
    by_cases short : (data.drop position).length - 4 < size
    · have missing : cut? size ((data.drop position).drop 4) = none :=
        cut?_eq_none_iff.mpr (by rwa [List.length_drop])
      rw [if_pos short, missing]
      rfl
    · have room : size ≤ ((data.drop position).drop 4).length := by
        rw [List.length_drop]
        omega
      have found : cut? size ((data.drop position).drop 4) =
          some (((data.drop position).drop 4).take size, ((data.drop position).drop 4).drop size) :=
        cut?_eq_some_iff.mpr ⟨List.length_take_of_le room, (List.take_append_drop _ _).symm⟩
      have cut : data.extract (position + 4) (position + 4 + size) =
          ((data.drop position).drop 4).take size := by
        rw [List.extract_eq_take_drop, Nat.add_sub_cancel_left, List.drop_drop]
      rw [if_neg short, found, word_eq (by omega)]
      simp only [ok_bind]
      rw [slice_eq (by omega) (by omega), cut]
      simp only [ok_bind]
      rw [header_eq]
      simp only [ok_bind]
      cases NalUnitHeader.decode (((data.drop position).drop 4).take size) with
      | error fault => rfl
      | ok header =>
        simp only [pure_eq_ok, Except.map, of, NalUnit.size, NalUnit.offset, NalUnit.lengthSize,
          List.length_take_of_le room]

theorem ofFramed_eq (small : data.length < 2 ^ 32) :
    ofFramed data = .ok ((NalUnit.ofFramed data).map (of data)) := by
  have first := next_eq small (Nat.zero_le _)
  rw [List.drop_zero] at first
  unfold ofFramed NalUnit.ofFramed
  rw [first]
  cases cutting : NalUnit.split 0 data with
  | error fault => rfl
  | ok found =>
    obtain ⟨u, rest⟩ := found
    have lies : Lies data u := .of_split small cutting
    have whole := congrArg List.length (NalUnit.split_ok cutting).2.2
    rw [List.length_append] at whole
    simp only [ok_bind, Except.map]
    rw [lies.framed_eq]
    simp only [ok_bind]
    by_cases all : rest = []
    · subst all
      rw [if_pos (by rw [whole, List.length_nil, Nat.add_zero])]
      rfl
    · have more : rest.length ≠ 0 := mt List.eq_nil_of_length_eq_zero all
      have trailing : data.length - u.framed.length = rest.length := by omega
      have nonempty : rest.isEmpty = false := List.isEmpty_eq_false_iff.mpr all
      rw [if_neg (by omega), minus_eq (by omega), trailing]
      simp only [bind, Except.bind, nonempty]
      rfl

theorem next_ok {span : Span} (found : next data position = .ok (.ok span)) :
    position < span.offset + span.size ∧ span.offset + span.size ≤ data.length := by
  obtain ⟨counted, -, found⟩ := bind_ok found
  cases counted with
  | error fault => cases found
  | ok size =>
    obtain ⟨offset, placed, found⟩ := bind_ok found
    obtain ⟨available, -, found⟩ := bind_ok found
    split at found
    · cases found
    obtain ⟨stop, summed, found⟩ := bind_ok found
    obtain ⟨unit, cut, found⟩ := bind_ok found
    obtain ⟨decoded, -, found⟩ := bind_ok found
    cases decoded with
    | error fault => cases found
    | ok header =>
      cases found
      have bounds := slice_ok cut
      rw [word_ok summed] at bounds
      rw [word_ok placed] at bounds ⊢
      unfold NalUnit.lengthSize at bounds ⊢
      dsimp only
      omega

end Span

def walk {ε σ : Type} (visit : σ → Span → Checked (Except ε σ)) (data : List UInt8)
    (position : Nat) (state : σ) : Checked (Except ε σ) :=
  match _ : Span.next data position with
  | .error panic => .error panic
  | .ok (.error _) => .ok (.ok state)
  | .ok (.ok span) => do
    match ← visit state span with
    | .error e => return .error e
    | .ok state => walk visit data (span.offset + span.size) state
termination_by data.length - position
decreasing_by
  rename_i found
  have := Span.next_ok found
  omega

section
variable {ε σ : Type} {visit : σ → Span → Checked (Except ε σ)} {step : σ → NalUnit → Except ε σ}
  {invariant : Nat → σ → Prop} {data : List UInt8} {position : Nat} {state : σ}

/-- From every state that it can be in at a unit, the visit does what the step does. -/
def Visits (visit : σ → Span → Checked (Except ε σ)) (step : σ → NalUnit → Except ε σ)
    (invariant : Nat → σ → Prop) (data : List UInt8) : Prop :=
  ∀ u state, Lies data u → invariant u.start state →
    visit state (Span.of data u) = .ok (step state u) ∧
      ∀ next, step state u = .ok next → invariant u.stop next

/-- If every visit does what a step does, then the walk does what the steps do, unit after unit. -/
theorem walk_eq (small : data.length < 2 ^ 32) (visits : Visits visit step invariant data)
    (within : position ≤ data.length) (start : invariant position state) :
    walk visit data position state =
      .ok ((NalWalk.startingAt position (data.drop position)).units.foldlM step state) := by
  generalize bytes : data.drop position = rest
  fun_induction NalWalk.startingAt position rest generalizing state with
  | case1 position rest fault stopped =>
    have none := Span.next_eq small within
    rw [bytes, stopped] at none
    rw [walk]
    split
    · next panicked => cases none.symm.trans panicked
    · rfl
    · next found => cases none.symm.trans found
  | case2 position rest u later cutting shorter others =>
    rename_i ih
    have one := Span.next_eq small within
    rw [bytes, cutting] at one
    rw [← bytes] at cutting
    have lies := Lies.of_split small cutting
    have first := NalUnit.split_start cutting
    obtain ⟨visited, kept⟩ := visits u state lies (first.symm ▸ start)
    have behind : data.drop u.stop = later := by
      rw [NalUnit.stop_eq, first, ← List.drop_drop, (NalUnit.split_ok cutting).2.2, List.drop_left]
    rw [walk]
    split
    · next panicked => cases one.symm.trans panicked
    · next found => cases one.symm.trans found
    · next span found =>
      cases one.symm.trans found
      rw [visited, List.foldlM_cons]
      cases moved : step state u with
      | error e => rfl
      | ok next => exact ih lies.stop_le (kept next moved) behind

theorem walk_of_eq (small : data.length < 2 ^ 32)
    (visits : ∀ u state, Lies data u → visit state (Span.of data u) = .ok (step state u)) :
    walk visit data 0 state = .ok ((NalWalk.of data).units.foldlM step state) :=
  have visited : Visits visit step (fun _ _ => True) data :=
    fun u state lies _ => ⟨visits u state lies, fun _ _ => trivial⟩
  walk_eq small visited (Nat.zero_le _) trivial

end
end EvcStream.Machine
