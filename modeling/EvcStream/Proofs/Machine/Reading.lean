import EvcStream.Proofs.Bits.Reading
import EvcStream.Proofs.Machine.Basic
/-!
# Reading bits on a machine

The reader with its cursor, the current byte and a register of 64 bits. No shift is too far and no
counter overflows, and every read does what the read of bits does.
-/
namespace EvcStream.Machine

structure ByteReader where
  data : List UInt8
  cursor : Nat := 0
  current : UInt8 := 0
  available : Nat := 0
  position : Nat := 0
  deriving DecidableEq, Repr

namespace ByteReader

def ofBytes (data : List UInt8) : ByteReader := { data }

def view (r : ByteReader) : BitReader :=
  { rest := r.data.drop r.cursor, current := r.current, available := r.available,
    position := r.position }

/-- The data is of a size that a stream can have, and all bits in front of the reader are counted
once. -/
structure Sound (r : ByteReader) : Prop where
  size : r.data.length < 2 ^ 32
  cursor : r.cursor ≤ r.data.length
  available : r.available ≤ 8
  position : r.position + r.available = 8 * r.cursor

/-- All bits of the data can be counted with 64 bits, and those in front of the reader are counted
once. -/
structure Counted (r : ByteReader) : Prop where
  size : r.data.length < 2 ^ 61
  cursor : r.cursor ≤ r.data.length
  available : r.available ≤ 8
  position : r.position + r.available = 8 * r.cursor

theorem ofBytes_sound {data : List UInt8} (small : data.length < 2 ^ 32) : (ofBytes data).Sound :=
  ⟨small, Nat.zero_le _, Nat.zero_le _, rfl⟩

theorem ofBytes_counted {data : List UInt8} (small : data.length < 2 ^ 61) :
    (ofBytes data).Counted :=
  ⟨small, Nat.zero_le _, Nat.zero_le _, rfl⟩

theorem Sound.counted {r : ByteReader} (sound : r.Sound) : r.Counted :=
  ⟨Nat.lt_trans sound.size (by decide), sound.cursor, sound.available, sound.position⟩

theorem ofBytes_view (data : List UInt8) : (ofBytes data).view = BitReader.ofBytes data := rfl

def left (r : ByteReader) : Checked Nat := do
  let unread ← minus r.data.length r.cursor
  let bits ← word 64 (unread * 8)
  word 64 (bits + r.available)

def gather (need out : Nat) (r : ByteReader) : Checked (EStateM.Result ReadError ByteReader Nat) :=
  if r.available < need then do
    let missing ← minus need r.available
    let high ← shl 64 r.current.toNat missing
    match _ : r.data[r.cursor]? with
    | none => return .error (.notEnoughBits 8 0) r
    | some next =>
      let _ ← word 64 (r.cursor + 1)
      gather missing (out ||| high)
        { r with cursor := r.cursor + 1, current := next, available := 8 }
  else do
    let unused ← minus r.available need
    let low ← shr 8 r.current.toNat unused
    return .ok (out ||| low) { r with available := unused }
termination_by r.data.length - r.cursor
decreasing_by
  rename_i fetched
  have inside := (List.getElem?_eq_some_iff.mp fetched).1
  omega

def bits (count : Nat) : Run ReadError ByteReader Nat := fun r => do
  if 32 < count then return .error (.tooManyBits count) r
  else if count = 0 then return .ok 0 r
  else
    let left ← r.left
    if left < count then return .error (.notEnoughBits count left) r
    else match ← gather count 0 r with
      | .error fault s => return .error fault s
      | .ok out s =>
        let top ← shl 64 1 count
        let mask ← minus top 1
        let position ← word 64 (s.position + count)
        if out &&& mask < 2 ^ 32 then return .ok (out &&& mask) { s with position }
        else return .error .conversionFailed { s with position }

variable {r : ByteReader}

theorem left_eq (counted : r.Counted) : r.left = .ok r.view.left := by
  have size := counted.size
  have inside := counted.cursor
  have place := counted.position
  have bits : r.view.left = (r.data.length - r.cursor) * 8 + r.available := by
    simp only [BitReader.left, view, List.length_drop]
    omega
  rw [left, minus_eq counted.cursor]
  simp only [ok_bind]
  rw [word_eq (by omega)]
  simp only [ok_bind]
  rw [word_eq (by omega), bits]

theorem or_mod_eq {width need out value low field : Nat} (acc : out % 2 ^ width = value * 2 ^ need)
    (inside : low % 2 ^ width = field) (small : field < 2 ^ need) :
    (out ||| low) % 2 ^ width = value * 2 ^ need + field := by
  rw [Nat.or_mod_two_pow, acc, inside, Nat.mul_comm, ← Nat.two_pow_add_eq_or_of_lt small]

/-- A byte that is used up moves into the field. Bits of it that have been read before are above the
field, or there are none. -/
theorem or_high_eq {width need available byte out value : Nat} (needed : available ≤ need)
    (le : need ≤ width) (narrow : width ≤ 32) (fresh : need = width ∨ byte < 2 ^ available)
    (acc : out % 2 ^ width = value * 2 ^ need) :
    (out ||| byte * 2 ^ (need - available) % 2 ^ 64) % 2 ^ width =
      (value * 2 ^ available + byte % 2 ^ available) * 2 ^ (need - available) := by
  have split : 2 ^ need = 2 ^ available * 2 ^ (need - available) := by
    rw [← Nat.pow_add, Nat.add_sub_of_le needed]
  have inside : byte * 2 ^ (need - available) % 2 ^ 64 % 2 ^ width =
      byte % 2 ^ available * 2 ^ (need - available) := by
    rw [Nat.mod_mod_of_dvd _ (Nat.pow_dvd_pow 2 (Nat.le_trans narrow (by decide)))]
    rcases fresh with rfl | unread
    · rw [split, Nat.mul_mod_mul_right]
    · have within : byte * 2 ^ (need - available) < 2 ^ need := by
        rw [split]
        exact Nat.mul_lt_mul_of_pos_right unread (Nat.two_pow_pos _)
      have wide : 2 ^ need ≤ 2 ^ width := Nat.pow_le_pow_right (by decide) le
      rw [Nat.mod_eq_of_lt (by omega), Nat.mod_eq_of_lt unread]
  have small : byte % 2 ^ available * 2 ^ (need - available) < 2 ^ need := by
    rw [split]
    exact Nat.mul_lt_mul_of_pos_right (Nat.mod_lt _ (Nat.two_pow_pos _)) (Nat.two_pow_pos _)
  rw [or_mod_eq acc inside small, split, Nat.add_mul, Nat.mul_assoc]

theorem or_low_eq {width need available byte out value : Nat} (enough : need ≤ available)
    (le : need ≤ width) (fresh : need = width ∨ byte < 2 ^ available)
    (acc : out % 2 ^ width = value * 2 ^ need) :
    (out ||| byte / 2 ^ (available - need)) % 2 ^ width =
      value * 2 ^ need + byte / 2 ^ (available - need) % 2 ^ need := by
  have inside : byte / 2 ^ (available - need) % 2 ^ width =
      byte / 2 ^ (available - need) % 2 ^ need := by
    rcases fresh with rfl | unread
    · rfl
    · have within : byte / 2 ^ (available - need) < 2 ^ need := by
        rw [Nat.div_lt_iff_lt_mul (Nat.two_pow_pos _), ← Nat.pow_add, Nat.add_sub_of_le enough]
        exact unread
      have wide : 2 ^ need ≤ 2 ^ width := Nat.pow_le_pow_right (by decide) le
      rw [Nat.mod_eq_of_lt (by omega), Nat.mod_eq_of_lt within]
  exact or_mod_eq acc inside (Nat.mod_lt _ (Nat.two_pow_pos need))

theorem gather_of_enough {need out : Nat} (enough : need ≤ r.available) (byte : r.available ≤ 8)
    (positive : 0 < need) :
    gather need out r = .ok (.ok (out ||| r.current.toNat / 2 ^ (r.available - need))
      { r with available := r.available - need }) := by
  rw [gather, if_neg (by omega), minus_eq enough]
  simp only [ok_bind]
  rw [shr_eq (by omega)]
  rfl

theorem gather_of_next {need out : Nat} {next : UInt8} {rest : List UInt8}
    (more : r.available < need) (narrow : need ≤ 32) (size : r.data.length < 2 ^ 61)
    (whole : r.data.drop r.cursor = next :: rest) :
    gather need out r =
      gather (need - r.available)
        (out ||| r.current.toNat * 2 ^ (need - r.available) % 2 ^ 64)
        { r with cursor := r.cursor + 1, current := next, available := 8 } := by
  have fetched : r.data[r.cursor]? = some next := by
    rw [← List.head?_drop, whole]
    rfl
  have inside := (List.getElem?_eq_some_iff.mp fetched).1
  rw [gather, if_pos more, minus_eq (by omega)]
  simp only [ok_bind]
  rw [shl_eq (by omega)]
  simp only [ok_bind]
  split
  · next missing => cases fetched.symm.trans missing
  · next found =>
    cases fetched.symm.trans found
    rw [word_eq (by omega)]
    rfl

/-- The register holds, below the width of the field, the bits gathered so far. -/
theorem gather_eq {width need out value result left : Nat} {last : UInt8} {later : List UInt8}
    (size : r.data.length < 2 ^ 61) (inside : r.cursor ≤ r.data.length) (byte : r.available ≤ 8)
    (positive : 0 < need) (le : need ≤ width) (narrow : width ≤ 32)
    (fresh : need = width ∨ r.current.toNat < 2 ^ r.available)
    (acc : out % 2 ^ width = value * 2 ^ need)
    (found : BitReader.gather need value r.current r.available (r.data.drop r.cursor) =
      some (result, last, left, later)) :
    ∃ register cursor, gather need out r =
        .ok (.ok register { r with cursor, current := last, available := left }) ∧
      register % 2 ^ width = result ∧ r.data.drop cursor = later ∧ cursor ≤ r.data.length ∧
      left ≤ 8 ∧ need + left + 8 * r.cursor = r.available + 8 * cursor := by
  generalize whole : r.data.drop r.cursor = rest at found
  induction rest generalizing r need out value with
  | nil =>
    rw [BitReader.gather] at found
    by_cases enough : need ≤ r.available
    · rw [if_pos enough] at found
      cases found
      exact ⟨_, r.cursor, gather_of_enough enough byte positive, or_low_eq enough le fresh acc,
        whole, inside, by omega, by omega⟩
    · rw [if_neg enough] at found
      cases found
  | cons next rest ih =>
    rw [BitReader.gather] at found
    by_cases enough : need ≤ r.available
    · rw [if_pos enough] at found
      cases found
      exact ⟨_, r.cursor, gather_of_enough enough byte positive, or_low_eq enough le fresh acc,
        whole, inside, by omega, by omega⟩
    · rw [if_neg enough] at found
      -- The byte is used up, and the field goes on with all of the next one.
      have more : r.available < need := Nat.lt_of_not_le enough
      have along : r.cursor < r.data.length := by
        have some := congrArg List.length whole
        rw [List.length_drop, List.length_cons] at some
        omega
      have behind : r.data.drop (r.cursor + 1) = rest := by
        rw [← List.drop_drop, whole]
        rfl
      obtain ⟨register, cursor, gathered, field, unread, within, byte, count⟩ :=
        ih (r := { r with cursor := r.cursor + 1, current := next, available := 8 }) size along
          (Nat.le_refl 8) (Nat.sub_pos_of_lt more) (by omega) (Or.inr next.toNat_lt)
          (or_high_eq (Nat.le_of_lt more) le narrow fresh acc) behind found
      refine ⟨register, cursor, ?_, field, unread, within, byte, ?_⟩
      · rw [gather_of_next more (Nat.le_trans le narrow) size whole, gathered]
      · dsimp only at count
        omega

end ByteReader

/-- The run has ended as the part has: with related values in front of the same bits, or with the
same fault. -/
inductive Agrees {ε α β : Type} (rel : α → β → Prop) :
    Checked (EStateM.Result ε ByteReader α) → EStateM.Result ε BitReader β → Prop
  | ok {a : α} {b : β} {s : ByteReader} (sound : s.Sound) (related : rel a b) :
      Agrees rel (.ok (.ok a s)) (.ok b s.view)
  | error (fault : ε) (s : ByteReader) : Agrees rel (.ok (.error fault s)) (.error fault s.view)

/-- On a sound reader the run never panics, but does what the part does. -/
def Tracks {ε α β : Type} (run : Run ε ByteReader α) (part : EStateM ε BitReader β)
    (rel : α → β → Prop) : Prop :=
  ∀ r : ByteReader, r.Sound → Agrees rel (run r) (part r.view)

/-- It also delivers the same values, and they meet a condition. -/
def Does {ε α : Type} (run : Run ε ByteReader α) (part : EStateM ε BitReader α)
    (post : α → Prop := fun _ => True) : Prop :=
  Tracks run part fun a b => a = b ∧ post a

namespace Tracks

variable {ε α β γ δ : Type} {run : Run ε ByteReader α} {part : EStateM ε BitReader β}
  {rel : α → β → Prop} {others : γ → δ → Prop}

theorem pure {a : α} {b : β} (related : rel a b) :
    Tracks (Pure.pure a : Run ε ByteReader α) (Pure.pure b) rel :=
  fun _ sound => .ok sound related

theorem fail (fault : ε) : Tracks (Run.fail fault) (throw fault : EStateM ε BitReader β) rel :=
  fun r _ => .error fault r

theorem bind {next : α → Run ε ByteReader γ} {behind : β → EStateM ε BitReader δ}
    (h : Tracks run part rel) (k : ∀ a b, rel a b → Tracks (next a) (behind b) others) :
    Tracks (run >>= next) (part >>= behind) others := by
  intro r sound
  have first := h r sound
  rw [bind_run]
  generalize ran : run r = result, part r.view = outcome at first
  cases first with
  | ok sound related =>
    rw [Run.bind_of_ok ran]
    exact k _ _ related _ sound
  | error fault s =>
    rw [Run.bind_of_fault ran]
    exact .error fault s

theorem lift {result : Checked γ} {c : γ} {next : γ → Run ε ByteReader α}
    (known : result = .ok c) (k : Tracks (next c) part rel) :
    Tracks ((liftM result : Run ε ByteReader γ) >>= next) part rel := by
  intro r sound
  rw [Run.bind_of_ok (Run.lift_of_ok known r)]
  exact k r sound

theorem ite {condition : Prop} [Decidable condition] {run' : Run ε ByteReader α}
    {part' : EStateM ε BitReader β} (h : condition → Tracks run part rel)
    (k : ¬ condition → Tracks run' part' rel) :
    Tracks (if condition then run else run') (if condition then part else part') rel := by
  by_cases holds : condition
  · rw [if_pos holds, if_pos holds]
    exact h holds
  · rw [if_neg holds, if_neg holds]
    exact k holds

theorem then_pure {f : β → δ} {weaker : α → δ → Prop} (h : Tracks run part rel)
    (implies : ∀ a b, rel a b → weaker a (f b)) :
    Tracks run (part >>= fun b => Pure.pure (f b)) weaker := by
  intro r sound
  have ended := h r sound
  rw [bind_run]
  generalize run r = result, part r.view = outcome at ended ⊢
  cases ended with
  | ok sound related => exact .ok sound (implies _ _ related)
  | error fault s => exact .error fault s

theorem mono {weaker : α → β → Prop} (h : Tracks run part rel)
    (implies : ∀ a b, rel a b → weaker a b) : Tracks run part weaker := by
  intro r sound
  have ended := h r sound
  generalize run r = result, part r.view = outcome at ended ⊢
  cases ended with
  | ok sound related => exact .ok sound (implies _ _ related)
  | error fault s => exact .error fault s

end Tracks

namespace Does

variable {ε α β γ : Type} {run run' : Run ε ByteReader α} {part part' : EStateM ε BitReader α}
  {post : α → Prop} {later : β → Prop} {rel : β → γ → Prop}

theorem pure {a : α} (holds : post a) :
    Does (Pure.pure a : Run ε ByteReader α) (Pure.pure a) post :=
  Tracks.pure ⟨rfl, holds⟩

theorem fail (fault : ε) : Does (Run.fail fault) (throw fault : EStateM ε BitReader α) post :=
  Tracks.fail fault

/-- What follows a run that does what a part does need only be known for the values of both. -/
theorem tracks_bind {next : α → Run ε ByteReader β} {behind : α → EStateM ε BitReader γ}
    (h : Does run part post) (k : ∀ a, post a → Tracks (next a) (behind a) rel) :
    Tracks (run >>= next) (part >>= behind) rel := by
  apply Tracks.bind h
  rintro a _ ⟨rfl, holds⟩
  exact k a holds

theorem bind {next : α → Run ε ByteReader β} {behind : α → EStateM ε BitReader β}
    (h : Does run part post) (k : ∀ a, post a → Does (next a) (behind a) later) :
    Does (run >>= next) (part >>= behind) later :=
  h.tracks_bind k

theorem lift {result : Checked β} {b : β} {next : β → Run ε ByteReader α}
    (known : result = .ok b) (k : Does (next b) part post) :
    Does ((liftM result : Run ε ByteReader β) >>= next) part post :=
  Tracks.lift known k

theorem last {result : Checked α} {a : α} (known : result = .ok a) (holds : post a) :
    Does (liftM result : Run ε ByteReader α) (Pure.pure a) post := by
  intro r sound
  rw [Run.lift_of_ok known]
  exact .ok sound ⟨rfl, holds⟩

theorem ite {condition : Prop} [Decidable condition] (h : condition → Does run part post)
    (k : ¬ condition → Does run' part' post) :
    Does (if condition then run else run') (if condition then part else part') post :=
  Tracks.ite h k

theorem bind_ite {condition : Prop} [Decidable condition] {next : α → Run ε ByteReader β}
    {behind : α → EStateM ε BitReader β}
    (h : Does (if condition then run else run') (if condition then part else part') post)
    (k : ∀ a, post a → Does (next a) (behind a) later) :
    Does (if condition then run >>= next else run' >>= next)
      (if condition then part >>= behind else part' >>= behind) later := by
  rw [← apply_ite (· >>= next), ← apply_ite (· >>= behind)]
  exact h.bind k

theorem guarded {condition : Prop} [Decidable condition] {known : α} (h : Does run part post) :
    Does (if condition then run else Pure.pure known)
      (if condition then part else Pure.pure known) :=
  .ite (fun _ => Tracks.mono h fun _ _ same => ⟨same.1, trivial⟩) fun _ => .pure trivial

theorem mono {weaker : α → Prop} (h : Does run part post) (implies : ∀ a, post a → weaker a) :
    Does run part weaker :=
  Tracks.mono h fun _ _ related => ⟨related.1, implies _ related.2⟩

end Does

theorem exists_gather {r : BitReader} {count : Nat} (enough : count ≤ r.left) :
    ∃ value last left later, value < 2 ^ count ∧
      BitReader.gather count 0 r.current r.available r.rest = some (value, last, left, later) := by
  have length : (r.unread.take count).length = count := by
    rw [List.length_take, BitReader.unread_length, Nat.min_eq_left enough]
  have small := Bits.toNat_lt (r.unread.take count)
  obtain ⟨last, left, later, found, -⟩ :=
    BitReader.gather_of_append 0 (List.take_append_drop count r.unread).symm
  rw [length, Nat.zero_mul, Nat.zero_add] at found
  rw [length] at small
  exact ⟨_, last, left, later, small, found⟩

namespace ByteReader

variable {r : ByteReader}

/-- A read of bits never panics. It ends behind the field that it has put together, or with a fault
where it was, as the read of the bits in front of the reader does. -/
theorem bits_ends (counted : r.Counted) (count : Nat) :
    (∃ value s, bits count r = .ok (.ok value s) ∧
      BitReader.bits count r.view = .ok value s.view ∧ value < 2 ^ count ∧ s.data = r.data ∧
      s.Counted) ∨
    ∃ fault, bits count r = .ok (.error fault r) ∧
      BitReader.bits count r.view = .error fault r.view := by
  have place := counted.position
  have size := counted.size
  unfold bits BitReader.bits
  by_cases wide : 32 < count
  · rw [if_pos wide, if_pos wide]
    exact Or.inr ⟨_, rfl, rfl⟩
  rw [if_neg wide, if_neg wide]
  by_cases none : count = 0
  · subst none
    exact Or.inl ⟨0, r, rfl, rfl, Nat.one_pos, rfl, counted⟩
  rw [if_neg none, if_neg none, left_eq counted]
  simp only [ok_bind]
  by_cases short : r.view.left < count
  · rw [if_pos short, if_pos short]
    exact Or.inr ⟨_, rfl, rfl⟩
  rw [if_neg short, if_neg short]
  have narrow : 2 ^ count ≤ 2 ^ 32 := Nat.pow_le_pow_right (by decide) (by omega)
  have positive := Nat.two_pow_pos count
  have empty : 0 % 2 ^ count = 0 * 2 ^ count := by rw [Nat.zero_mod, Nat.zero_mul]
  obtain ⟨value, last, left, later, small, found⟩ :=
    exists_gather (Nat.le_of_not_lt short)
  obtain ⟨register, cursor, gathered, field, rfl, within, byte, moved⟩ :=
    gather_eq size counted.cursor counted.available (Nat.pos_of_ne_zero none) (Nat.le_refl count)
      (Nat.le_of_not_lt wide) (Or.inl rfl) empty found
  rw [gathered, found]
  simp only [ok_bind]
  -- The register is masked down to the field, which fits the 32 bits of a result.
  rw [shl_eq_of_lt (by omega) (by omega), Nat.one_mul]
  simp only [ok_bind]
  rw [minus_eq positive]
  simp only [ok_bind]
  rw [word_eq (by omega)]
  simp only [ok_bind]
  rw [Nat.and_two_pow_sub_one_eq_mod, field, if_pos (Nat.lt_of_lt_of_le small narrow)]
  refine Or.inl ⟨value, ⟨r.data, cursor, last, left, r.position + count⟩, rfl, rfl, small, rfl, ?_⟩
  constructor
  · exact size
  · exact within
  · exact byte
  · dsimp only
    omega

theorem bits_does (count : Nat) : Does (bits count) (BitReader.bits count) (· < 2 ^ count) := by
  intro r sound
  rcases bits_ends sound.counted count with
    ⟨value, s, done, read, small, same, counted⟩ | ⟨fault, done, read⟩
  · rw [done, read]
    have size : s.data.length < 2 ^ 32 := same ▸ sound.size
    exact .ok ⟨size, counted.cursor, counted.available, counted.position⟩ ⟨rfl, small⟩
  · rw [done, read]
    exact .error fault r

def bit : Run ReadError ByteReader Bool := do
  return (← bits 1) == 1

def zeros (count : Nat) : Run ReadError ByteReader Nat := do
  if ← bit then return count
  else
    let _ ← word 64 (count + 1)
    if 31 < count + 1 then Run.fail .invalidExpGolomb
    else zeros (count + 1)
termination_by 32 - count

def ue : Run ReadError ByteReader Nat := do
  let count ← zeros 0
  let top ← shl 32 1 count
  let low ← minus top 1
  let value := low + (← bits count)
  if value < 2 ^ 32 then return value else Run.fail .invalidExpGolomb

def ueMax (high : Nat) : Run ReadError ByteReader Nat := do
  let value ← ue
  if 0 ≤ value ∧ value ≤ high then return value else Run.fail (.outOfBounds 0 high value)

def toSigned (code : Nat) : Checked Int :=
  if code % 2 = 0 then int 64 (-((code / 2 : Nat) : Int)) else int 64 ((code / 2 + 1 : Nat) : Int)

def se : Run ReadError ByteReader Int := do
  toSigned (← ue)

theorem bit_does : Does bit BitReader.bit fun _ => True :=
  (bits_does 1).bind fun _ _ => .pure trivial

theorem map_zeros (count budget : Nat) :
    ((· + count) <$> BitReader.zeros (budget + 1)) = (do
      if ← BitReader.bit then return count
      else (· + (count + 1)) <$> BitReader.zeros budget) := by
  rw [BitReader.zeros, map_bind]
  congr 1
  funext one
  cases one with
  | true => simp
  | false => simp [Nat.add_right_comm, Nat.add_assoc]

/-- The zeros that are counted from here on use up the rest of the budget. -/
theorem zeros_does {count budget : Nat} (rest : count + budget = 31) :
    Does (zeros count) ((· + count) <$> BitReader.zeros (budget + 1)) (· < 32) := by
  have few : count + 1 < 2 ^ 64 := by omega
  induction budget generalizing count with
  | zero =>
    rw [map_zeros, zeros]
    refine bit_does.bind fun one _ => .ite (fun _ => .pure (by omega)) fun _ => ?_
    refine .lift (word_eq few) ?_
    rw [if_pos (by omega)]
    exact .fail _
  | succ budget ih =>
    rw [map_zeros, zeros]
    refine bit_does.bind fun one _ => .ite (fun _ => .pure (by omega)) fun _ => ?_
    refine .lift (word_eq few) ?_
    rw [if_neg (by omega)]
    exact ih (by omega) (by omega)

theorem ue_does : Does ue BitReader.ue (· < 2 ^ 32) := by
  have zeros : Does (zeros 0) (BitReader.zeros 32) (· < 32) := by
    simpa using zeros_does (Nat.zero_add 31)
  refine zeros.bind fun count few => ?_
  have small : 2 ^ count < 2 ^ 32 := Nat.pow_lt_pow_right (by decide) few
  refine .lift (shl_eq_of_lt few (by rwa [Nat.one_mul])) ?_
  rw [Nat.one_mul]
  refine .lift (minus_eq (Nat.two_pow_pos count)) ?_
  exact (bits_does count).bind fun value _ => .ite (fun fits => .pure fits) fun _ => .fail _

theorem ueMax_does (high : Nat) : Does (ueMax high) (BitReader.ueMax high) (· ≤ high) :=
  ue_does.bind fun _ _ => .ite (fun bounds => .pure bounds.2) fun _ => .fail _

theorem toSigned_eq {code : Nat} (small : code < 2 ^ 32) :
    toSigned code = .ok (ExpGolomb.toSigned code) := by
  unfold toSigned ExpGolomb.toSigned
  by_cases even : code % 2 = 0
  · rw [if_pos even, if_pos even, int_eq (by omega) (by omega)]
  · rw [if_neg even, if_neg even, int_eq (by omega) (by omega)]

theorem se_does : Does se BitReader.se fun _ => True :=
  ue_does.bind fun _ small => .last (toSigned_eq small) trivial

end ByteReader
end EvcStream.Machine
