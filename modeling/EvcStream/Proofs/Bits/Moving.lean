import EvcStream.Proofs.Bits.Reading
/-!
# Where reads leave the reader

How far a read moves is decided by the unread bits, and not by its success. A fixed-width read that
asks for too many bits stays in its place. Any other read that fails stays only if it has not got
any bit at all: a skip keeps its whole pieces, a code word that breaks off keeps what it has, and a
value is refused after it was read.
-/
namespace EvcStream.BitReader

/-- The reads of a reader, with the integers that they deliver their value in. -/
inductive Read where
  | bit
  | bits (format : IntFormat) (count : Nat)
  | skip (count : Nat)
  | ue (format : IntFormat)
  | ueMax (format : IntFormat) (high : Nat)
  | ueBounded (format : IntFormat) (low high : Nat)
  | se (format : IntFormat)
  | seBounded (format : IntFormat) (low high : Int)
  deriving DecidableEq, Repr

namespace Read

def run : Read → ReadM Int
  | bit => do return ((← BitReader.bit).toNat : Int)
  | bits format count => bitsAs format count
  | skip count => do
    BitReader.skip count
    return 0
  | ue format => ueAs format
  | ueMax format high => ueBoundedAs format 0 high
  | ueBounded format low high => ueBoundedAs format low high
  | se format => seAs format
  | seBounded format low high => seBoundedAs format low high

def leadingZeros : Bits → Nat
  | false :: later => leadingZeros later + 1
  | _ => 0

def fieldReach (count left : Nat) : Nat := if 32 < count ∨ left < count then 0 else count

/-- A skip that runs out has moved in pieces of 32 bits. -/
def skipReach (count left : Nat) : Nat := if left < count then 32 * (left / 32) else count

/-- A code word has as many digits behind its one as zeros in front of it. It ends early at the
last zero that it may have, at the end of the bits, or at a one without all of its digits. -/
def codeReach (unread : Bits) : Nat :=
  let zeros := leadingZeros unread
  if 32 ≤ zeros then 32
  else if unread.length = zeros then zeros
  else if unread.length < 2 * zeros + 1 then zeros + 1
  else 2 * zeros + 1

/-- How many of the unread bits a read moves over. -/
def reach (read : Read) (unread : Bits) : Nat :=
  match read with
  | bit => fieldReach 1 unread.length
  | bits _ count => fieldReach count unread.length
  | skip count => skipReach count unread.length
  | ue _ | ueMax .. | ueBounded .. | se _ | seBounded .. => codeReach unread

def KeepsPlace (read : Read) (left : Nat) : Prop :=
  match read with
  | bit => left = 0
  | bits _ count => count = 0 ∨ 32 < count ∨ left < count
  | skip count => count = 0 ∨ left < min count 32
  | ue _ | ueMax .. | ueBounded .. | se _ | seBounded .. => left = 0

end Read

open Read

/-- The reader has moved over these bits, and if these are none, it is as it was. -/
structure Moved (r s : BitReader) (bits : Bits) : Prop extends Consumes r s bits where
  stays : bits = [] → s = r

def Moves {α : Type} (part : ReadM α) (r : BitReader) (bits : Bits) : Prop :=
  match part r with
  | .ok _ s => Moved r s bits
  | .error _ s => Moved r s bits

section
variable {α β : Type} {part : ReadM α} {next : α → ReadM β} {r s t : BitReader}
  {front back : Bits} {value : α} {error : ReadError}

theorem Moved.refl (r : BitReader) : Moved r r [] := ⟨Consumes.refl r, fun _ => rfl⟩

theorem Moved.trans (h : Moved r s front) (k : Moved s t back) : Moved r t (front ++ back) := by
  refine ⟨h.toConsumes.trans k.toConsumes, fun none => ?_⟩
  obtain ⟨noFront, noBack⟩ := List.append_eq_nil_iff.mp none
  rw [k.stays noBack, h.stays noFront]

theorem Moved.take_add (moved : Moved r s front) (more : Nat) :
    r.unread.take (front.length + more) = front ++ s.unread.take more := by
  rw [moved.unread, List.take_length_add_append]

theorem Moves.of_ok (read : part r = .ok value s) (moved : Moved r s front) :
    Moves part r front := by
  rwa [Moves, read]

theorem Moves.of_error (failed : part r = .error error s) (moved : Moved r s front) :
    Moves part r front := by
  rwa [Moves, failed]

theorem Moves.of_length {n : Nat} (failed : part r = .error error s) (moved : Moved r s front)
    (length : front.length = n) : Moves part r (r.unread.take n) := by
  rw [← length, moved.unread, List.take_left]
  exact .of_error failed moved

theorem Moves.bind (read : part r = .ok value s) (moved : Moved r s front)
    (later : Moves (next value) s back) : Moves (part >>= next) r (front ++ back) := by
  unfold Moves at later ⊢
  rw [bind_run_of_ok read]
  cases ended : next value s with
  | ok b t =>
    rw [ended] at later
    exact moved.trans later
  | error fault t =>
    rw [ended] at later
    exact moved.trans later

theorem Moves.bind_error (failed : part r = .error error s) (moved : Moved r s front) :
    Moves (part >>= next) r front :=
  .of_error (bind_run_of_error failed) moved

/-- What only looks at a value leaves the reader where the value has ended. -/
theorem Moves.before (moves : Moves part r front)
    (stays : ∀ a s, (∃ b, next a s = .ok b s) ∨ ∃ error, next a s = .error error s) :
    Moves (part >>= next) r front := by
  unfold Moves at moves
  cases ended : part r with
  | ok a s =>
    rw [ended] at moves
    rcases stays a s with ⟨b, delivered⟩ | ⟨error, refused⟩
    · exact .of_ok ((bind_run_of_ok ended).trans delivered) moves
    · exact .of_error ((bind_run_of_ok ended).trans refused) moves
  | error error s =>
    rw [ended] at moves
    exact .bind_error ended moves

end

theorem check_stays {α : Type} {condition : Prop} [Decidable condition] (value : α)
    (fault : ReadError) (s : BitReader) :
    (∃ b, (if condition then pure value else throw fault : ReadM α) s = .ok b s) ∨
      ∃ error, (if condition then pure value else throw fault : ReadM α) s = .error error s := by
  by_cases holds : condition
  · rw [if_pos holds]
    exact Or.inl ⟨value, rfl⟩
  · rw [if_neg holds]
    exact Or.inr ⟨fault, rfl⟩

section
variable {r : BitReader} {digit : Bool} {rest : Bits} {count budget : Nat}

theorem bits_wide (wide : 32 < count) (r : BitReader) :
    bits count r = .error (.tooManyBits count) r := if_pos wide

theorem bits_out (narrow : count ≤ 32) (few : r.left < count) :
    bits count r = .error (.notEnoughBits count r.left) r := by
  rw [bits, if_neg (Nat.not_lt.mpr narrow), if_neg (by omega), if_pos few]

theorem bits_moved (narrow : count ≤ 32) (enough : count ≤ r.left) :
    ∃ value s, bits count r = .ok value s ∧ Moved r s (r.unread.take count) := by
  have length : (r.unread.take count).length = count := by
    rw [List.length_take, unread_length, Nat.min_eq_left enough]
  obtain ⟨s, read, -⟩ := reads_bits (r.unread.take count) (by omega) r (r.unread.drop count)
    (List.take_append_drop _ _).symm
  rw [length] at read
  obtain ⟨front, whole, -, -, consumed⟩ := bits_ok read
  obtain rfl : front = r.unread.take count := by
    rw [consumed.unread, ← whole, List.take_left]
  refine ⟨_, s, read, consumed, fun none => ?_⟩
  rw [none] at length read
  obtain rfl : 0 = count := length
  cases read
  rfl

theorem bits_moves (count : Nat) (r : BitReader) :
    Moves (bits count) r (r.unread.take (fieldReach count r.left)) := by
  by_cases wide : 32 < count
  · rw [fieldReach, if_pos (Or.inl wide)]
    exact .of_error (bits_wide wide r) (Moved.refl r)
  by_cases few : r.left < count
  · rw [fieldReach, if_pos (Or.inr few)]
    exact .of_error (bits_out (Nat.le_of_not_lt wide) few) (Moved.refl r)
  · obtain ⟨value, s, read, moved⟩ := bits_moved (Nat.le_of_not_lt wide) (Nat.le_of_not_lt few)
    rw [fieldReach, if_neg (by omega)]
    exact .of_ok read moved

theorem bit_moved (unread : r.unread = digit :: rest) :
    ∃ s, bit r = .ok digit s ∧ Moved r s [digit] ∧ s.unread = rest := by
  obtain ⟨s, read, behind⟩ := reads_bit digit r rest unread
  exact ⟨s, read, ⟨bit_ok read, nofun⟩, behind⟩

theorem bit_out (unread : r.unread = []) : bit r = .error (.notEnoughBits 1 0) r := by
  have none : r.left = 0 := by rw [← unread_length, unread, List.length_nil]
  have failed := bits_out (by decide) (by omega : r.left < 1)
  rw [none] at failed
  exact bind_run_of_error failed

/-- A skip goes from piece to piece, and stops in front of the first one that is not complete. -/
theorem skip_moves (count : Nat) (r : BitReader) :
    Moves (skip count) r (r.unread.take (skipReach count r.left)) := by
  induction count using Nat.strongRecOn generalizing r with
  | ind count ih =>
    rw [skip]
    by_cases done : count = 0
    · rw [if_pos done, done]
      exact .of_ok rfl (Moved.refl r)
    rw [if_neg done]
    by_cases enough : min count 32 ≤ r.left
    · obtain ⟨value, s, read, moved⟩ := bits_moved (Nat.min_le_right count 32) enough
      have left : s.left = r.left - min count 32 := by
        have lengths := congrArg List.length moved.unread
        rw [List.length_append, List.length_take, unread_length, unread_length] at lengths
        omega
      have behind : s.unread = r.unread.drop (min count 32) := by
        have whole := List.take_append_drop (min count 32) r.unread
        exact List.append_cancel_left (moved.unread.symm.trans whole.symm)
      have later := ih (count - min count 32) (by omega) s
      have total : skipReach count r.left =
          min count 32 + skipReach (count - min count 32) s.left := by
        unfold skipReach
        split <;> split <;> omega
      rw [behind] at later
      rw [total, List.take_add]
      exact .bind read moved later
    · have none : skipReach count r.left = 0 := by
        unfold skipReach
        split <;> omega
      rw [none]
      exact .bind_error (bits_out (Nat.min_le_right count 32) (by omega)) (Moved.refl r)

/-- Zeros are counted up to a one, up to the end, or as far as they may go. -/
theorem zeros_moved (few : count < budget)
    (unread : r.unread = List.replicate count false ++ true :: rest) :
    ∃ s, zeros budget r = .ok count s ∧ Moved r s (List.replicate count false ++ [true]) ∧
      s.unread = rest := by
  have starts : r.unread = List.replicate count false ++ [true] ++ rest := by
    rw [unread, List.append_assoc]
    rfl
  obtain ⟨s, counted, behind⟩ := reads_zeros few r rest starts
  refine ⟨s, counted, ⟨(zeros_ok counted).2, fun none => ?_⟩, behind⟩
  exact absurd none (List.append_ne_nil_of_right_ne_nil _ (List.cons_ne_nil _ _))

theorem zeros_out (few : count < budget) (unread : r.unread = List.replicate count false) :
    ∃ s, zeros budget r = .error (.notEnoughBits 1 0) s ∧
      Moved r s (List.replicate count false) := by
  induction count generalizing r budget with
  | zero =>
    obtain ⟨budget, rfl⟩ := Nat.exists_eq_succ_of_ne_zero (Nat.ne_of_gt few)
    refine ⟨r, ?_, Moved.refl r⟩
    exact bind_run_of_error (bit_out unread)
  | succ count ih =>
    obtain ⟨budget, rfl⟩ := Nat.exists_eq_succ_of_ne_zero (Nat.ne_zero_of_lt few)
    obtain ⟨t, read, zero, behind⟩ := bit_moved unread
    obtain ⟨s, failed, others⟩ := ih (Nat.lt_of_succ_lt_succ few) behind
    exact ⟨s, (bind_run_of_ok read).trans (bind_run_of_error failed), zero.trans others⟩

theorem zeros_over (unread : r.unread = List.replicate budget false ++ rest) :
    ∃ s, zeros budget r = .error .invalidExpGolomb s ∧
      Moved r s (List.replicate budget false) := by
  induction budget generalizing r with
  | zero => exact ⟨r, rfl, Moved.refl r⟩
  | succ budget ih =>
    obtain ⟨t, read, zero, behind⟩ := bit_moved unread
    obtain ⟨s, failed, others⟩ := ih behind
    exact ⟨s, (bind_run_of_ok read).trans (bind_run_of_error failed), zero.trans others⟩

theorem leadingZeros_split (bits : Bits) :
    bits = List.replicate (leadingZeros bits) false ∨
      ∃ later, bits = List.replicate (leadingZeros bits) false ++ true :: later := by
  induction bits with
  | nil => exact Or.inl rfl
  | cons digit bits ih =>
    cases digit with
    | true => exact Or.inr ⟨bits, rfl⟩
    | false =>
      rcases ih with none | ⟨later, split⟩
      · exact Or.inl (congrArg (false :: ·) none)
      · exact Or.inr ⟨later, congrArg (false :: ·) split⟩

theorem ue_moves (r : BitReader) : Moves ue r (r.unread.take (codeReach r.unread)) := by
  have split := leadingZeros_split r.unread
  unfold codeReach
  generalize leadingZeros r.unread = count at split ⊢
  dsimp only
  by_cases many : 32 ≤ count
  · -- The first 32 bits are zeros, and more is not looked at.
    obtain ⟨rest, starts⟩ : ∃ rest, r.unread = List.replicate 32 false ++ rest := by
      have front : List.replicate count false =
          List.replicate 32 false ++ List.replicate (count - 32) false := by
        rw [List.replicate_append_replicate, Nat.add_sub_cancel' many]
      rcases split with none | ⟨later, split⟩
      · exact ⟨_, none.trans front⟩
      · exact ⟨_, by rw [split, front, List.append_assoc]⟩
    obtain ⟨s, failed, moved⟩ := zeros_over starts
    rw [if_pos many]
    exact .of_length (bind_run_of_error failed) moved List.length_replicate
  rw [if_neg many]
  have few : count < 32 := Nat.lt_of_not_le many
  rcases split with none | ⟨later, split⟩
  · have length : r.unread.length = count := by rw [none, List.length_replicate]
    obtain ⟨s, failed, moved⟩ := zeros_out few none
    rw [if_pos length]
    exact .of_length (bind_run_of_error failed) moved List.length_replicate
  · have length : r.unread.length = count + 1 + later.length := by
      rw [split, List.length_append, List.length_replicate, List.length_cons]
      omega
    obtain ⟨s, counted, moved, behind⟩ := zeros_moved few split
    have left : s.left = later.length := by rw [← unread_length, behind]
    have total : (if r.unread.length = count then count
        else if r.unread.length < 2 * count + 1 then count + 1 else 2 * count + 1) =
        (List.replicate count false ++ [true]).length + fieldReach count s.left := by
      rw [List.length_append, List.length_replicate, List.length_singleton, if_neg (by omega),
        length, left, fieldReach]
      by_cases short : later.length < count
      · rw [if_pos (by omega), if_pos (Or.inr short)]
      · rw [if_neg (by omega), if_neg (by omega)]
        omega
    rw [total, moved.take_add]
    exact .bind counted moved ((bits_moves count s).before fun _ => check_stays _ _)

end

namespace Read

theorem pure_stays {α : Type} (value : α) (s : BitReader) :
    (∃ b, (Pure.pure value : ReadM α) s = .ok b s) ∨
      ∃ error, (Pure.pure value : ReadM α) s = .error error s := Or.inl ⟨value, rfl⟩

theorem moves (read : Read) (r : BitReader) :
    Moves read.run r (r.unread.take (read.reach r.unread)) := by
  have bounded (low high : Nat) :
      Moves (BitReader.ueBounded low high) r (r.unread.take (codeReach r.unread)) :=
    (ue_moves r).before fun _ => check_stays _ _
  have signed : Moves BitReader.se r (r.unread.take (codeReach r.unread)) :=
    (ue_moves r).before fun _ => pure_stays _
  unfold reach
  cases read with
  | bit =>
    rw [unread_length]
    exact ((bits_moves 1 r).before fun _ => pure_stays _).before fun _ => pure_stays _
  | bits format count =>
    rw [unread_length]
    exact (bits_moves count r).before fun _ => check_stays _ _
  | skip count =>
    rw [unread_length]
    exact (skip_moves count r).before fun _ => pure_stays _
  | ue format => exact (ue_moves r).before fun _ => check_stays _ _
  | ueMax format high => exact (bounded 0 high).before fun _ => check_stays _ _
  | ueBounded format low high => exact (bounded low high).before fun _ => check_stays _ _
  | se format => exact signed.before fun _ => check_stays _ _
  | seBounded format low high =>
    exact (signed.before fun _ => check_stays _ _).before fun _ => check_stays _ _

theorem leadingZeros_le (unread : Bits) : leadingZeros unread ≤ unread.length := by
  rcases leadingZeros_split unread with none | ⟨later, split⟩
  · have length := congrArg List.length none
    rw [List.length_replicate] at length
    omega
  · have length := congrArg List.length split
    rw [List.length_append, List.length_replicate] at length
    omega

theorem codeReach_le (unread : Bits) : codeReach unread ≤ unread.length := by
  have within := leadingZeros_le unread
  unfold codeReach
  dsimp only
  repeat' split
  all_goals omega

theorem reach_le (read : Read) (unread : Bits) : read.reach unread ≤ unread.length := by
  have code := codeReach_le unread
  unfold reach fieldReach skipReach
  cases read with
  | bit | bits format count | skip count =>
    dsimp only
    split <;> omega
  | ue | ueMax | ueBounded | se | seBounded => exact code

theorem codeReach_eq_zero_iff (unread : Bits) : codeReach unread = 0 ↔ unread.length = 0 := by
  have within := leadingZeros_le unread
  unfold codeReach
  dsimp only
  repeat' split
  all_goals omega

theorem reach_eq_zero_iff (read : Read) (unread : Bits) :
    read.reach unread = 0 ↔ read.KeepsPlace unread.length := by
  have code := codeReach_eq_zero_iff unread
  unfold reach KeepsPlace fieldReach skipReach
  cases read with
  | bit | bits format count | skip count =>
    dsimp only
    split <;> omega
  | ue | ueMax | ueBounded | se | seBounded => exact code

end Read

/-- A read that fails has moved as far as the unread bits let it, and no further. It has left the
reader as it was just in these cases: a fixed-width read that asks for too many bits or for none, a
skip without bits for its first piece, a code word without any bits. -/
theorem failed_read_moves {read : Read} {r s : BitReader} {error : ReadError}
    (failed : read.run r = .error error s) :
    s.unread = r.unread.drop (read.reach r.unread) ∧
    s.position = r.position + read.reach r.unread ∧
    s.left + read.reach r.unread = r.left ∧
    (s = r ↔ read.KeepsPlace r.left) := by
  have moves := read.moves r
  rw [Moves, failed] at moves
  have within := read.reach_le r.unread
  have length : (r.unread.take (read.reach r.unread)).length = read.reach r.unread := by
    rw [List.length_take, Nat.min_eq_left within]
  have unread : s.unread = r.unread.drop (read.reach r.unread) :=
    List.append_cancel_left (moves.unread.symm.trans (List.take_append_drop _ _).symm)
  have position := moves.position
  rw [length] at position
  refine ⟨unread, position, ?_, ?_⟩
  · have left := congrArg List.length unread
    rw [List.length_drop, unread_length, unread_length] at left
    rw [unread_length] at within
    omega
  · rw [← unread_length, ← read.reach_eq_zero_iff]
    constructor
    · intro same
      rw [same] at position
      omega
    · intro none
      rw [none] at moves
      exact moves.stays rfl

/-- Behind three bits that were read, a code word with nine zeros and three of its digits. -/
theorem failed_read_moves_digits :
    let u32 : IntFormat := ⟨false, 32⟩
    let r : BitReader := { rest := [9], current := 160, available := 5, position := 3 }
    let s : BitReader := { rest := [], current := 9, available := 3, position := 13 }
    (Read.bits u32 3).run (ofBytes [160, 9]) = .ok 5 r ∧
    (Read.ue u32).run r = .error (.notEnoughBits 9 3) s ∧
    s.unread = r.unread.drop 10 ∧ s.position = r.position + 10 ∧ s.left + 10 = r.left ∧
    (s = r ↔ (Read.ue u32).KeepsPlace r.left) := by
  intro u32 r s
  have failed : (Read.ue u32).run r = .error (.notEnoughBits 9 3) s := by
    decide +kernel
  have reach : (Read.ue u32).reach r.unread = 10 := by decide
  have moved := failed_read_moves failed
  rw [reach] at moved
  exact ⟨by decide +kernel, failed, moved⟩

/-- Four reads that fail and move: a code word that breaks off, a value that the integers cannot
hold, a skip with one whole piece, and a value out of bounds. The same bits, read afresh, are not
what is read behind them. -/
theorem failed_reads_leave_place :
    let u32 : IntFormat := ⟨false, 32⟩
    (∃ s t, (Read.ue u32).run (ofBytes [0]) = .error (.notEnoughBits 1 0) s ∧
      (s.left, s.position) = (0, 8) ∧ ((ofBytes [0]).left, (ofBytes [0]).position) = (8, 0) ∧
      (Read.bits u32 8).run s = .error (.notEnoughBits 8 0) s ∧
      (Read.bits u32 8).run (ofBytes [0]) = .ok 0 t) ∧
    (∃ s, (Read.bits ⟨true, 8⟩ 8).run (ofBytes [255]) = .error .conversionFailed s ∧
      (s.left, s.position) = (0, 8)) ∧
    (∃ s, (Read.skip 41).run (ofBytes [1, 2, 3, 4, 5]) = .error (.notEnoughBits 9 8) s ∧
      (s.left, s.position) = (8, 32)) ∧
    ∃ s, (Read.ueMax u32 3).run (ofBytes [40]) = .error (.outOfBounds 0 3 4) s ∧
      (s.left, s.position) = (3, 5) := by
  intro u32
  refine ⟨⟨⟨[], 0, 0, 8⟩, ⟨[], 0, 0, 8⟩, ?_, rfl, rfl, ?_, ?_⟩, ⟨⟨[], 255, 0, 8⟩, ?_, rfl⟩,
    ⟨⟨[5], 4, 0, 32⟩, ?_, rfl⟩, ⟨⟨[], 40, 3, 5⟩, ?_, rfl⟩⟩
  all_goals decide +kernel

end EvcStream.BitReader
