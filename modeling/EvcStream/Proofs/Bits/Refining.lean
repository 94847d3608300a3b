import EvcStream.Proofs.Bits.Moving
import EvcStream.Proofs.Machine.Reading
/-!
# Readers as places in a bit string

Whatever has been read of a byte string, and whether or not each read delivered its value, a reader
is nothing but a place in the string of all bits. The place tells which bits are left, and the bits
tell what a field is. On a machine the field is put together in a register, from whole bytes with
bits that have been read before, and it comes out the same.
-/
namespace EvcStream

theorem IntFormat.holds_zero (format : IntFormat) : format.Holds 0 := by
  have positive (width : Nat) : (0 : Int) < 2 ^ width := Int.pow_pos (by decide)
  have above := positive (format.width - 1)
  unfold Holds
  split
  · constructor <;> omega
  · exact ⟨Int.le_refl 0, positive format.width⟩

namespace BitReader

/-- The reader that a part leaves, whether or not it delivers a value. -/
def behind {α : Type} (part : ReadM α) (r : BitReader) : BitReader :=
  match part r with
  | .ok _ s => s
  | .error _ s => s

/-- The reader that some reads of a byte string leave, each of which may fail. -/
def after (bytes : List UInt8) (reads : List Read) : BitReader :=
  reads.foldl (fun r read => behind read.run r) (ofBytes bytes)

theorem behind_of_ok {α : Type} {part : ReadM α} {r s : BitReader} {value : α}
    (read : part r = .ok value s) : behind part r = s := by
  rw [behind, read]

theorem behind_of_error {α : Type} {part : ReadM α} {r s : BitReader} {error : ReadError}
    (failed : part r = .error error s) : behind part r = s := by
  rw [behind, failed]

def Keeps {α : Type} (property : BitReader → Prop) (part : ReadM α) : Prop :=
  ∀ r, property r → property (behind part r)

namespace Keeps

variable {α β : Type} {property : BitReader → Prop} {part : ReadM α} {next : α → ReadM β}

theorem pure (value : α) : Keeps property (Pure.pure value) := fun _ holds => holds

theorem throw (error : ReadError) : Keeps property (MonadExcept.throw error : ReadM α) :=
  fun _ holds => holds

theorem bind (h : Keeps property part) (k : ∀ a, Keeps property (next a)) :
    Keeps property (part >>= next) := by
  intro r holds
  have first := h r holds
  cases ended : part r with
  | ok a s =>
    rw [behind_of_ok ended] at first
    have same : behind (part >>= next) r = behind (next a) s := by
      unfold behind
      rw [bind_run_of_ok ended]
    rw [same]
    exact k a s first
  | error error s =>
    rw [behind_of_error ended] at first
    rw [behind_of_error (bind_run_of_error ended)]
    exact first

theorem ite {condition : Prop} [Decidable condition] {other : ReadM α} (h : Keeps property part)
    (k : Keeps property other) : Keeps property (if condition then part else other) := by
  split
  · exact h
  · exact k

end Keeps

/-- All reads are made of reads of bits, and keep what these keep. -/
theorem Read.keeps {property : BitReader → Prop}
    (field : ∀ count, Keeps property (BitReader.bits count)) (read : Read) :
    Keeps property read.run := by
  have deliver (format : IntFormat) (value : Int) : Keeps property (deliver format value) :=
    .ite (.pure _) (.throw _)
  have digit : Keeps property BitReader.bit := .bind (field 1) fun _ => .pure _
  have zeros (budget : Nat) : Keeps property (zeros budget) := by
    induction budget with
    | zero => exact .throw _
    | succ budget ih =>
      refine .bind digit fun one => ?_
      refine .ite (.pure _) ?_
      exact .bind ih fun count => .pure _
  have code : Keeps property BitReader.ue := by
    refine .bind (zeros 32) fun count => ?_
    refine .bind (field count) fun low => ?_
    exact .ite (.pure _) (.throw _)
  have bounded (low high : Nat) : Keeps property (BitReader.ueBounded low high) :=
    .bind code fun _ => .ite (.pure _) (.throw _)
  have signed : Keeps property BitReader.se := .bind code fun _ => .pure _
  have skip (count : Nat) : Keeps property (BitReader.skip count) := by
    induction count using Nat.strongRecOn with
    | ind count ih =>
      rw [BitReader.skip]
      by_cases done : count = 0
      · rw [if_pos done]
        exact .pure ()
      · rw [if_neg done]
        exact .bind (field _) fun _ => ih _ (by omega)
  cases read with
  | bit => exact .bind digit fun _ => .pure _
  | bits format count => exact .bind (field count) fun _ => deliver format _
  | skip count => exact .bind (skip count) fun _ => .pure _
  | ue format => exact .bind code fun _ => deliver format _
  | ueMax format high => exact .bind (bounded 0 high) fun _ => deliver format _
  | ueBounded format low high => exact .bind (bounded low high) fun _ => deliver format _
  | se format => exact .bind signed fun _ => deliver format _
  | seBounded format low high =>
    have inside : Keeps property (BitReader.seBounded low high) :=
      .bind signed fun value => .ite (.pure value) (.throw _)
    exact .bind inside fun _ => deliver format _

theorem after_keeps {property : BitReader → Prop} {bytes : List UInt8}
    (kept : ∀ read : Read, Keeps property read.run) (start : property (ofBytes bytes))
    (reads : List Read) : property (after bytes reads) := by
  unfold after
  generalize ofBytes bytes = r at start
  induction reads generalizing r with
  | nil => exact start
  | cons read reads ih => exact ih _ (kept read r start)

section
variable {α : Type} {part : ReadM α} {r s : BitReader} {bits : Bits} {bytes : List UInt8}

theorem Moves.consumes (moves : Moves part r bits) : Consumes r (behind part r) bits := by
  unfold Moves at moves
  cases ended : part r with
  | ok value s =>
    rw [ended] at moves
    rw [behind_of_ok ended]
    exact moves.toConsumes
  | error error s =>
    rw [ended] at moves
    rw [behind_of_error ended]
    exact moves.toConsumes

/-- The bits that have been read are in front of the reader, and all others are left. -/
theorem consumes_after (bytes : List UInt8) (reads : List Read) :
    ∃ front, Consumes (ofBytes bytes) (after bytes reads) front := by
  have kept (read : Read) :
      Keeps (fun r => ∃ front, Consumes (ofBytes bytes) r front) read.run := by
    rintro r ⟨front, consumed⟩
    exact ⟨_, consumed.trans (read.moves r).consumes⟩
  exact after_keeps kept ⟨[], Consumes.refl _⟩ reads

theorem position_add_left {front : Bits} (h : Consumes (ofBytes bytes) r front) :
    r.position + r.left = 8 * bytes.length := by
  have start : (ofBytes bytes).left = 8 * bytes.length := rfl
  have count := h.length
  have place : r.position = 0 + front.length := h.position
  rw [unread_length, unread_length, start] at count
  omega

theorem unread_eq_drop {front : Bits} (h : Consumes (ofBytes bytes) r front) :
    r.unread = (Bits.ofBytes bytes).drop r.position := by
  have whole : Bits.ofBytes bytes = front ++ r.unread := h.unread
  have place : r.position = 0 + front.length := h.position
  rw [place, Nat.zero_add, whole, List.drop_left]

end

section
variable {r : BitReader} {format : IntFormat} {count : Nat}

/-- The field is the number that the next bits spell, and it is left behind even if the integers
cannot hold it. -/
theorem bitsAs_field (format : IntFormat) (narrow : count ≤ 32) (enough : count ≤ r.left) :
    ∃ s, Moved r s (r.unread.take count) ∧ bitsAs format count r =
      if format.Holds (Bits.toNat (r.unread.take count)) then
        .ok (Bits.toNat (r.unread.take count) : Int) s
      else .error .conversionFailed s := by
  obtain ⟨value, s, read, moved⟩ := bits_moved narrow enough
  obtain ⟨front, whole, -, rfl, consumed⟩ := bits_ok read
  have same : r.unread.take count = front := by
    rw [consumed.unread, ← whole, List.take_left]
  refine ⟨s, moved, (bind_run_of_ok read).trans ?_⟩
  rw [same, deliver]
  split <;> rfl

theorem bitsAs_error {error : ReadError} (failed : bits count r = .error error r) :
    bitsAs format count r = .error error r :=
  bind_run_of_error failed

theorem bitsAs_stays_iff (format : IntFormat) (count : Nat) (r : BitReader) :
    (∃ error, bitsAs format count r = .error error r) ↔ 32 < count ∨ r.left < count := by
  constructor
  · rintro ⟨error, failed⟩
    by_cases fits : count ≤ 32 ∧ count ≤ r.left
    · obtain ⟨s, moved, read⟩ := bitsAs_field format fits.1 fits.2
      rw [failed] at read
      split at read
      · cases read
      · next unheld =>
        -- The bits of a refused value are left behind, so there are none, and they spell 0.
        cases read
        have place := moved.position
        rw [List.length_take, unread_length] at place
        obtain rfl : count = 0 := by omega
        exact absurd format.holds_zero unheld
    · omega
  · intro asked
    by_cases wide : 32 < count
    · exact ⟨_, bitsAs_error (bits_wide wide r)⟩
    · have few : r.left < count := asked.resolve_left wide
      exact ⟨_, bitsAs_error (bits_out (Nat.le_of_not_lt wide) few)⟩

theorem gather_isSome (enough : count ≤ r.left) :
    (gather count 0 r.current r.available r.rest).isSome := by
  obtain ⟨value, last, left, later, -, found⟩ := Machine.exists_gather enough
  rw [found]
  rfl

end

end BitReader

namespace Machine.ByteReader

def seen {ε α : Type} : EStateM.Result ε ByteReader α → EStateM.Result ε BitReader α
  | .ok a s => .ok a s.view
  | .error fault s => .error fault s.view

/-- A reader of a machine stands in these bytes, in front of the same bits. -/
def Shows (bytes : List UInt8) (r : BitReader) : Prop :=
  ∃ m : ByteReader, m.Counted ∧ m.data = bytes ∧ m.view = r

theorem bits_seen {m : ByteReader} (counted : m.Counted) (count : Nat) :
    seen <$> bits count m = .ok (BitReader.bits count m.view) := by
  rcases bits_ends counted count with ⟨value, s, done, read, -⟩ | ⟨fault, done, read⟩
  · rw [done, read]
    rfl
  · rw [done, read]
    rfl

theorem bits_keeps_shows (bytes : List UInt8) (count : Nat) :
    BitReader.Keeps (Shows bytes) (BitReader.bits count) := by
  rintro r ⟨m, counted, rfl, rfl⟩
  rcases bits_ends counted count with ⟨value, s, -, read, -, same, still⟩ | ⟨fault, -, read⟩
  · rw [BitReader.behind_of_ok read]
    exact ⟨s, still, same, rfl⟩
  · rw [BitReader.behind_of_error read]
    exact ⟨m, counted, rfl, rfl⟩

theorem shows_after {bytes : List UInt8} (small : bytes.length < 2 ^ 61)
    (reads : List BitReader.Read) : Shows bytes (BitReader.after bytes reads) :=
  BitReader.after_keeps (BitReader.Read.keeps (bits_keeps_shows bytes))
    ⟨ofBytes bytes, ofBytes_counted small, rfl, rfl⟩ reads

end Machine.ByteReader

namespace BitReader

open Machine.ByteReader (seen)

end BitReader
end EvcStream
