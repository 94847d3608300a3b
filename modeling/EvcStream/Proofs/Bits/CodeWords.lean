import EvcStream.Proofs.Bits.Moving
import EvcStream.Proofs.Bits.Writing
/-!
# One code word for each number

No code word begins another one, so bits begin with one code word at most, and they begin with none
only if there are too many zeros in front or the bits break off within a code word. What a reader
has read is thus the one spelling that its number has, and a writer gives the same bits for it.
-/
namespace EvcStream

namespace BitWriter

/-- A code word by the arithmetic of 32 bits: the value is increased with a check, and the zeros in
front of it tell how many digits it has. -/
def ueWord (value : UInt32) (w : BitWriter) : Except WriteError BitWriter :=
  if value.toNat + 1 < 2 ^ 32 then
    let digits := 32 - (value + 1).toBitVec.clz.toNat
    field (digits - 1) 0 w >>= field digits (value + 1).toNat
  else .error .overflow

def seWord (value : Int32) (w : BitWriter) : Except WriteError BitWriter :=
  let doubled := 2 * value.toInt.natAbs
  if doubled < 2 ^ 32 then
    ueWord (UInt32.ofNat (if value ≤ 0 then doubled else doubled - 1)) w
  else .error .overflow

/-- A number has as many digits as its word has bits behind the zeros in front. -/
theorem digits_eq {word : BitVec 32} (nonzero : word ≠ 0) :
    32 - word.clz.toNat = word.toNat.log2 + 1 := by
  have inside : word.clz.toNat < 32 := BitVec.lt_def.mp (BitVec.clz_lt_iff_ne_zero.mpr nonzero)
  have positive : word.toNat ≠ 0 := fun zero => nonzero (BitVec.eq_of_toNat_eq zero)
  have leading := BitVec.getLsbD_true_clz_of_ne_zero (by decide) nonzero
  have low : 2 ^ (31 - word.clz.toNat) ≤ word.toNat := Nat.ge_two_pow_of_testBit leading
  have high : word.toNat < 2 ^ (32 - word.clz.toNat) := BitVec.toNat_lt_two_pow_sub_clz
  have next : 31 - word.clz.toNat + 1 = 32 - word.clz.toNat := by omega
  have digits : word.toNat.log2 = 31 - word.clz.toNat := by
    rw [Nat.log2_eq_iff positive, next]
    exact ⟨low, high⟩
  omega

theorem field_eq {count : Nat} (narrow : count ≤ 32) (value : Nat) (w : BitWriter) :
    field count value w = .ok (w.append (Bits.ofNat count value)) :=
  if_neg (Nat.not_lt.mpr narrow)

theorem ueWord_eq (value : UInt32) (w : BitWriter) : ueWord value w = ue value.toNat w := by
  unfold ueWord ue
  by_cases codable : value.toNat + 1 < 2 ^ 32
  · have next : (value + 1).toNat = value.toNat + 1 := by
      rw [UInt32.toNat_add]
      exact Nat.mod_eq_of_lt codable
    have nonzero : (value + 1).toBitVec ≠ 0 := by
      intro zero
      have none := congrArg BitVec.toNat zero
      change (value + 1).toNat = 0 at none
      omega
    have narrow : (value.toNat + 1).log2 < 32 := (Nat.log2_lt (by omega)).mpr codable
    have digits := digits_eq nonzero
    change _ = (value + 1).toNat.log2 + 1 at digits
    rw [next] at digits
    rw [if_pos codable, if_pos codable, digits, next]
    dsimp only
    rw [Nat.add_sub_cancel, field_eq (by omega)]
    change field _ _ _ = _
    rw [field_eq (by omega), Bits.ofNat_zero]
    exact congrArg Except.ok List.foldl_append.symm
  · rw [if_neg codable, if_neg codable]

theorem seWord_eq (value : Int32) (w : BitWriter) : seWord value w = se value.toInt w := by
  unfold seWord se
  dsimp only
  by_cases small : 2 * value.toInt.natAbs < 2 ^ 32
  · have sign : value ≤ 0 ↔ value.toInt ≤ 0 := Int32.le_iff_toInt_le
    have code : (if value ≤ 0 then 2 * value.toInt.natAbs else 2 * value.toInt.natAbs - 1) =
        ExpGolomb.ofSigned value.toInt := by
      simp only [sign, ExpGolomb.ofSigned]
    have bounded : ExpGolomb.ofSigned value.toInt < 2 ^ 32 :=
      Nat.lt_of_succ_lt (ExpGolomb.ofSigned_codable small)
    rw [if_pos small, if_pos small, code, ueWord_eq, UInt32.toNat_ofNat_of_lt' bounded]
  · rw [if_neg small, if_neg small]

/-- At whatever place a writer is, the step adds these bits. -/
def Writes (step : BitWriter → Except WriteError BitWriter) (bits : Bits) : Prop :=
  ∀ w : BitWriter, w.Started →
    ∃ v : BitWriter, step w = .ok v ∧ v.Started ∧ v.written = w.written ++ bits

theorem ue_writes {value : Nat} (codable : value + 1 < 2 ^ 32) :
    Writes (ue value) (ExpGolomb.codeWord value) := by
  intro w started
  exact ⟨_, if_pos codable, append_written started _⟩

theorem se_writes {value : Int} (small : 2 * value.natAbs < 2 ^ 32) :
    Writes (se value) (ExpGolomb.codeWord (ExpGolomb.ofSigned value)) := by
  intro w started
  obtain ⟨v, wrote, added⟩ := ue_writes (ExpGolomb.ofSigned_codable small) w started
  exact ⟨v, (if_pos small).trans wrote, added⟩

end BitWriter

namespace ExpGolomb

open BitReader (leadingZeros_split)
open BitReader.Read (leadingZeros)

/-- The bits break off within the code word of some number. -/
def EndsInside (bits : Bits) : Prop :=
  ∃ value, value + 1 < 2 ^ 32 ∧ bits <+: codeWord value ∧ bits ≠ codeWord value

variable {bits : Bits} {value other : Nat}

theorem suffix_lt (suffix : Bits) (short : suffix.length < 32) :
    2 ^ suffix.length - 1 + suffix.toNat + 1 < 2 ^ 32 := by
  have small := Bits.toNat_lt suffix
  have bounded : 2 ^ suffix.length ≤ 2 ^ 31 := Nat.pow_le_pow_right (by omega) (by omega)
  omega

theorem endsInside_of_append {front : Bits} (missing suffix : Bits)
    (short : suffix.length < 32) (some : missing ≠ [])
    (whole : front ++ missing = List.replicate suffix.length false ++ true :: suffix) :
    EndsInside front := by
  have code : codeWord (2 ^ suffix.length - 1 + suffix.toNat) = front ++ missing := by
    rw [BitReader.codeWord_of_suffix, List.append_assoc, whole]
    rfl
  refine ⟨_, suffix_lt suffix short, ⟨missing, code.symm⟩, ?_⟩
  intro all
  rw [code] at all
  exact some (List.self_eq_append_right.mp all)

/-- Bits begin with too many zeros, or break off within a code word, or begin with a whole one. -/
theorem beginnings (bits : Bits) :
    List.replicate 32 false <+: bits ∨ EndsInside bits ∨
      ∃ value, value + 1 < 2 ^ 32 ∧ codeWord value <+: bits := by
  have split := leadingZeros_split bits
  generalize leadingZeros bits = count at split
  by_cases many : 32 ≤ count
  · left
    obtain ⟨more, rfl⟩ := Nat.exists_eq_add_of_le many
    rw [← List.replicate_append_replicate] at split
    rcases split with none | ⟨later, split⟩
    · exact ⟨_, none.symm⟩
    · exact ⟨_, (split.trans (List.append_assoc _ _ _)).symm⟩
  right
  have few : count < 32 := Nat.lt_of_not_le many
  rcases split with rfl | ⟨later, rfl⟩
  · left
    apply endsInside_of_append (true :: List.replicate count false) (List.replicate count false)
    all_goals simp [few]
  by_cases enough : count ≤ later.length
  · right
    have length : (later.take count).length = count := by
      rw [List.length_take, Nat.min_eq_left enough]
    refine ⟨_, suffix_lt (later.take count) (by omega), later.drop count, ?_⟩
    rw [BitReader.codeWord_of_suffix, length]
    simp
  · left
    have length : (later ++ List.replicate (count - later.length) false).length = count := by
      rw [List.length_append, List.length_replicate]
      omega
    apply endsInside_of_append (List.replicate (count - later.length) false)
      (later ++ List.replicate (count - later.length) false)
    · omega
    · simp
      omega
    · rw [length]
      simp

/-- No code word begins another one. -/
theorem eq_of_prefix (codable : value + 1 < 2 ^ 32) (also : other + 1 < 2 ^ 32)
    (starts : codeWord value <+: codeWord other) : value = other := by
  obtain ⟨rest, whole⟩ := starts
  obtain ⟨padding, -, packed⟩ := Bits.ofBytes_toBytes (codeWord other)
  have unread : (BitReader.ofBytes (Bits.toBytes (codeWord other))).unread =
      codeWord other ++ List.replicate padding false := packed
  obtain ⟨s, read, -⟩ := BitReader.reads_ue also _ _ unread
  rw [← whole, List.append_assoc] at unread
  obtain ⟨t, same, -⟩ := BitReader.reads_ue codable _ _ unread
  rw [whole, read] at same
  cases same
  rfl

end ExpGolomb

namespace BitReader

open BitWriter (Writes ueWord seWord)
open ExpGolomb (codeWord EndsInside)

variable {r s : BitReader} {format : IntFormat} {value : Int}

theorem deliver_ok {number : Int} (h : deliver format number r = .ok value s) :
    value = number ∧ s = r := by
  unfold deliver at h
  split at h
  · cases h
    exact ⟨rfl, rfl⟩
  · cases h

theorem ueAs_ok (h : ueAs format r = .ok value s) : ∃ number : Nat, value = number ∧
    ue r = .ok number s := by
  obtain ⟨number, t, read, delivered⟩ := bind_run_ok h
  obtain ⟨rfl, rfl⟩ := deliver_ok delivered
  exact ⟨number, rfl, read⟩

theorem seAs_ok (h : seAs format r = .ok value s) : se r = .ok value s := by
  obtain ⟨number, t, read, delivered⟩ := bind_run_ok h
  obtain ⟨rfl, rfl⟩ := deliver_ok delivered
  exact read

theorem ueAs_of_ok {number : Nat} (read : ue r = .ok number s) :
    ueAs ⟨false, 32⟩ r = .ok (number : Int) s := by
  have small := (ue_ok read).1
  have held : IntFormat.Holds ⟨false, 32⟩ number := by
    change 0 ≤ (number : Int) ∧ (number : Int) < 2 ^ 32
    omega
  refine (bind_run_of_ok read).trans ?_
  rw [deliver, if_pos held]
  rfl

/-- A code word is refused for too many zeros in front, or for want of bits. -/
theorem ue_error_iff (r : BitReader) :
    (∃ error s, ue r = .error error s) ↔
      List.replicate 32 false <+: r.unread ∨ EndsInside r.unread := by
  constructor
  · rintro ⟨error, s, failed⟩
    rcases ExpGolomb.beginnings r.unread with zeros | inside | ⟨value, codable, rest, whole⟩
    · exact Or.inl zeros
    · exact Or.inr inside
    · obtain ⟨t, read, -⟩ := reads_ue codable r rest whole.symm
      cases failed.symm.trans read
  · rintro (⟨rest, zeros⟩ | ⟨value, codable, starts, part⟩)
    · obtain ⟨s, failed, -⟩ := zeros_over zeros.symm
      exact ⟨_, s, bind_run_of_error failed⟩
    · cases ended : ue r with
      | error error s => exact ⟨error, s, rfl⟩
      | ok number s =>
        -- The code word that was read would be the beginning of the other one.
        obtain ⟨small, consumed⟩ := ue_ok ended
        have front : codeWord number <+: r.unread := ⟨_, consumed.unread.symm⟩
        obtain rfl := ExpGolomb.eq_of_prefix small codable (front.trans starts)
        exact absurd (starts.eq_of_length_le front.length_le) part

/-- A code word that was read is the only spelling of its number, and a writer gives just these
bits, in words of 32 bits too. A signed number that was read is one that can be written. Reading
fails if there are 32 zeros in front or the bits end within a code word, and for no other reason:
the sum of what the zeros and the digits stand for always fits 32 bits. -/
theorem codes_canonical (r : BitReader) :
    (∀ value s, ueAs ⟨false, 32⟩ r = .ok value s → ∃ (number : Nat) (code : Bits),
      value = number ∧ number + 1 < 2 ^ 32 ∧ Consumes r s code ∧
        code.length = 2 * (number + 1).log2 + 1 ∧ Writes (BitWriter.ue number) code) ∧
    (∀ value s, seAs ⟨true, 64⟩ r = .ok value s → -2 ^ 31 < value ∧ value < 2 ^ 31 ∧
      ∃ code, Consumes r s code ∧ Writes (BitWriter.se value) code) ∧
    ((∃ error s, ueAs ⟨false, 32⟩ r = .error error s) ↔
      List.replicate 32 false <+: r.unread ∨ EndsInside r.unread) ∧
    (∀ count low s t, zeros 32 r = .ok count s → bits count s = .ok low t →
      2 ^ count - 1 + low < 2 ^ 32) ∧
    (∀ number : UInt32, BitWriter.ue number.toNat = ueWord number) ∧
    ∀ number : Int32, BitWriter.se number.toInt = seWord number := by
  refine ⟨?_, ?_, ?_, ?_, ?_, ?_⟩
  · intro value s delivered
    obtain ⟨number, same, read⟩ := ueAs_ok delivered
    obtain ⟨small, consumed⟩ := ue_ok read
    exact ⟨number, codeWord number, same, small, consumed, codeWord_length number,
      BitWriter.ue_writes small⟩
  · intro value s delivered
    have read := seAs_ok delivered
    obtain ⟨small, consumed⟩ := se_ok read
    exact ⟨by omega, by omega, _, consumed, BitWriter.se_writes small⟩
  · rw [← ue_error_iff]
    constructor
    · rintro ⟨error, s, failed⟩
      cases ended : ue r with
      | ok number t => cases failed.symm.trans (ueAs_of_ok ended)
      | error fault t => exact ⟨fault, t, rfl⟩
    · rintro ⟨error, s, failed⟩
      exact ⟨error, s, bind_run_of_error failed⟩
  · intro count low s t counted read
    obtain ⟨few, -⟩ := zeros_ok counted
    obtain ⟨suffix, rfl, -, rfl, -⟩ := bits_ok read
    have small := ExpGolomb.suffix_lt suffix few
    omega
  · intro number
    funext w
    exact (BitWriter.ueWord_eq number w).symm
  · intro number
    funext w
    exact (BitWriter.seWord_eq number w).symm

/-- Seven bits behind the third one, over the end of a byte, are a code word with or without a
sign. -/
theorem codes_canonical_across_bytes :
    let r : BitReader := { rest := [64], current := 163, available := 5, position := 3 }
    let s : BitReader := { rest := [], current := 64, available := 6, position := 10 }
    ueAs ⟨false, 32⟩ r = .ok 12 s ∧ seAs ⟨true, 64⟩ r = .ok (-6) s ∧
      (∃ code, Consumes r s code ∧ code.length = 7 ∧ Writes (BitWriter.ue 12) code) ∧
      ∃ code, Consumes r s code ∧ Writes (BitWriter.se (-6)) code := by
  intro r s
  have number : ueAs ⟨false, 32⟩ r = .ok 12 s := by decide +kernel
  have signed : seAs ⟨true, 64⟩ r = .ok (-6) s := by decide +kernel
  obtain ⟨unsigned, negative, -⟩ := codes_canonical r
  obtain ⟨twelve, code, same, -, consumed, length, writes⟩ := unsigned 12 s number
  obtain rfl : twelve = 12 := by omega
  obtain ⟨-, -, others⟩ := negative (-6) s signed
  exact ⟨number, signed, ⟨code, consumed, length, writes⟩, others⟩

end BitReader
end EvcStream
