import EvcStream.Coding
import Mathlib.Algebra.Group.Int.Defs
import Mathlib.Algebra.Group.Nat.Defs
/-!
# Reads as functions of the unread bits

A bit string and its length determine each other's number. What a read gives, and what it leaves,
depends on the bits before the reader alone, whatever their place in the bytes; and a read that
succeeds has consumed just the bits that spell its value.
-/
namespace EvcStream
namespace Bits

theorem ofNat_zero (width : Nat) : ofNat width 0 = List.replicate width false := by
  induction width with
  | zero => rfl
  | succ width ih => rw [ofNat, Nat.zero_testBit, ih, List.replicate_succ]

theorem foldl_toNat (start : Nat) (bits : Bits) :
    bits.foldl (fun value bit => 2 * value + bit.toNat) start =
      start * 2 ^ bits.length + toNat bits := by
  induction bits generalizing start with
  | nil => simp [toNat]
  | cons bit bits ih =>
    have head := ih bit.toNat
    simp only [toNat, List.foldl_cons, List.length_cons, Nat.mul_zero, Nat.zero_add]
    rw [ih, head, Nat.pow_succ, Nat.add_mul, Nat.mul_comm 2 start, Nat.mul_assoc,
      Nat.mul_comm 2, Nat.add_assoc]

theorem toNat_append (front back : Bits) :
    toNat (front ++ back) = toNat front * 2 ^ back.length + toNat back := by
  rw [toNat, List.foldl_append]
  exact foldl_toNat (toNat front) back

theorem toNat_cons (bit : Bool) (bits : Bits) :
    toNat (bit :: bits) = bit.toNat * 2 ^ bits.length + toNat bits := by
  have alone : toNat [bit] = bit.toNat := by simp [toNat]
  rw [← List.singleton_append, toNat_append, alone]

theorem toNat_lt (bits : Bits) : toNat bits < 2 ^ bits.length := by
  induction bits with
  | nil => simp [toNat]
  | cons bit bits ih =>
    have small : bit.toNat * 2 ^ bits.length ≤ 1 * 2 ^ bits.length :=
      Nat.mul_le_mul_right _ bit.toNat_le
    rw [toNat_cons, List.length_cons, Nat.pow_succ]
    omega

theorem toNat_ofNat (width value : Nat) : toNat (ofNat width value) = value % 2 ^ width := by
  induction width with
  | zero => simp [ofNat, toNat, Nat.mod_one]
  | succ width ih =>
    rw [ofNat, toNat_cons, ofNat_length, ih, Nat.toNat_testBit, Nat.mod_pow_succ, Nat.mul_comm,
      Nat.add_comm]

theorem toNat_injective {front back : Bits} (length : front.length = back.length)
    (value : toNat front = toNat back) : front = back := by
  induction front generalizing back with
  | nil => exact (List.eq_nil_of_length_eq_zero length.symm).symm
  | cons bit front ih =>
    cases back with
    | nil => cases length
    | cons other back =>
      have same : front.length = back.length := by simpa using length
      have small := toNat_lt front
      have low := toNat_lt back
      rw [toNat_cons, toNat_cons, same] at value
      rw [same] at small
      -- The leading bits are the quotients by the same power, the rest the remainders.
      cases bit <;> cases other <;> simp only [Bool.toNat_true, Bool.toNat_false] at value
      · exact congrArg (false :: ·) (ih same (by omega))
      · omega
      · omega
      · exact congrArg (true :: ·) (ih same (by omega))

theorem ofNat_toNat (bits : Bits) : ofNat bits.length (toNat bits) = bits := by
  apply toNat_injective (ofNat_length _ _)
  rw [toNat_ofNat, Nat.mod_eq_of_lt (toNat_lt bits)]

theorem ofNat_add (high low value : Nat) :
    ofNat (high + low) value = ofNat high (value / 2 ^ low) ++ ofNat low value := by
  apply toNat_injective
  · simp
  · rw [toNat_append, toNat_ofNat, toNat_ofNat, toNat_ofNat, ofNat_length, Nat.add_comm high,
      Nat.pow_add, Nat.mod_mul, Nat.mul_comm, Nat.add_comm]

theorem ofByte_toByte {bits : Bits} (short : bits.length ≤ 8) :
    ofByte (toByte bits) = bits ++ List.replicate (8 - bits.length) false := by
  have whole : (bits ++ List.replicate (8 - bits.length) false).length = 8 := by
    rw [List.length_append, List.length_replicate]
    omega
  have small := toNat_lt (bits ++ List.replicate (8 - bits.length) false)
  rw [whole] at small
  rw [ofByte, toByte, UInt8.toNat_ofNat_of_lt' small]
  have numeral := ofNat_toNat (bits ++ List.replicate (8 - bits.length) false)
  rwa [whole] at numeral

theorem ofBytes_toBytes (bits : Bits) :
    ∃ padding < 8, ofBytes (toBytes bits) = bits ++ List.replicate padding false := by
  fun_induction toBytes bits with
  | case1 bits empty =>
    rw [List.isEmpty_iff] at empty
    exact ⟨0, by decide, by rw [empty]; rfl⟩
  | case2 bits nonempty ih =>
    obtain ⟨padding, small, packed⟩ := ih
    have first := ofByte_toByte (List.length_take_le 8 bits)
    rw [ofBytes_cons, packed, first]
    by_cases long : 8 ≤ bits.length
    · have full : 8 - (bits.take 8).length = 0 := by
        rw [List.length_take]
        omega
      refine ⟨padding, small, ?_⟩
      rw [full, List.replicate_zero, List.append_nil, ← List.append_assoc, List.take_append_drop]
    · -- The last byte: what is left behind it is nothing, and needs no padding of its own.
      have behind : bits.drop 8 = [] := List.drop_eq_nil_of_le (by omega)
      have last : bits.take 8 = bits := List.take_of_length_le (by omega)
      have nothing : padding = 0 := by
        have lengths := congrArg List.length packed
        rw [behind, toBytes] at lengths
        simpa using lengths.symm
      refine ⟨8 - bits.length, ?_, ?_⟩
      · have := List.length_pos_iff.mpr (mt List.isEmpty_iff.mpr nonempty)
        omega
      · rw [behind, last, nothing]
        simp

theorem toBytes_length (bits : Bits) : 8 * (toBytes bits).length < bits.length + 8 := by
  obtain ⟨padding, small, packed⟩ := ofBytes_toBytes bits
  have lengths := congrArg List.length packed
  rw [ofBytes_length, List.length_append, List.length_replicate] at lengths
  omega

end Bits

/-- The part reads exactly these bits, whatever is behind them, and delivers the value. -/
def Reads {ε α : Type} (part : EStateM ε BitReader α) (bits : Bits) (value : α) : Prop :=
  ∀ r rest, r.unread = bits ++ rest → ∃ s, part r = .ok value s ∧ s.unread = rest

namespace Reads

variable {ε α β : Type} {first : EStateM ε BitReader α} {front back : Bits} {a : α} {b : β}

theorem pure (a : α) : Reads (Pure.pure a : EStateM ε BitReader α) [] a := by
  intro r rest starts
  exact ⟨r, rfl, starts⟩

theorem bind {next : α → EStateM ε BitReader β} (h : Reads first front a)
    (k : Reads (next a) back b) : Reads (first >>= next) (front ++ back) b := by
  intro r rest starts
  rw [List.append_assoc] at starts
  obtain ⟨s, read, behind⟩ := h r _ starts
  obtain ⟨t, later, behind⟩ := k s rest behind
  refine ⟨t, ?_, behind⟩
  change EStateM.bind first next r = _
  rw [EStateM.bind, read]
  exact later

theorem bind_nil {next : α → EStateM ε BitReader β} (h : Reads first front a)
    (k : Reads (next a) [] b) : Reads (first >>= next) front b := by
  have both := h.bind k
  rwa [List.append_nil] at both

theorem map (f : α → β) (h : Reads first front a) :
    Reads (first >>= fun value => Pure.pure (f value)) front (f a) :=
  h.bind_nil (pure (f a))

theorem of_pos {condition : Prop} [Decidable condition] {part other : EStateM ε BitReader α}
    (holds : condition) (h : Reads part front a) :
    Reads (if condition then part else other) front a := by
  rwa [if_pos holds]

end Reads

namespace BitReader

theorem gather_of_enough {bits behind : Bits} {rest : List UInt8} {current : UInt8}
    {available : Nat} (value : Nat) (enough : bits.length ≤ available)
    (starts : Bits.ofNat available current.toNat ++ Bits.ofBytes rest = bits ++ behind) :
    gather bits.length value current available rest =
        some (value * 2 ^ bits.length + bits.toNat, current, available - bits.length, rest) ∧
      Bits.ofNat (available - bits.length) current.toNat ++ Bits.ofBytes rest = behind := by
  obtain ⟨left, rfl⟩ : ∃ left, available = bits.length + left :=
    ⟨_, (Nat.add_sub_of_le enough).symm⟩
  rw [Bits.ofNat_add, List.append_assoc] at starts
  obtain ⟨same, others⟩ := List.append_inj starts (Bits.ofNat_length _ _)
  have number : bits.toNat = current.toNat / 2 ^ left % 2 ^ bits.length := by
    rw [← Bits.toNat_ofNat, same]
  rw [Nat.add_sub_cancel_left]
  refine ⟨?_, others⟩
  cases rest <;> simp only [gather, if_pos enough, number, Nat.add_sub_cancel_left]

/-- Bits in front of the unread ones are gathered, across bytes, and the others stay unread. -/
theorem gather_of_append {bits behind : Bits} {rest : List UInt8} {current : UInt8}
    {available : Nat} (value : Nat)
    (starts : Bits.ofNat available current.toNat ++ Bits.ofBytes rest = bits ++ behind) :
    ∃ last left later,
      gather bits.length value current available rest =
        some (value * 2 ^ bits.length + bits.toNat, last, left, later) ∧
      Bits.ofNat left last.toNat ++ Bits.ofBytes later = behind := by
  induction rest generalizing bits value current available with
  | nil =>
    have lengths := congrArg List.length starts
    simp only [List.length_append, Bits.ofNat_length, Bits.ofBytes_nil, List.length_nil]
      at lengths
    exact ⟨_, _, _, gather_of_enough value (by omega) starts⟩
  | cons next rest ih =>
    by_cases enough : bits.length ≤ available
    · exact ⟨_, _, _, gather_of_enough value enough starts⟩
    -- The current byte is used up, and the bits go on in the next one.
    obtain ⟨further, rfl, onward⟩ : ∃ further,
        bits = Bits.ofNat available current.toNat ++ further ∧
          Bits.ofBytes (next :: rest) = further ++ behind := by
      rcases List.append_eq_append_iff.mp starts with split | ⟨kept, whole, -⟩
      · exact split
      · have lengths := congrArg List.length whole
        simp only [List.length_append, Bits.ofNat_length] at lengths
        omega
    obtain ⟨last, left, later, gathered, others⟩ :=
      ih (value * 2 ^ available + current.toNat % 2 ^ available) onward
    refine ⟨last, left, later, ?_, others⟩
    rw [gather, if_neg enough, List.length_append, Bits.ofNat_length, Nat.add_sub_cancel_left,
      gathered, Bits.toNat_append, Bits.toNat_ofNat, Nat.pow_add, Nat.add_mul, Nat.mul_assoc,
      Nat.add_assoc]

theorem unread_length (r : BitReader) : r.unread.length = r.left := by
  simp only [unread, left, List.length_append, Bits.ofNat_length, Bits.ofBytes_length]
  omega

theorem reads_bits (bits : Bits) (fits : bits.length ≤ 32) :
    Reads (BitReader.bits bits.length) bits bits.toNat := by
  intro r rest starts
  by_cases none : bits.length = 0
  · obtain rfl := List.eq_nil_of_length_eq_zero none
    exact ⟨r, rfl, starts⟩
  · obtain ⟨last, left, later, gathered, others⟩ := gather_of_append 0 starts
    have enough : ¬ r.left < bits.length := by
      rw [← unread_length, starts, List.length_append]
      omega
    refine ⟨⟨later, last, left, r.position + bits.length⟩, ?_, others⟩
    simp only [BitReader.bits, if_neg (by omega : ¬ 32 < bits.length), if_neg none, if_neg enough,
      gathered, Nat.zero_mul, Nat.zero_add]

theorem reads_number {width value : Nat} (narrow : width ≤ 32) (fits : value < 2 ^ width) :
    Reads (bits width) (Bits.ofNat width value) value := by
  have read := reads_bits (Bits.ofNat width value) (by rwa [Bits.ofNat_length])
  rwa [Bits.ofNat_length, Bits.toNat_ofNat, Nat.mod_eq_of_lt fits] at read

theorem reads_bit (value : Bool) : Reads bit [value] value := by
  have read := (reads_bits [value] (by simp)).map (· == 1)
  cases value <;> exact read

theorem reads_zeros {count budget : Nat} (h : count < budget) :
    Reads (zeros budget) (List.replicate count false ++ [true]) count := by
  induction budget generalizing count with
  | zero => omega
  | succ budget ih =>
    cases count with
    | zero => exact (reads_bit true).bind (Reads.pure 0)
    | succ count => exact (reads_bit false).bind ((ih (by omega)).map (· + 1))

/-- The binary expansion behind the zeros of a code word starts with a one. -/
theorem codeWord_eq (value : Nat) :
    ExpGolomb.codeWord value =
      (List.replicate (value + 1).log2 false ++ [true]) ++
        Bits.ofNat (value + 1).log2 (value + 1) := by
  have leading : (value + 1).testBit (value + 1).log2 = true := Nat.testBit_log2 (by omega)
  rw [ExpGolomb.codeWord, Bits.ofNat, leading, List.append_assoc]
  rfl

theorem codeWord_length (value : Nat) :
    (ExpGolomb.codeWord value).length = 2 * (value + 1).log2 + 1 := by
  simp only [ExpGolomb.codeWord, List.length_append, List.length_replicate, Bits.ofNat_length]
  omega

theorem reads_ue {value : Nat} (fits : value + 1 < 2 ^ 32) :
    Reads ue (ExpGolomb.codeWord value) value := by
  have narrow : (value + 1).log2 < 32 := (Nat.log2_lt (by omega)).mpr fits
  have low : 2 ^ (value + 1).log2 ≤ value + 1 := Nat.log2_self_le (by omega)
  have high : value + 1 < 2 ^ (value + 1).log2 * 2 := Nat.lt_log2_self
  have suffix : (value + 1) % 2 ^ (value + 1).log2 = value + 1 - 2 ^ (value + 1).log2 := by
    rw [Nat.mod_eq_sub_mod low, Nat.mod_eq_of_lt (by omega)]
  have tail := reads_bits (Bits.ofNat (value + 1).log2 (value + 1))
    (by rw [Bits.ofNat_length]; omega)
  rw [Bits.ofNat_length, Bits.toNat_ofNat, suffix] at tail
  have total : 2 ^ (value + 1).log2 - 1 + (value + 1 - 2 ^ (value + 1).log2) = value := by omega
  rw [codeWord_eq]
  refine (reads_zeros narrow).bind (tail.bind_nil ?_)
  dsimp only
  rw [total]
  exact (Reads.pure value).of_pos (by omega)

theorem reads_ueMax {high value : Nat} (le : value ≤ high) (fits : value + 1 < 2 ^ 32) :
    Reads (ueMax high) (ExpGolomb.codeWord value) value :=
  (reads_ue fits).bind_nil ((Reads.pure value).of_pos ⟨Nat.zero_le value, le⟩)

theorem reads_se {value : Int} (fits : ExpGolomb.ofSigned value + 1 < 2 ^ 32) :
    Reads se (ExpGolomb.codeWord (ExpGolomb.ofSigned value)) value := by
  have read := (reads_ue fits).map ExpGolomb.toSigned
  rwa [ExpGolomb.toSigned_ofSigned] at read

end BitReader

/-- These bits lie between the one place and the other. -/
structure Consumes (r s : BitReader) (bits : Bits) : Prop where
  unread : r.unread = bits ++ s.unread
  position : s.position = r.position + bits.length

namespace Consumes

variable {r s t : BitReader} {front back : Bits}

theorem refl (r : BitReader) : Consumes r r [] := ⟨rfl, rfl⟩

theorem trans (h : Consumes r s front) (k : Consumes s t back) :
    Consumes r t (front ++ back) := by
  constructor
  · rw [h.unread, k.unread, List.append_assoc]
  · rw [k.position, h.position, List.length_append, Nat.add_assoc]

theorem length {bits : Bits} (h : Consumes r s bits) :
    r.unread.length = bits.length + s.unread.length := by
  rw [h.unread, List.length_append]

end Consumes

namespace BitReader

variable {r s : BitReader}

theorem bits_ok {count value : Nat} (h : bits count r = .ok value s) :
    ∃ front : Bits, front.length = count ∧ count ≤ 32 ∧ front.toNat = value ∧
      Consumes r s front := by
  obtain ⟨narrow, enough, moved⟩ :
      count ≤ 32 ∧ count ≤ r.left ∧ s.position = r.position + count := by
    unfold bits at h
    split at h
    · cases h
    split at h
    · next none =>
      cases h
      exact ⟨by omega, by omega, by rw [none]; rfl⟩
    split at h
    · cases h
    split at h
    · cases h
    · cases h
      exact ⟨by omega, by omega, rfl⟩
  have length : (r.unread.take count).length = count := by
    rw [List.length_take, unread_length, Nat.min_eq_left enough]
  -- The read of these bits is known, and it is the read at hand.
  obtain ⟨t, read, behind⟩ := reads_bits (r.unread.take count) (by omega) r (r.unread.drop count)
    (List.take_append_drop _ _).symm
  rw [length, h] at read
  cases read
  refine ⟨r.unread.take count, length, narrow, rfl, ?_, ?_⟩
  · rw [behind, List.take_append_drop]
  · rw [length, moved]

theorem bit_ok {value : Bool} (h : bit r = .ok value s) : Consumes r s [value] := by
  obtain ⟨number, t, read, last⟩ := bind_run_ok h
  cases last
  obtain ⟨front, single, -, rfl, consumed⟩ := bits_ok read
  obtain ⟨digit, rfl⟩ := List.length_eq_one_iff.mp single
  cases digit <;> exact consumed

theorem zeros_ok {budget count : Nat} (h : zeros budget r = .ok count s) :
    count < budget ∧ Consumes r s (List.replicate count false ++ [true]) := by
  induction budget generalizing r count with
  | zero => cases h
  | succ budget ih =>
    obtain ⟨one, t, read, later⟩ := bind_run_ok h
    have digit := bit_ok read
    cases one with
    | true =>
      cases later
      exact ⟨Nat.succ_pos budget, digit⟩
    | false =>
      obtain ⟨others, u, counted, last⟩ := bind_run_ok later
      cases last
      obtain ⟨fewer, behind⟩ := ih counted
      exact ⟨Nat.succ_lt_succ fewer, digit.trans behind⟩

theorem codeWord_of_suffix (suffix : Bits) :
    ExpGolomb.codeWord (2 ^ suffix.length - 1 + suffix.toNat) =
      (List.replicate suffix.length false ++ [true]) ++ suffix := by
  have small := Bits.toNat_lt suffix
  have positive := Nat.two_pow_pos suffix.length
  have number : 2 ^ suffix.length - 1 + suffix.toNat + 1 = 2 ^ suffix.length + suffix.toNat := by
    omega
  have digits : (2 ^ suffix.length + suffix.toNat).log2 = suffix.length := by
    rw [Nat.log2_eq_iff (by omega)]
    omega
  have low : Bits.ofNat suffix.length (2 ^ suffix.length + suffix.toNat) = suffix := by
    apply Bits.toNat_injective (Bits.ofNat_length _ _)
    rw [Bits.toNat_ofNat, Nat.add_mod_left, Nat.mod_eq_of_lt small]
  rw [codeWord_eq, number, digits, low]

theorem ue_ok {value : Nat} (h : ue r = .ok value s) :
    value + 1 < 2 ^ 32 ∧ Consumes r s (ExpGolomb.codeWord value) := by
  obtain ⟨count, t, counted, later⟩ := bind_run_ok h
  obtain ⟨number, u, read, last⟩ := bind_run_ok later
  obtain ⟨few, front⟩ := zeros_ok counted
  obtain ⟨suffix, rfl, -, rfl, back⟩ := bits_ok read
  have small := Bits.toNat_lt suffix
  have bounded : 2 ^ suffix.length ≤ 2 ^ 31 := Nat.pow_le_pow_right (by omega) (by omega)
  rw [if_pos (by omega)] at last
  cases last
  rw [codeWord_of_suffix]
  exact ⟨by omega, front.trans back⟩

theorem ueMax_ok {high value : Nat} (h : ueMax high r = .ok value s) :
    value ≤ high ∧ value + 1 < 2 ^ 32 ∧ Consumes r s (ExpGolomb.codeWord value) := by
  obtain ⟨code, t, read, last⟩ := bind_run_ok h
  by_cases bounded : 0 ≤ code ∧ code ≤ high
  · rw [if_pos bounded] at last
    cases last
    exact ⟨bounded.2, ue_ok read⟩
  · rw [if_neg bounded] at last
    cases last

theorem se_ok {value : Int} (h : se r = .ok value s) :
    2 * value.natAbs < 2 ^ 32 ∧
      Consumes r s (ExpGolomb.codeWord (ExpGolomb.ofSigned value)) := by
  obtain ⟨code, t, read, last⟩ := bind_run_ok h
  cases last
  obtain ⟨codable, consumed⟩ := ue_ok read
  rw [ExpGolomb.ofSigned_toSigned]
  refine ⟨?_, consumed⟩
  unfold ExpGolomb.toSigned
  split <;> omega

end BitReader
end EvcStream
