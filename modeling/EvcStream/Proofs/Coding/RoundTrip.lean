import EvcStream.Proofs.Bits.Reading
import EvcStream.Proofs.Nal
import EvcStream.Store
/-!
# Round trips and exact decoders

A decoder makes the round trip with an encoder if it reads every value back from its code, whatever
follows, and it is exact if everything it delivers is valid and coded by just the bits that were
read. Rows of parts inherit both, so the rules here follow the fields of a structure. A structure
that makes the round trip is read back from the unit that it is composed into.
-/
namespace EvcStream

/-- The 32-bit numbers that have a code word: all but the largest. -/
abbrev ExpGolomb.Codable (value : Nat) : Prop := value + 1 < 2 ^ 32

abbrev ExpGolomb.CodableSigned (value : Int) : Prop := 2 * value.natAbs < 2 ^ 32

open ExpGolomb (Codable CodableSigned)

namespace Coded

theorem empty_append (coded : Coded) : empty ++ coded = coded := by
  cases coded <;> rfl

theorem append_empty (coded : Coded) : coded ++ empty = coded := by
  cases coded with
  | error error => rfl
  | ok bits => exact congrArg Except.ok (List.append_nil bits)

theorem append_assoc (front middle back : Coded) :
    front ++ middle ++ back = front ++ (middle ++ back) := by
  cases front <;> cases middle <;> cases back <;>
    first
    | rfl
    | exact congrArg Except.ok (List.append_assoc _ _ _)

end Coded

/-- The value has a coded form of at most `size` bits, which the part reads as the value. -/
def RoundTrip {α : Type} (size : Nat) (part : Decoder α) (coded : Coded) (value : α) : Prop :=
  ∃ bits, coded = .ok bits ∧ bits.length ≤ size ∧ Reads part bits value

namespace RoundTrip

variable {α β : Type} {m n : Nat} {first part other : Decoder α} {c d : Coded} {a : α} {b : β}

theorem mono (le : m ≤ n) (h : RoundTrip m part c a) : RoundTrip n part c a := by
  obtain ⟨bits, coded, short, read⟩ := h
  exact ⟨bits, coded, Nat.le_trans short le, read⟩

theorem pure (a : α) : RoundTrip 0 (Pure.pure a) Coded.empty a :=
  ⟨[], rfl, Nat.le_refl 0, Reads.pure a⟩

theorem bind {next : α → Decoder β} (h : RoundTrip m first c a)
    (k : RoundTrip n (next a) d b) : RoundTrip (m + n) (first >>= next) (c ++ d) b := by
  obtain ⟨front, rfl, short, read⟩ := h
  obtain ⟨back, rfl, brief, later⟩ := k
  refine ⟨front ++ back, rfl, ?_, read.bind later⟩
  rw [List.length_append]
  exact Nat.add_le_add short brief

theorem bind_empty {next : α → Decoder β} (h : RoundTrip n first c a)
    (k : RoundTrip 0 (next a) Coded.empty b) : RoundTrip n (first >>= next) c b := by
  have both := h.bind k
  rwa [Coded.append_empty] at both

theorem last {f : α → β} (h : RoundTrip n first c a) :
    RoundTrip n (first >>= fun value => Pure.pure (f value)) c (f a) :=
  h.bind_empty (pure (f a))

theorem of_eq {x : α} (h : RoundTrip n part c x) (same : x = a) : RoundTrip n part c a := same ▸ h

theorem ite {condition : Prop} [Decidable condition]
    (h : condition → RoundTrip m part c a) (k : ¬ condition → RoundTrip n other d a) :
    RoundTrip (max m n) (if condition then part else other) (if condition then c else d) a := by
  by_cases holds : condition
  · rw [if_pos holds, if_pos holds]
    exact (h holds).mono (Nat.le_max_left m n)
  · rw [if_neg holds, if_neg holds]
    exact (k holds).mono (Nat.le_max_right m n)

theorem of_pos {condition : Prop} [Decidable condition] (holds : condition)
    (h : RoundTrip n part c a) : RoundTrip n (if condition then part else other) c a := by
  rwa [if_pos holds]

theorem guarded {condition : Prop} [Decidable condition] {known : α}
    (h : condition → RoundTrip n part c a) (unused : ¬ condition → a = known) :
    RoundTrip n (if condition then part else Pure.pure known)
      (if condition then c else Coded.empty) a := by
  by_cases holds : condition
  · rw [if_pos holds, if_pos holds]
    exact h holds
  · rw [if_neg holds, if_neg holds, unused holds]
    exact (pure known).mono (Nat.zero_le n)

theorem bind_ite {condition : Prop} [Decidable condition] {next : α → Decoder β}
    (h : RoundTrip m (if condition then part else other) c a) (k : RoundTrip n (next a) d b) :
    RoundTrip (m + n) (if condition then part >>= next else other >>= next) (c ++ d) b := by
  rw [← apply_ite (· >>= next)]
  exact h.bind k

theorem last_ite {condition : Prop} [Decidable condition] {f : α → β}
    (h : RoundTrip n (if condition then part else other) c a) :
    RoundTrip n
      (if condition then part >>= fun value => Pure.pure (f value)
        else other >>= fun value => Pure.pure (f value)) c (f a) := by
  rw [← apply_ite (· >>= fun value => Pure.pure (f value))]
  exact h.last

theorem require {condition : Prop} [Decidable condition] (holds : condition)
    (h : RoundTrip n part c a) : RoundTrip n part (Coded.require condition c) a := by
  rwa [Coded.require, if_pos holds]

theorem of_reads {read : ReadM α} {bits : Bits} (short : bits.length ≤ n)
    (h : Reads read bits a) : RoundTrip n (Decoder.ofRead read) (.ok bits) a := by
  refine ⟨bits, rfl, short, ?_⟩
  intro r rest starts
  obtain ⟨s, done, behind⟩ := h r rest starts
  refine ⟨s, ?_, behind⟩
  rw [Decoder.ofRead, done]

theorem flag (value : Bool) : RoundTrip 1 Decoder.flag (Coded.flag value) value :=
  of_reads (Nat.le_refl 1) (BitReader.reads_bit value)

theorem u {width value : Nat} (fits : value < 2 ^ width) (narrow : width ≤ 32 := by decide) :
    RoundTrip width (Decoder.u width) (Coded.u width value) value := by
  have short : (Bits.ofNat width value).length ≤ width := Nat.le_of_eq (Bits.ofNat_length _ _)
  rw [Coded.u, if_neg (by omega)]
  exact of_reads short (BitReader.reads_number narrow fits)

def codeWordSize : Nat := 63

theorem codeWord_short {value : Nat} (fits : Codable value) :
    (ExpGolomb.codeWord value).length ≤ codeWordSize := by
  have narrow : (value + 1).log2 < 32 := (Nat.log2_lt (by omega)).mpr fits
  rw [BitReader.codeWord_length, codeWordSize]
  omega

theorem ue {value : Nat} (fits : Codable value) :
    RoundTrip codeWordSize Decoder.ue (Coded.ue value) value := by
  rw [Coded.ue, if_pos fits]
  exact of_reads (codeWord_short fits) (BitReader.reads_ue fits)

theorem ueMax {high value : Nat} (le : value ≤ high) (bounded : Codable high := by decide) :
    RoundTrip codeWordSize (Decoder.ueMax high) (Coded.ue value) value := by
  have fits : Codable value := by omega
  rw [Coded.ue, if_pos fits]
  exact of_reads (codeWord_short fits) (BitReader.reads_ueMax le fits)

theorem se {value : Int} (fits : CodableSigned value) :
    RoundTrip codeWordSize Decoder.se (Coded.se value) value := by
  have small : Codable (ExpGolomb.ofSigned value) := ExpGolomb.ofSigned_codable fits
  rw [Coded.se, if_pos fits, Coded.ue, if_pos small]
  exact of_reads (codeWord_short small) (BitReader.reads_se small)

variable {code : α → Coded} {value : Option α}

theorem optional (h : ∀ x ∈ value, RoundTrip n part (code x) x) :
    RoundTrip n (Decoder.optional value.isSome part) (Coded.optional code value) value := by
  cases value with
  | none => exact (pure none).mono (Nat.zero_le n)
  | some x => exact (h x rfl).last

theorem optional_unless (h : ∀ x ∈ value, RoundTrip n part (code x) x) :
    RoundTrip n (Decoder.optional (!value.isNone) part) (Coded.optional code value) value := by
  rw [Option.not_isNone]
  exact optional h

theorem flagged (h : ∀ x ∈ value, RoundTrip n part (code x) x) :
    RoundTrip (1 + n) (Decoder.flagged part) (Coded.flagged code value) value :=
  (flag value.isSome).bind (optional h)

theorem times {items : List α} {count : Nat} (counted : items.length = count) (le : count ≤ m)
    (h : ∀ x ∈ items, RoundTrip n part (code x) x) :
    RoundTrip (m * n) (Decoder.times count part) (Coded.each code items) items := by
  refine RoundTrip.mono (Nat.mul_le_mul_right n le) ?_
  clear le
  induction items generalizing count with
  | nil =>
    subst counted
    exact (pure []).mono (Nat.zero_le _)
  | cons x items ih =>
    subst counted
    have others := ih rfl fun y member => h y (List.mem_cons_of_mem x member)
    rw [List.length_cons, Nat.succ_mul, Nat.add_comm]
    exact (h x List.mem_cons_self).bind others.last

end RoundTrip

namespace Decoder

/-- Whatever the part delivers is valid and coded by the bits that were read. -/
def Exact {α : Type} (part : Decoder α) (code : α → Coded) (valid : α → Prop) : Prop :=
  ∀ r value s, part r = .ok value s →
    valid value ∧ ∃ bits, code value = .ok bits ∧ Consumes r s bits

/-- The same for the end of a structure: the bits that were read complete its code. -/
def ExactBehind {α : Type} (front : Coded) (part : Decoder α) (code : α → Coded)
    (valid : α → Prop) : Prop :=
  ∀ r value s, part r = .ok value s →
    valid value ∧ ∃ bits, code value = front ++ .ok bits ∧ Consumes r s bits

variable {α β : Type} {first part other : Decoder α} {c d : α → Coded} {kept instead : α → Prop}
  {code : β → Coded} {valid : β → Prop} {front : Coded}

namespace ExactBehind

theorem done {b : β} (coded : code b = front) (holds : valid b) :
    ExactBehind front (Pure.pure b) code valid := by
  intro r value s delivered
  cases delivered
  refine ⟨holds, [], ?_, Consumes.refl r⟩
  rw [coded]
  exact (Coded.append_empty front).symm

theorem throw (fault : Fault) : ExactBehind front (MonadExcept.throw fault) code valid := by
  intro r value s delivered
  cases delivered

theorem bind {next : α → Decoder β} (h : Exact first c kept)
    (k : ∀ a, kept a → ExactBehind (front ++ c a) (next a) code valid) :
    ExactBehind front (first >>= next) code valid := by
  intro r value s delivered
  obtain ⟨a, t, read, later⟩ := bind_run_ok delivered
  obtain ⟨holds, bits, coded, consumed⟩ := h r a t read
  obtain ⟨result, others, complete, onward⟩ := k a holds t value s later
  refine ⟨result, bits ++ others, ?_, consumed.trans onward⟩
  rw [complete, coded, Coded.append_assoc]
  rfl

theorem ite {condition : Prop} [Decidable condition] {one two : Decoder β}
    (h : condition → ExactBehind front one code valid)
    (k : ¬ condition → ExactBehind front two code valid) :
    ExactBehind front (if condition then one else two) code valid := by
  by_cases holds : condition
  · rw [if_pos holds]
    exact h holds
  · rw [if_neg holds]
    exact k holds

theorem bind_ite {condition : Prop} [Decidable condition] {next : α → Decoder β}
    (h : Exact (if condition then part else other) c kept)
    (k : ∀ a, kept a → ExactBehind (front ++ c a) (next a) code valid) :
    ExactBehind front (if condition then part >>= next else other >>= next) code valid := by
  rw [← apply_ite (· >>= next)]
  exact bind h k

end ExactBehind

namespace Exact

theorem of_behind (h : ExactBehind Coded.empty part c kept) : Exact part c kept := by
  intro r value s delivered
  obtain ⟨holds, bits, coded, consumed⟩ := h r value s delivered
  exact ⟨holds, bits, coded, consumed⟩

theorem bind {next : α → Decoder β} (h : Exact first c kept)
    (k : ∀ a, kept a → ExactBehind (c a) (next a) code valid) :
    Exact (first >>= next) code valid := by
  refine of_behind (ExactBehind.bind h ?_)
  intro a holds
  rw [Coded.empty_append]
  exact k a holds

theorem bind_ite {condition : Prop} [Decidable condition] {next : α → Decoder β}
    (h : Exact (if condition then part else other) c kept)
    (k : ∀ a, kept a → ExactBehind (c a) (next a) code valid) :
    Exact (if condition then part >>= next else other >>= next) code valid := by
  rw [← apply_ite (· >>= next)]
  exact bind h k

theorem pure (known : α) : Exact (Pure.pure known) (fun _ => Coded.empty) (· = known) :=
  of_behind (.done rfl rfl)

theorem map {f : α → β} (h : Exact part c kept) (coded : ∀ a, kept a → code (f a) = c a)
    (holds : ∀ a, kept a → valid (f a)) : Exact (f <$> part) code valid :=
  bind h fun a read => ExactBehind.done (coded a read) (holds a read)

theorem ite {condition : Prop} [Decidable condition] (h : condition → Exact part c kept)
    (k : ¬ condition → Exact other d instead) :
    Exact (if condition then part else other) (fun a => if condition then c a else d a)
      fun a => (condition → kept a) ∧ (¬ condition → instead a) := by
  by_cases holds : condition
  · simp only [holds, if_true, forall_const, not_true, false_implies, and_true]
    exact h holds
  · simp only [holds, if_false, not_false_iff, forall_const, false_implies, true_and]
    exact k holds

theorem guarded {condition : Prop} [Decidable condition] {known : α} (h : Exact part c kept) :
    Exact (if condition then part else Pure.pure known)
      (fun a => if condition then c a else Coded.empty)
      fun a => (condition → kept a) ∧ (¬ condition → a = known) :=
  ite (fun _ => h) (fun _ => pure known)

theorem of_read {read : ReadM α} (h : ∀ r value s, read r = .ok value s →
    kept value ∧ ∃ bits, c value = .ok bits ∧ Consumes r s bits) : Exact (ofRead read) c kept := by
  intro r value s delivered
  unfold ofRead at delivered
  split at delivered
  · next found =>
    cases delivered
    exact h r value s found
  · cases delivered

theorem flag : Exact Decoder.flag Coded.flag fun _ => True :=
  of_read fun _ value _ read => ⟨trivial, [value], rfl, BitReader.bit_ok read⟩

theorem u (width : Nat) : Exact (Decoder.u width) (Coded.u width) (· < 2 ^ width) := by
  apply of_read
  intro r value s read
  obtain ⟨bits, length, narrow, rfl, consumed⟩ := BitReader.bits_ok read
  subst length
  refine ⟨Bits.toNat_lt bits, bits, ?_, consumed⟩
  rw [Coded.u, if_neg (by omega), Bits.ofNat_toNat]

theorem ue : Exact Decoder.ue Coded.ue Codable := by
  apply of_read
  intro r value s read
  obtain ⟨codable, consumed⟩ := BitReader.ue_ok read
  exact ⟨codable, _, if_pos codable, consumed⟩

theorem ueMax (high : Nat) : Exact (Decoder.ueMax high) Coded.ue (· ≤ high) := by
  apply of_read
  intro r value s read
  obtain ⟨bounded, codable, consumed⟩ := BitReader.ueMax_ok read
  exact ⟨bounded, _, if_pos codable, consumed⟩

theorem se : Exact Decoder.se Coded.se CodableSigned := by
  apply of_read
  intro r value s read
  obtain ⟨codable, consumed⟩ := BitReader.se_ok read
  have small : Codable (ExpGolomb.ofSigned value) := ExpGolomb.ofSigned_codable codable
  refine ⟨codable, _, ?_, consumed⟩
  rw [Coded.se, if_pos codable, Coded.ue, if_pos small]

theorem optional (coded : Bool) (h : Exact part c kept) :
    Exact (Decoder.optional coded part) (Coded.optional c)
      fun value => value.isSome = coded ∧ ∀ a ∈ value, kept a := by
  cases coded with
  | false =>
    refine of_behind (.done rfl ⟨rfl, ?_⟩)
    intro a absent
    cases absent
  | true =>
    refine map h (fun _ _ => rfl) fun a holds => ⟨rfl, ?_⟩
    intro b same
    cases same
    exact holds

theorem flagged (h : Exact part c kept) :
    Exact (Decoder.flagged part) (Coded.flagged c) fun value => ∀ a ∈ value, kept a := by
  refine bind flag fun coded _ r value s delivered => ?_
  obtain ⟨⟨same, holds⟩, bits, code, consumed⟩ := optional coded h r value s delivered
  refine ⟨holds, bits, ?_, consumed⟩
  rw [Coded.flagged, same, code]

theorem times (count : Nat) (h : Exact part c kept) :
    Exact (Decoder.times count part) (Coded.each c)
      fun items => items.length = count ∧ ∀ x ∈ items, kept x := by
  induction count with
  | zero =>
    refine of_behind (.done rfl ⟨rfl, ?_⟩)
    intro x absent
    cases absent
  | succ count ih =>
    refine bind h fun first holds => .bind ih fun others ⟨counted, rest⟩ => .done rfl ⟨?_, ?_⟩
    · rw [List.length_cons, counted]
    · intro x member
      rcases List.mem_cons.mp member with rfl | behind
      · exact holds
      · exact rest x behind

end Exact

theorem unread_of_u {r s : BitReader} {width value : Nat} (read : u width r = .ok value s) :
    r.unread.length = width + s.unread.length := by
  obtain ⟨-, bits, coded, consumed⟩ := Exact.u width r value s read
  rw [Coded.u] at coded
  split at coded
  · cases coded
  · cases coded
    rw [consumed.length, Bits.ofNat_length]

end Decoder

def NalUnitHeader.plain (type : NalUnitType) (temporalId : Nat) : NalUnitHeader :=
  { type, temporalId := temporalId % 8, reserved := 0, extension := false }

theorem NalUnitHeader.decode_encode (type : NalUnitType) (temporalId : Nat)
    (payload : List UInt8) :
    decode (encode type temporalId ++ payload) = .ok (plain type temporalId) := by
  have known := type.code_lt
  have word : BigEndian.decode ((encode type temporalId ++ payload).take size) =
      (type.code + 1) * 2 ^ 9 + temporalId % 8 * 2 ^ 6 := by
    have width : (encode type temporalId).length = size := BigEndian.encode_length _ _
    rw [List.take_left' width, encode, BigEndian.decode_encode, size]
    omega
  have long : ¬ (encode type temporalId ++ payload).length < size := by
    rw [List.length_append, encode, BigEndian.encode_length]
    omega
  unfold decode
  rw [if_neg long]
  simp only [word]
  rw [if_neg (by omega), dif_neg (by omega)]
  simp only [plain, Except.ok.injEq, NalUnitHeader.mk.injEq]
  refine ⟨?_, by omega, by omega, ?_⟩
  · apply NalUnitType.code_injective
    rw [NalUnitType.code_ofCode]
    omega
  · rw [beq_eq_false_iff_ne]
    omega

namespace NalUnit

variable {α : Type} {size : Nat} {part : Decoder α} {coded : Coded} {value : α}

theorem read_of_reads {u : NalUnit} {bits behind : Bits}
    (payload : Bits.ofBytes u.payload = bits ++ behind) (h : Reads part bits value) :
    u.read part = .ok value := by
  obtain ⟨s, read, -⟩ := h (BitReader.ofBytes u.payload) behind payload
  rw [NalUnit.read, read]

theorem require_read {u : NalUnit} {types : List NalUnitType} (expected : u.header.type ∈ types)
    (read : u.read part = .ok value) : (do u.requireType types; u.read part) = .ok value := by
  rw [requireType, if_pos expected]
  exact read

/-- Coded bits are composed into one unit that holds them, a closing one bit and the padding. -/
theorem compose_ok (type : NalUnitType) (temporalId : Nat) {bits : Bits}
    (small : bits.length < 2 ^ 32) :
    ∃ bytes u padding, compose type temporalId (.ok bits) = .ok bytes ∧ ofFramed bytes = .ok u ∧
      u.header = NalUnitHeader.plain type temporalId ∧ padding < 8 ∧
      Bits.ofBytes u.payload = bits ++ true :: List.replicate padding false := by
  let u : NalUnit :=
    { header := NalUnitHeader.plain type temporalId
      bytes := NalUnitHeader.encode type temporalId ++ Bits.toBytes (bits ++ [true]) }
  have width : (NalUnitHeader.encode type temporalId).length = NalUnitHeader.size :=
    BigEndian.encode_length _ _
  have total : u.size = 2 + (Bits.toBytes (bits ++ [true])).length := by
    rw [NalUnit.size, List.length_append, width, NalUnitHeader.size]
  have fits : u.size < 2 ^ 32 := by
    have packed := Bits.toBytes_length (bits ++ [true])
    rw [List.length_append, List.length_singleton] at packed
    omega
  have decoded : NalUnitHeader.decode u.bytes = .ok u.header :=
    NalUnitHeader.decode_encode type temporalId _
  have composed : compose type temporalId (.ok bits) = .ok u.framed := by
    have bounds : ¬ u.bytes.length < NalUnitHeader.size ∧ u.bytes.length < 2 ^ 32 := by
      rw [NalUnitHeader.size]
      change ¬ u.size < 2 ∧ u.size < 2 ^ 32
      omega
    have framing : frame u.bytes = .ok u.framed := by
      rw [frame, if_neg bounds.1, if_pos bounds.2]
      rfl
    rw [compose, framing]
  obtain ⟨padding, few, packed⟩ := Bits.ofBytes_toBytes (bits ++ [true])
  have payload : u.payload = Bits.toBytes (bits ++ [true]) := List.drop_left' width
  rw [← payload, List.append_assoc] at packed
  exact ⟨u.framed, u, padding, composed, ofFramed_framed decoded fits rfl, rfl, few, packed⟩

theorem compose_roundTrip (type : NalUnitType) (temporalId : Nat)
    (h : RoundTrip size part coded value) (small : size < 2 ^ 32) :
    ∃ bytes u, compose type temporalId coded = .ok bytes ∧ ofFramed bytes = .ok u ∧
      u.header = NalUnitHeader.plain type temporalId ∧ u.read part = .ok value := by
  obtain ⟨bits, rfl, short, read⟩ := h
  obtain ⟨bytes, u, padding, composed, framed, header, -, payload⟩ :=
    compose_ok type temporalId (Nat.lt_of_le_of_lt short small)
  exact ⟨bytes, u, composed, framed, header, read_of_reads payload read⟩

end NalUnit
end EvcStream
