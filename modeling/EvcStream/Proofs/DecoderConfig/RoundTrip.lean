import EvcStream.DecoderConfig.Collect
import EvcStream.Proofs.Nal
import Mathlib.Data.List.Forall2
/-!
# Records are read back

A record that is written is read back from its bytes, whatever follows them, and no shorter front of
them is a record. Lengths are cut to 32 bits before they are checked, so this takes counts that are
32-bit numbers.
-/
namespace EvcStream
namespace RecordReader

/-- From these bytes, and from no fewer of them, the part reads the value. -/
structure Spells {α : Type} (part : RecordReader α) (code : List UInt8) (value : α) : Prop where
  read : ∀ rest, part (code ++ rest) = .ok (value, rest)
  broken : ∀ front back, code = front ++ back → back ≠ [] → part front = .error .truncated

variable {α β : Type} {first part : RecordReader α} {next : α → RecordReader β} {a : α} {b : β}
  {c d bytes rest : List UInt8}

theorem bind_of_ok (h : first bytes = .ok (a, rest)) : (first >>= next) bytes = next a rest := by
  change (StateT.bind first next) bytes = _
  unfold StateT.bind
  rw [h]
  rfl

theorem bind_of_error {error : ConfigError} (h : first bytes = .error error) :
    (first >>= next) bytes = .error error := by
  change (StateT.bind first next) bytes = _
  unfold StateT.bind
  rw [h]
  rfl

namespace Spells

theorem pure (a : α) : Spells (Pure.pure a) [] a := by
  constructor
  · intro rest
    rfl
  · intro front back nothing nonempty
    exact absurd (List.append_eq_nil_iff.mp nothing.symm).2 nonempty

theorem bind (h : Spells first c a) (k : Spells (next a) d b) :
    Spells (first >>= next) (c ++ d) b := by
  constructor
  · intro rest
    rw [List.append_assoc, bind_of_ok (h.read (d ++ rest)), k.read]
  · intro front back whole nonempty
    rcases List.append_eq_append_iff.mp whole with ⟨begun, rfl, rest⟩ | ⟨missing, same, rest⟩
    · rw [bind_of_ok (h.read begun)]
      exact k.broken begun back rest nonempty
    · by_cases all : missing = []
      · -- The bytes break off between the two parts.
        rw [all, List.append_nil] at same
        rw [all, List.nil_append] at rest
        have read := h.read []
        rw [List.append_nil, same] at read
        rw [bind_of_ok read]
        exact k.broken [] d rfl (rest ▸ nonempty)
      · exact bind_of_error (h.broken front missing same all)

theorem last {f : α → β} (h : Spells first c a) :
    Spells (first >>= fun value => Pure.pure (f value)) c (f a) := by
  have both : Spells (first >>= fun value => Pure.pure (f value)) (c ++ []) (f a) :=
    h.bind (pure (f a))
  rwa [List.append_nil] at both

theorem take (bytes : List UInt8) : Spells (RecordReader.take bytes.length) bytes bytes := by
  constructor
  · intro rest
    unfold RecordReader.take
    rw [cut?_eq_some_iff.mpr ⟨rfl, rfl⟩]
  · intro front back whole nonempty
    have short : front.length < bytes.length := by
      have := List.length_pos_iff.mpr nonempty
      rw [whole, List.length_append]
      omega
    unfold RecordReader.take
    rw [cut?_eq_none_iff.mpr short]

theorem uint {width value : Nat} (fits : value < 256 ^ width) :
    Spells (RecordReader.uint width) (BigEndian.encode width value) value := by
  have read := take (BigEndian.encode width value)
  rw [BigEndian.encode_length] at read
  have number := read.last (f := BigEndian.decode)
  rwa [BigEndian.decode_encode, Nat.mod_eq_of_lt fits] at number

theorem timesOnto {code : α → List UInt8} {items : List α}
    (each : ∀ item ∈ items, Spells part (code item) item) (before : List α) :
    Spells (RecordReader.timesOnto part items.length before) (items.flatMap code)
      (before.reverse ++ items) := by
  induction items generalizing before with
  | nil =>
    rw [List.append_nil]
    exact pure before.reverse
  | cons item items ih =>
    obtain ⟨first, others⟩ := List.forall_mem_cons.mp each
    have later := ih others (item :: before)
    rw [List.reverse_cons, List.append_assoc] at later
    exact first.bind later

theorem times {code : α → List UInt8} {items : List α}
    (each : ∀ item ∈ items, Spells part (code item) item) :
    Spells (RecordReader.times items.length part) (items.flatMap code) items :=
  timesOnto each []

end Spells

/-- Whatever the part reads a value from starts with a code of the value. -/
def Recovers (part : RecordReader α) (Code : α → List UInt8 → Prop) : Prop :=
  ∀ bytes a rest, part bytes = .ok (a, rest) → ∃ code, bytes = code ++ rest ∧ Code a code

theorem bind_ok (read : (first >>= next) bytes = .ok (b, rest)) :
    ∃ a middle, first bytes = .ok (a, middle) ∧ next a middle = .ok (b, rest) := by
  cases found : first bytes with
  | error error =>
    rw [bind_of_error found] at read
    cases read
  | ok result =>
    obtain ⟨a, middle⟩ := result
    rw [bind_of_ok found] at read
    exact ⟨a, middle, rfl, read⟩

theorem take_ok {count : Nat} {front : List UInt8} (read : take count bytes = .ok (front, rest)) :
    front.length = count ∧ bytes = front ++ rest := by
  unfold take at read
  split at read
  · cases read
  · next cutting =>
    cases read
    exact cut?_eq_some_iff.mp cutting

theorem uint_ok {width value : Nat} (read : uint width bytes = .ok (value, rest)) :
    value < 256 ^ width ∧ bytes = BigEndian.encode width value ++ rest := by
  obtain ⟨front, middle, taken, read⟩ := bind_ok read
  cases read
  obtain ⟨rfl, whole⟩ := take_ok taken
  rw [BigEndian.encode_decode]
  exact ⟨BigEndian.decode_lt front, whole⟩

theorem Recovers.timesOnto {Code : α → List UInt8 → Prop} (each : Recovers part Code) {count : Nat}
    {before items : List α} (read : timesOnto part count before bytes = .ok (items, rest)) :
    ∃ later codes, items = before.reverse ++ later ∧ later.length = count ∧
      bytes = codes.flatten ++ rest ∧ List.Forall₂ Code later codes := by
  induction count generalizing before bytes with
  | zero =>
    cases read
    exact ⟨[], [], (List.append_nil _).symm, rfl, rfl, .nil⟩
  | succ count ih =>
    obtain ⟨a, middle, one, others⟩ := bind_ok read
    obtain ⟨code, rfl, first⟩ := each bytes a middle one
    obtain ⟨later, codes, rfl, rfl, rfl, rest⟩ := ih others
    refine ⟨a :: later, code :: codes, ?_, rfl, ?_, .cons first rest⟩
    · rw [List.reverse_cons, List.append_assoc, List.singleton_append]
    · rw [List.flatten_cons, List.append_assoc]

theorem Recovers.times {Code : α → List UInt8 → Prop} (each : Recovers part Code) {count : Nat}
    {items : List α} (read : times count part bytes = .ok (items, rest)) :
    items.length = count ∧
      ∃ codes, bytes = codes.flatten ++ rest ∧ List.Forall₂ Code items codes := by
  obtain ⟨later, codes, rfl, length, whole, all⟩ := each.timesOnto read
  exact ⟨length, codes, whole, all⟩

end RecordReader

open RecordReader (Spells)

section
variable {ε α β : Type} {step : α → Except ε β} {items : List α}

theorem mapM_of_ok {value : α → β} (each : ∀ item ∈ items, step item = .ok (value item)) :
    items.mapM step = .ok (items.map value) := by
  induction items with
  | nil => rfl
  | cons item items ih =>
    obtain ⟨first, others⟩ := List.forall_mem_cons.mp each
    rw [List.mapM_cons, first, ih others]
    rfl

theorem mapM_ok {values : List β} (succeeded : items.mapM step = .ok values) :
    ∀ item ∈ items, ∃ value, step item = .ok value := by
  induction items generalizing values with
  | nil =>
    intro item absent
    cases absent
  | cons item items ih =>
    rw [List.mapM_cons] at succeeded
    obtain ⟨value, first, later⟩ := bind_ok succeeded
    obtain ⟨others, rest, -⟩ := bind_ok later
    exact List.forall_mem_cons.mpr ⟨⟨value, first⟩, ih rest⟩

theorem mapM_ok_iff {valid : α → Prop} {value : α → β} {values : List β}
    (each : ∀ item result, step item = .ok result ↔ valid item ∧ value item = result) :
    items.mapM step = .ok values ↔ (∀ item ∈ items, valid item) ∧ items.map value = values := by
  constructor
  · intro succeeded
    have all : ∀ item ∈ items, valid item := by
      intro item member
      obtain ⟨result, done⟩ := mapM_ok succeeded item member
      exact ((each item result).mp done).1
    have known := mapM_of_ok fun item member => (each item _).mpr ⟨all item member, rfl⟩
    rw [known] at succeeded
    exact ⟨all, Except.ok.inj succeeded⟩
  · rintro ⟨all, rfl⟩
    exact mapM_of_ok fun item member => (each item _).mpr ⟨all item member, rfl⟩

theorem mapM_error {fault : ε} (failed : items.mapM step = .error fault) :
    ∃ item ∈ items, step item = .error fault := by
  induction items with
  | nil => cases failed
  | cons item items ih =>
    rw [List.mapM_cons] at failed
    cases first : step item with
    | error other =>
      rw [first] at failed
      cases failed
      exact ⟨item, List.mem_cons_self, first⟩
    | ok value =>
      cases later : items.mapM step with
      | error other =>
        rw [first, later] at failed
        cases failed
        obtain ⟨found, member, stopped⟩ := ih later
        exact ⟨found, List.mem_cons_of_mem item member, stopped⟩
      | ok values =>
        rw [first, later] at failed
        cases failed

end

namespace DecoderConfig

variable {field : String} {width value : Nat}

theorem fit_of_lt (narrow : width ≤ 4) (fits : value < 256 ^ width) :
    fit field width value = .ok value := by
  have small : value % 2 ^ 32 = value :=
    Nat.mod_eq_of_lt (Nat.lt_of_lt_of_le fits (Nat.pow_le_pow_right (by decide) narrow))
  unfold fit
  rw [small, if_pos fits]

theorem fit_of_le (large : 256 ^ width ≤ value) (countable : value < 2 ^ 32) :
    fit field width value = .error (.record (.doesNotFit field value)) := by
  unfold fit
  rw [Nat.mod_eq_of_lt countable, if_neg (Nat.not_lt.mpr large)]

theorem fit_ok_iff {found : Nat} :
    fit field width value = .ok found ↔
      value % 2 ^ 32 < 256 ^ width ∧ value % 2 ^ 32 = found := by
  unfold fit
  dsimp only
  split
  · next fits => simp only [Except.ok.injEq, fits, true_and]
  · next large => simp only [reduceCtorEq, large, false_and]

/-- Numbers that are cut to 32 bits are written as before. -/
theorem encode_cut (width : Nat) (narrow : width ≤ 4) (value : Nat) :
    BigEndian.encode width (value % 2 ^ 32) = BigEndian.encode width value :=
  BigEndian.encode_mod (Nat.pow_dvd_pow 256 narrow) value

end DecoderConfig

open DecoderConfig (encode_cut fit_ok_iff)

namespace UnitGroup

/-- The lengths are 32-bit numbers. -/
structure Countable (g : UnitGroup) : Prop where
  count : g.units.length < 2 ^ 32
  lengths : ∀ unit ∈ g.units, unit.length < 2 ^ 32

structure Writable (g : UnitGroup) : Prop where
  count : g.units.length < 2 ^ 16
  lengths : ∀ unit ∈ g.units, unit.length < 2 ^ 16

def head (g : UnitGroup) : Nat := g.isComplete.toNat * 2 ^ 7 + g.type.code

def unitCode (unit : List UInt8) : List UInt8 := BigEndian.encode 2 unit.length ++ unit

def code (g : UnitGroup) : List UInt8 :=
  BigEndian.encode 1 g.head ++ (BigEndian.encode 2 g.units.length ++ g.units.flatMap unitCode)

variable {g : UnitGroup}

/-- Lengths are compared with what a field holds after they have been cut to 32 bits. -/
structure Admitted (g : UnitGroup) : Prop where
  count : g.units.length % 2 ^ 32 < 2 ^ 16
  lengths : ∀ unit ∈ g.units, unit.length % 2 ^ 32 < 2 ^ 16

theorem admitted_iff (countable : g.Countable) : g.Admitted ↔ g.Writable := by
  have cut (unit) (member : unit ∈ g.units) : unit.length % 2 ^ 32 = unit.length :=
    Nat.mod_eq_of_lt (countable.lengths unit member)
  have count := Nat.mod_eq_of_lt countable.count
  constructor
  · intro admitted
    exact ⟨count ▸ admitted.count, fun unit member =>
      cut unit member ▸ admitted.lengths unit member⟩
  · intro writable
    exact ⟨count.symm ▸ writable.count, fun unit member =>
      (cut unit member).symm ▸ writable.lengths unit member⟩

theorem Writable.countable (writable : g.Writable) : g.Countable :=
  ⟨Nat.lt_trans writable.count (by decide), fun unit member =>
    Nat.lt_trans (writable.lengths unit member) (by decide)⟩

theorem encodeUnit_ok_iff (unit bytes : List UInt8) :
    encodeUnit unit = .ok bytes ↔ unit.length % 2 ^ 32 < 2 ^ 16 ∧ unitCode unit = bytes := by
  have cut := encode_cut 2 (by decide) unit.length
  have field : 256 ^ 2 = 2 ^ 16 := by decide
  simp only [encodeUnit, bind_ok_iff, fit_ok_iff, pure, Except.pure, Except.ok.injEq, and_assoc,
    exists_and_left, exists_eq_left', cut, field, unitCode]

theorem encode_ok_iff (g : UnitGroup) (bytes : List UInt8) :
    g.encode = .ok bytes ↔ g.Admitted ∧ g.code = bytes := by
  have cut := encode_cut 2 (by decide) g.units.length
  have type : g.type.code % 2 ^ 6 = g.type.code :=
    Nat.mod_eq_of_lt (Nat.lt_trans g.type.code_lt (by decide))
  have code : UInt8.ofNat (g.isComplete.toNat * 2 ^ 7 + g.type.code % 2 ^ 6) ::
      BigEndian.encode 2 (g.units.length % 2 ^ 32) ++ (g.units.map unitCode).flatten = g.code := by
    rw [type, cut]
    simp [UnitGroup.code, head, BigEndian.encode_one, List.flatMap_def]
  simp only [encode, bind_ok_iff, fit_ok_iff, mapM_ok_iff encodeUnit_ok_iff, pure, Except.pure,
    Except.ok.injEq, and_assoc, exists_and_left, exists_eq_left', code]
  constructor
  · rintro ⟨count, lengths, rfl⟩
    exact ⟨⟨count, lengths⟩, rfl⟩
  · rintro ⟨⟨count, lengths⟩, rfl⟩
    exact ⟨count, lengths, rfl⟩

theorem encode_eq (writable : g.Writable) : g.encode = .ok g.code :=
  (encode_ok_iff g g.code).mpr ⟨(admitted_iff writable.countable).mpr writable, rfl⟩

theorem writable_of_encode {bytes : List UInt8} (countable : g.Countable)
    (encoded : g.encode = .ok bytes) : g.Writable :=
  (admitted_iff countable).mp ((encode_ok_iff g bytes).mp encoded).1

theorem decodeUnit_spells {unit : List UInt8} (fits : unit.length < 2 ^ 16) :
    Spells decodeUnit (unitCode unit) unit :=
  .bind (.uint fits) (.take unit)

theorem decode_spells (writable : g.Writable) : Spells decode g.code g := by
  have known := g.type.code_lt
  have complete : g.isComplete.toNat ≤ 1 := Bool.toNat_le g.isComplete
  have small : g.head < 256 ^ 1 := by
    unfold head
    omega
  have type : NalUnitType.ofCode? (g.head % 2 ^ 6) = some g.type := by
    have low : g.head % 2 ^ 6 = g.type.code := by
      unfold head
      omega
    rw [low, NalUnitType.ofCode?_code]
  have flag : (g.head / 2 ^ 7 == 1) = g.isComplete := by
    have high : g.head / 2 ^ 7 = g.isComplete.toNat := by
      unfold head
      omega
    rw [high]
    cases g.isComplete <;> rfl
  have units : Spells (RecordReader.times g.units.length decodeUnit)
      (g.units.flatMap unitCode) g.units :=
    .times fun unit member => decodeUnit_spells (writable.lengths unit member)
  unfold decode code
  refine .bind (.uint small) ?_
  rw [type]
  refine .bind (.uint writable.count) ?_
  have whole := units.last (f := fun units =>
    ({ isComplete := g.head / 2 ^ 7 == 1, type := g.type, units } : UnitGroup))
  rw [flag] at whole ⊢
  exact whole

end UnitGroup

namespace DecoderConfig

/-- The fields are numbers of as many bytes as they have in a record. -/
structure Ranged (c : DecoderConfig) : Prop where
  profileIdc : c.profileIdc < 2 ^ 8
  levelIdc : c.levelIdc < 2 ^ 8
  toolsetIdcHigh : c.toolsetIdcHigh < 2 ^ 32
  toolsetIdcLow : c.toolsetIdcLow < 2 ^ 32
  pictureWidth : c.pictureWidth < 2 ^ 16
  pictureHeight : c.pictureHeight < 2 ^ 16

structure Countable (c : DecoderConfig) : Prop where
  count : c.groups.length < 2 ^ 32
  groups : ∀ g ∈ c.groups, g.Countable

/-- The record meets what is checked when it is written. -/
structure Writable (c : DecoderConfig) : Prop where
  spsCount : 1 ≤ c.spsCount ∧ c.spsCount ≤ maxSpsCount
  bits : c.FitsBits
  count : c.groups.length < 2 ^ 8
  groups : ∀ g ∈ c.groups, g.Writable

def code (c : DecoderConfig) : List UInt8 :=
  c.encodeFixed ++ BigEndian.encode 1 c.groups.length ++ c.groups.flatMap UnitGroup.code

variable {c : DecoderConfig} {bytes : List UInt8}

structure Admitted (c : DecoderConfig) : Prop where
  spsCount : 1 ≤ c.spsCount ∧ c.spsCount ≤ maxSpsCount
  bits : c.FitsBits
  count : c.groups.length % 2 ^ 32 < 2 ^ 8
  groups : ∀ g ∈ c.groups, g.Admitted

theorem admitted_iff (countable : c.Countable) : c.Admitted ↔ c.Writable := by
  have count := Nat.mod_eq_of_lt countable.count
  have same (g) (member : g ∈ c.groups) := UnitGroup.admitted_iff (countable.groups g member)
  constructor
  · intro admitted
    exact ⟨admitted.spsCount, admitted.bits, count ▸ admitted.count,
      fun g member => (same g member).mp (admitted.groups g member)⟩
  · intro writable
    exact ⟨writable.spsCount, writable.bits, count.symm ▸ writable.count,
      fun g member => (same g member).mpr (writable.groups g member)⟩

theorem Writable.countable (writable : c.Writable) : c.Countable :=
  ⟨Nat.lt_trans writable.count (by decide), fun g member => (writable.groups g member).countable⟩

theorem checkSpsCount_ok_iff (done : Unit) :
    c.checkSpsCount = .ok done ↔ 1 ≤ c.spsCount ∧ c.spsCount ≤ maxSpsCount := by
  unfold checkSpsCount
  split
  · next counts => exact iff_of_true rfl counts
  · next counts => exact iff_of_false nofun counts

theorem checkBits_ok_iff (done : Unit) : c.checkBits = .ok done ↔ c.FitsBits := by
  unfold checkBits
  split
  · next fits => exact iff_of_true rfl fits
  · next fits => exact iff_of_false nofun fits

theorem encode_ok_iff : c.encode = .ok bytes ↔ c.Admitted ∧ c.code = bytes := by
  have cut := encode_cut 1 (by decide) c.groups.length
  simp only [encode, bind_ok_iff, checkSpsCount_ok_iff, checkBits_ok_iff, fit_ok_iff,
    mapM_ok_iff UnitGroup.encode_ok_iff, pure, Except.pure, Except.ok.injEq, and_assoc,
    exists_and_left, exists_eq_left', exists_const, cut, ← List.flatMap_def]
  constructor
  · rintro ⟨some, few, bits, count, groups, rfl⟩
    exact ⟨⟨⟨some, few⟩, bits, count, groups⟩, rfl⟩
  · rintro ⟨⟨⟨some, few⟩, bits, count, groups⟩, rfl⟩
    exact ⟨some, few, bits, count, groups, rfl⟩

theorem encode_eq (writable : c.Writable) : c.encode = .ok c.code :=
  encode_ok_iff.mpr ⟨(admitted_iff writable.countable).mpr writable, rfl⟩

theorem writable_of_encode (countable : c.Countable) (encoded : c.encode = .ok bytes) :
    c.Writable :=
  (admitted_iff countable).mp (encode_ok_iff.mp encoded).1

def formats (c : DecoderConfig) : Nat :=
  c.chromaFormatIdc * 2 ^ 6 + c.bitDepthLumaMinus8 * 2 ^ 3 + c.bitDepthChromaMinus8

theorem FitsBits.formats_lt (bits : c.FitsBits) : c.formats < 256 ^ 1 := by
  obtain ⟨chroma, luma, depth, -⟩ := bits
  unfold formats
  omega

theorem FitsBits.unpacked (bits : c.FitsBits) (groups : List UnitGroup) :
    { c with
      chromaFormatIdc := c.formats / 2 ^ 6
      bitDepthLumaMinus8 := c.formats / 2 ^ 3 % 2 ^ 3
      bitDepthChromaMinus8 := c.formats % 2 ^ 3
      lengthSizeMinusOne := (0xfc + c.lengthSizeMinusOne) % 2 ^ 2
      groups } = { c with groups } := by
  obtain ⟨chroma, luma, depth, lengthSize⟩ := bits
  simp only [formats, DecoderConfig.mk.injEq, true_and, and_true]
  omega

theorem readVersion_spells (known : c.version = 1) :
    Spells readVersion (BigEndian.encode 1 c.version) c.version := by
  have small : 1 < 256 ^ 1 := by decide
  rw [known]
  exact (Spells.uint small).bind (.pure 1)

theorem read_spells (version : c.version = 1) (ranged : c.Ranged) (writable : c.Writable) :
    Spells read c.code c := by
  have lengthSize : 0xfc + c.lengthSizeMinusOne < 256 ^ 1 := by
    have := writable.bits.2.2.2
    omega
  have groups := Spells.times fun g member => UnitGroup.decode_spells (writable.groups g member)
  unfold read code encodeFixed
  simp only [List.append_assoc]
  refine .bind (readVersion_spells version) <| .bind (.uint ranged.profileIdc) <|
    .bind (.uint ranged.levelIdc) <| .bind (.uint ranged.toolsetIdcHigh) <|
    .bind (.uint ranged.toolsetIdcLow) <| .bind (.uint writable.bits.formats_lt) <|
    .bind (.uint ranged.pictureWidth) <| .bind (.uint ranged.pictureHeight) <|
    .bind (.uint lengthSize) <| .bind (.uint writable.count) ?_
  have whole := groups.last (f := fun groups => { c with
    chromaFormatIdc := c.formats / 2 ^ 6
    bitDepthLumaMinus8 := c.formats / 2 ^ 3 % 2 ^ 3
    bitDepthChromaMinus8 := c.formats % 2 ^ 3
    lengthSizeMinusOne := (0xfc + c.lengthSizeMinusOne) % 2 ^ 2
    groups })
  rw [writable.bits.unpacked] at whole
  exact whole

/-- A record that is written is read back, whatever stands behind it. If it breaks off anywhere,
the reader runs out of bytes. -/
theorem decode_of_encode (version : c.version = 1) (ranged : c.Ranged) (countable : c.Countable)
    (encoded : c.encode = .ok bytes) :
    (∀ rest, decode (bytes ++ rest) = .ok c) ∧
      ∀ front back, bytes = front ++ back → back ≠ [] → decode front = .error .truncated := by
  have writable := writable_of_encode countable encoded
  rw [encode_eq writable] at encoded
  cases encoded
  have spells := read_spells version ranged writable
  constructor
  · intro rest
    rw [decode, spells.read]
  · intro front back whole nonempty
    rw [decode, spells.broken front back whole nonempty]

/-- Two groups, one of them with an empty unit, and a luma depth that takes all of its bits. -/
theorem decode_of_encode_two_groups :
    let c : DecoderConfig :=
      { profileIdc := 1
        levelIdc := 41
        toolsetIdcHigh := 0xdeadbeef
        chromaFormatIdc := 1
        bitDepthLumaMinus8 := 7
        bitDepthChromaMinus8 := 1
        pictureWidth := 1920
        pictureHeight := 1080
        groups := [{ isComplete := true, type := .sps, units := [[50, 0, 128]] },
          { isComplete := false, type := .sei, units := [[], [58, 0]] }] }
    let bytes : List UInt8 :=
      [1, 1, 41, 222, 173, 190, 239, 0, 0, 0, 0, 121, 7, 128, 4, 56, 255, 2, 152, 0, 1, 0, 3, 50,
        0, 128, 28, 0, 2, 0, 0, 0, 2, 58, 0]
    c.Ranged ∧ c.Countable ∧ c.encode = .ok bytes ∧ (∀ rest, decode (bytes ++ rest) = .ok c) ∧
      ∀ front back, bytes = front ++ back → back ≠ [] → decode front = .error .truncated := by
  intro c bytes
  have ranged : c.Ranged := ⟨by decide, by decide, by decide, by decide, by decide, by decide⟩
  have countable : c.Countable := by
    refine ⟨by decide, List.forall_mem_cons.mpr ⟨?_, List.forall_mem_singleton.mpr ?_⟩⟩
    · exact ⟨by decide, by decide⟩
    · exact ⟨by decide, by decide⟩
  have encoded : c.encode = .ok bytes := ok_of_toOption (by decide)
  exact ⟨ranged, countable, encoded, decode_of_encode rfl ranged countable encoded⟩

end DecoderConfig
end EvcStream
