import EvcStream.Proofs.Machine.Scanning
import Mathlib.Algebra.Order.BigOperators.Group.List
import Mathlib.Algebra.Order.Group.Nat
import Mathlib.Data.List.Flatten
/-!
# Decoder configuration records on a machine

A record is read from a buffer that gets shorter with every field. It holds no more than it was
read from, so that there is room for what is written of it.
-/
namespace EvcStream.Machine

abbrev RecordReader := Run ConfigError (List UInt8)

inductive Ended {α : Type} (post : α → Prop) :
    Checked (EStateM.Result ConfigError (List UInt8) α) →
      Except ConfigError (α × List UInt8) → Prop
  | ok {a : α} (rest : List UInt8) (holds : post a) : Ended post (.ok (.ok a rest)) (.ok (a, rest))
  | error (error : ConfigError) (rest : List UInt8) :
      Ended post (.ok (.error error rest)) (.error error)

/-- The run never panics, but does what the part does, and its values meet a condition. -/
def Follows {α : Type} (run : RecordReader α) (part : EvcStream.RecordReader α)
    (post : α → Prop := fun _ => True) : Prop :=
  ∀ bytes, Ended post (run bytes) (part bytes)

namespace RecordReader

def take (count : Nat) : RecordReader (List UInt8) := fun bytes =>
  if bytes.length < count then return .error .truncated bytes
  else do
    let (front, rest) ← splitTo count bytes
    return .ok front rest

def uint (width : Nat) : RecordReader Nat := do number width (← take width)

def timesOnto {α : Type} (item : RecordReader α) : Nat → List α → RecordReader (List α)
  | 0, read => pure read.reverse
  | count + 1, read => do
    let next ← item
    timesOnto item count (next :: read)

def times {α : Type} (size count : Nat) (item : RecordReader α) : RecordReader (List α) := do
  allocate (size * count)
  timesOnto item count []

end RecordReader

namespace Follows

variable {α β : Type} {run : RecordReader α} {part : EvcStream.RecordReader α} {post : α → Prop}
  {later : β → Prop}

theorem pure {a : α} (holds : post a) :
    Follows (Pure.pure a : RecordReader α) (Pure.pure a) post :=
  fun bytes => .ok bytes holds

theorem fail (error : ConfigError) :
    Follows (Run.fail error) (throw error : EvcStream.RecordReader α) post :=
  fun bytes => .error error bytes

theorem bind {next : α → RecordReader β} {behind : α → EvcStream.RecordReader β}
    (h : Follows run part post) (k : ∀ a, post a → Follows (next a) (behind a) later) :
    Follows (run >>= next) (part >>= behind) later := by
  intro bytes
  have first := h bytes
  generalize ran : run bytes = result, read : part bytes = outcome at first
  cases first with
  | ok rest holds =>
    rw [Run.bind_of_ok ran, EvcStream.RecordReader.bind_of_ok read]
    exact k _ holds rest
  | error error rest =>
    rw [Run.bind_of_fault ran, EvcStream.RecordReader.bind_of_error read]
    exact .error error rest

theorem lift {result : Checked β} {b : β} {next : β → RecordReader α} (known : result = .ok b)
    (k : Follows (next b) part post) :
    Follows ((liftM result : RecordReader β) >>= next) part post := by
  intro bytes
  rw [Run.bind_of_ok (Run.lift_of_ok known bytes)]
  exact k bytes

theorem mono {weaker : α → Prop} (h : Follows run part post) (implies : ∀ a, post a → weaker a) :
    Follows run part weaker := by
  intro bytes
  have ended := h bytes
  generalize run bytes = result, part bytes = outcome at ended ⊢
  cases ended with
  | ok rest holds => exact .ok rest (implies _ holds)
  | error error rest => exact .error error rest

theorem last {result : Checked α} {a : α} (known : result = .ok a) (holds : post a) :
    Follows (liftM result : RecordReader α) (Pure.pure a) post := by
  intro bytes
  rw [Run.lift_of_ok known]
  exact .ok bytes holds

theorem take (count : Nat) :
    Follows (RecordReader.take count) (EvcStream.RecordReader.take count)
      fun front => front.length = count := by
  intro bytes
  unfold RecordReader.take EvcStream.RecordReader.take
  by_cases short : bytes.length < count
  · rw [if_pos short, cut?_eq_none_iff.mpr short]
    exact .error .truncated bytes
  · have long := Nat.le_of_not_lt short
    have cutting : cut? count bytes = some (bytes.take count, bytes.drop count) :=
      cut?_eq_some_iff.mpr ⟨List.length_take_of_le long, (List.take_append_drop _ _).symm⟩
    rw [if_neg short, cutting, splitTo_eq long]
    exact .ok _ (List.length_take_of_le long)

theorem uint (width : Nat) :
    Follows (RecordReader.uint width) (EvcStream.RecordReader.uint width)
      fun value => value < 256 ^ width := by
  refine .bind (.take width) fun front long => ?_
  subst long
  have known := number_eq (Nat.le_refl front.length)
  rw [List.take_length] at known
  exact .last known (BigEndian.decode_lt front)

theorem timesOnto {item : RecordReader α} {part : EvcStream.RecordReader α}
    (each : Follows item part) (count : Nat) (read : List α) :
    Follows (RecordReader.timesOnto item count read)
      (EvcStream.RecordReader.timesOnto part count read) := by
  induction count generalizing read with
  | zero => exact .pure trivial
  | succ count ih => exact .bind each fun next _ => ih (next :: read)

theorem times {item : RecordReader α} {part : EvcStream.RecordReader α} {size count : Nat}
    (each : Follows item part) (room : size * count ≤ maxAllocation) :
    Follows (RecordReader.times size count item) (EvcStream.RecordReader.times count part) :=
  .lift (allocate_eq room) (.timesOnto each count [])

end Follows

def unitSize : Nat := 24

def groupSize : Nat := 32

namespace UnitGroup

def decodeUnit : RecordReader (List UInt8) := do
  let length ← RecordReader.uint 2
  allocate length
  RecordReader.take length

def decode : RecordReader UnitGroup := do
  let head ← RecordReader.uint 1
  match NalUnitType.ofCode? (head % 2 ^ 6) with
  | none => Run.fail (.record (.unknownUnitType (head % 2 ^ 6)))
  | some type =>
    let count ← RecordReader.uint 2
    let units ← RecordReader.times unitSize count decodeUnit
    return { isComplete := head / 2 ^ 7 == 1, type, units }

theorem decodeUnit_follows : Follows decodeUnit EvcStream.UnitGroup.decodeUnit := by
  refine .bind (.uint 2) fun length small => ?_
  refine .lift (allocate_eq ?_) ?_
  · unfold maxAllocation
    omega
  · exact (Follows.take length).mono fun _ _ => trivial

theorem decode_follows : Follows decode EvcStream.UnitGroup.decode := by
  refine .bind (.uint 1) fun head _ => ?_
  cases NalUnitType.ofCode? (head % 2 ^ 6) with
  | none => exact .fail _
  | some type =>
    refine .bind (.uint 2) fun count small => ?_
    refine .bind (.times decodeUnit_follows ?_) ?_
    · unfold maxAllocation unitSize
      omega
    · exact fun units _ => .pure trivial

end UnitGroup

namespace DecoderConfig

def readVersion : RecordReader Nat := do
  let version ← RecordReader.uint 1
  if version = 1 then return version else Run.fail (.record (.unknownVersion version))

def read : RecordReader DecoderConfig := do
  let version ← readVersion
  let profileIdc ← RecordReader.uint 1
  let levelIdc ← RecordReader.uint 1
  let toolsetIdcHigh ← RecordReader.uint 4
  let toolsetIdcLow ← RecordReader.uint 4
  let formats ← RecordReader.uint 1
  let pictureWidth ← RecordReader.uint 2
  let pictureHeight ← RecordReader.uint 2
  let lengthSize ← RecordReader.uint 1
  let count ← RecordReader.uint 1
  let groups ← RecordReader.times groupSize count UnitGroup.decode
  let chromaFormatIdc ← shr 8 formats 6
  let bitDepthLuma ← shr 8 formats 3
  return {
    version, profileIdc, levelIdc, toolsetIdcHigh, toolsetIdcLow, chromaFormatIdc
    bitDepthLumaMinus8 := bitDepthLuma % 2 ^ 3
    bitDepthChromaMinus8 := formats % 2 ^ 3
    pictureWidth, pictureHeight
    lengthSizeMinusOne := lengthSize % 2 ^ 2
    groups }

def decode (bytes : List UInt8) : Checked (Except ConfigError DecoderConfig) := do
  match ← read bytes with
  | .error error _ => return .error error
  | .ok config _ => return .ok config

theorem readVersion_follows : Follows readVersion EvcStream.DecoderConfig.readVersion := by
  refine .bind (.uint 1) fun version _ => ?_
  by_cases known : version = 1
  · rw [if_pos known, if_pos known]
    exact .pure trivial
  · rw [if_neg known, if_neg known]
    exact .fail _

theorem read_follows : Follows read EvcStream.DecoderConfig.read := by
  refine .bind readVersion_follows fun _ _ => ?_
  refine .bind (.uint 1) fun _ _ => ?_
  refine .bind (.uint 1) fun _ _ => ?_
  refine .bind (.uint 4) fun _ _ => ?_
  refine .bind (.uint 4) fun _ _ => ?_
  refine .bind (.uint 1) fun _ _ => ?_
  refine .bind (.uint 2) fun _ _ => ?_
  refine .bind (.uint 2) fun _ _ => ?_
  refine .bind (.uint 1) fun _ _ => ?_
  refine .bind (.uint 1) fun count small => ?_
  refine .bind (.times UnitGroup.decode_follows ?_) fun _ _ => ?_
  · unfold maxAllocation groupSize
    omega
  · exact .lift (shr_eq (by decide)) (.lift (shr_eq (by decide)) (.pure trivial))

theorem decode_eq (bytes : List UInt8) :
    decode bytes = .ok (EvcStream.DecoderConfig.decode bytes) := by
  have ended := read_follows bytes
  unfold decode EvcStream.DecoderConfig.decode
  generalize read bytes = result, EvcStream.DecoderConfig.read bytes = outcome at ended ⊢
  cases ended with
  | ok rest holds => rfl
  | error error rest => rfl

end DecoderConfig

def groupBytes (g : UnitGroup) : Nat := 3 + (g.units.map fun unit => 2 + unit.length).sum

def recordBytes (c : DecoderConfig) : Nat := 18 + (c.groups.map groupBytes).sum

/-- The part, with so many bytes read before it, has read all that its value takes. -/
def Spends {α : Type} (part : EvcStream.RecordReader α) (before : Nat) (size : α → Nat) : Prop :=
  ∀ bytes a rest, part bytes = .ok (a, rest) → size a + rest.length = before + bytes.length

namespace Spends

variable {α β : Type} {first part : EvcStream.RecordReader α}
  {next : α → EvcStream.RecordReader β} {before : Nat} {size : α → Nat} {later : β → Nat}

theorem pure {a : α} (all : size a = before) : Spends (Pure.pure a) before size := by
  rintro bytes _ _ ⟨⟩
  rw [all]

theorem fail (error : ConfigError) :
    Spends (throw error : EvcStream.RecordReader α) before size := nofun

theorem bind (h : Spends first 0 size) (k : ∀ a, Spends (next a) (before + size a) later) :
    Spends (first >>= next) before later := by
  intro bytes b rest read
  obtain ⟨a, middle, found, read⟩ := EvcStream.RecordReader.bind_ok read
  have one := h bytes a middle found
  have others := k a middle b rest read
  omega

theorem behind (h : Spends part 0 size) : Spends part before fun a => before + size a := by
  intro bytes a rest read
  have all := h bytes a rest read
  dsimp only
  omega

theorem take (count : Nat) : Spends (EvcStream.RecordReader.take count) 0 List.length := by
  intro bytes front rest read
  rw [(EvcStream.RecordReader.take_ok read).2, List.length_append, Nat.zero_add]

theorem uint (width : Nat) : Spends (EvcStream.RecordReader.uint width) 0 fun _ => width := by
  have taken : Spends (EvcStream.RecordReader.take width) 0 fun _ => width := by
    intro bytes front rest read
    obtain ⟨rfl, whole⟩ := EvcStream.RecordReader.take_ok read
    rw [whole, List.length_append, Nat.zero_add]
  exact taken.bind fun _ => .pure (Nat.zero_add width).symm

theorem timesOnto {item : EvcStream.RecordReader α} (each : Spends item 0 size) (count : Nat)
    (read : List α) :
    Spends (EvcStream.RecordReader.timesOnto item count read) (read.map size).sum
      fun items => (items.map size).sum := by
  induction count generalizing read with
  | zero =>
    refine .pure ?_
    rw [List.map_reverse, List.sum_reverse]
  | succ count ih =>
    refine .bind each fun next => ?_
    have rest := ih (next :: read)
    rwa [List.map_cons, List.sum_cons, Nat.add_comm] at rest

theorem times {item : EvcStream.RecordReader α} (each : Spends item 0 size) (count : Nat) :
    Spends (EvcStream.RecordReader.times count item) 0 fun items => (items.map size).sum :=
  timesOnto each count []

end Spends

namespace UnitGroup

theorem decodeUnit_spends :
    Spends EvcStream.UnitGroup.decodeUnit 0 fun unit => 2 + unit.length := by
  refine .bind (.uint 2) fun length => ?_
  exact (Spends.take length).behind

theorem decode_spends : Spends EvcStream.UnitGroup.decode 0 groupBytes := by
  refine .bind (.uint 1) fun head => ?_
  cases NalUnitType.ofCode? (head % 2 ^ 6) with
  | none => exact .fail _
  | some type =>
    refine .bind (.uint 2) fun count => ?_
    refine .bind (.times decodeUnit_spends count) fun units => ?_
    exact .pure rfl

end UnitGroup

namespace DecoderConfig

theorem readVersion_spends : Spends EvcStream.DecoderConfig.readVersion 0 fun _ => 1 := by
  refine .bind (.uint 1) fun version => ?_
  by_cases known : version = 1
  · rw [if_pos known]
    exact .pure rfl
  · rw [if_neg known]
    exact .fail _

theorem read_spends : Spends EvcStream.DecoderConfig.read 0 recordBytes := by
  refine .bind readVersion_spends fun _ => ?_
  refine .bind (.uint 1) fun _ => ?_
  refine .bind (.uint 1) fun _ => ?_
  refine .bind (.uint 4) fun _ => ?_
  refine .bind (.uint 4) fun _ => ?_
  refine .bind (.uint 1) fun _ => ?_
  refine .bind (.uint 2) fun _ => ?_
  refine .bind (.uint 2) fun _ => ?_
  refine .bind (.uint 1) fun _ => ?_
  refine .bind (.uint 1) fun count => ?_
  refine .bind (.times UnitGroup.decode_spends count) fun _ => ?_
  exact .pure rfl

theorem decode_bytes {bytes : List UInt8} {c : EvcStream.DecoderConfig}
    (decoded : EvcStream.DecoderConfig.decode bytes = .ok c) : recordBytes c ≤ bytes.length := by
  unfold EvcStream.DecoderConfig.decode at decoded
  split at decoded
  · cases decoded
  · next rest read =>
    cases decoded
    have all := read_spends bytes c rest read
    omega

end DecoderConfig

section
variable {c : DecoderConfig}

theorem unit_length_le {g : UnitGroup} {unit : List UInt8} (member : unit ∈ g.units) :
    2 + unit.length ≤ groupBytes g := by
  have one := List.mem_map_of_mem (f := fun unit : List UInt8 => 2 + unit.length) member
  exact Nat.le_trans (List.le_sum_of_mem one) (Nat.le_add_left _ _)

theorem units_le (g : UnitGroup) : g.units.length ≤ groupBytes g := by
  have each : ∀ size ∈ g.units.map fun unit => 2 + unit.length, 1 ≤ size := by
    simp only [List.forall_mem_map]
    omega
  have all := List.length_le_sum_of_one_le _ each
  rw [List.length_map] at all
  exact Nat.le_trans all (Nat.le_add_left _ _)

theorem groupBytes_le {g : UnitGroup} (member : g ∈ c.groups) : groupBytes g ≤ recordBytes c :=
  Nat.le_trans (List.le_sum_of_mem (List.mem_map_of_mem member)) (Nat.le_add_left _ _)

theorem groups_le (c : DecoderConfig) : c.groups.length ≤ recordBytes c := by
  have each : ∀ size ∈ c.groups.map groupBytes, 1 ≤ size := by
    simp only [List.forall_mem_map, groupBytes]
    omega
  have all := List.length_le_sum_of_one_le _ each
  rw [List.length_map] at all
  exact Nat.le_trans all (Nat.le_add_left _ _)

theorem spsCount_le (c : DecoderConfig) : c.spsCount ≤ recordBytes c := by
  have kept : ((c.groups.filter (·.type = .sps)).flatMap EvcStream.UnitGroup.units).Sublist
      (c.groups.flatMap EvcStream.UnitGroup.units) := List.filter_sublist.flatMap _
  have all : (c.groups.flatMap EvcStream.UnitGroup.units).length ≤
      (c.groups.map groupBytes).sum := by
    rw [List.length_flatMap]
    exact List.sum_le_sum fun g _ => units_le g
  exact Nat.le_trans kept.length_le (Nat.le_trans all (Nat.le_add_left _ _))

theorem countable_of_bytes (small : recordBytes c < 2 ^ 32) : c.Countable where
  count := Nat.lt_of_le_of_lt (groups_le c) small
  groups g member := {
    count := Nat.lt_of_le_of_lt (Nat.le_trans (units_le g) (groupBytes_le member)) small
    lengths := fun unit inside => by
      have length := unit_length_le inside
      have bytes := groupBytes_le member
      omega }

theorem code_length (c : DecoderConfig) : c.code.length = recordBytes c := by
  have groups : c.groups.map (fun g => g.code.length) = c.groups.map groupBytes := by
    refine List.map_congr_left fun g _ => ?_
    simp [EvcStream.UnitGroup.code, EvcStream.UnitGroup.unitCode, groupBytes, List.length_flatMap]
    omega
  simp [EvcStream.DecoderConfig.code, EvcStream.DecoderConfig.encodeFixed, recordBytes,
    List.length_flatMap, groups]
  omega

theorem framed_length_le {units framed : List (List UInt8)}
    (written : units.mapM NalUnit.frame = .ok framed) :
    framed.flatten.length ≤ 2 * (units.map fun unit => 2 + unit.length).sum := by
  induction units generalizing framed with
  | nil =>
    cases written
    exact Nat.le_refl 0
  | cons unit units ih =>
    rw [List.mapM_cons] at written
    obtain ⟨first, framing, written⟩ := bind_ok written
    obtain ⟨others, rest, written⟩ := bind_ok written
    cases written
    have length : first.length = NalUnit.lengthSize + unit.length := by
      unfold NalUnit.frame at framing
      split at framing
      · cases framing
      split at framing
      · cases framing
        rw [List.length_append, BigEndian.encode_length]
      · cases framing
    have later := ih rest
    unfold NalUnit.lengthSize at length
    rw [List.flatten_cons, List.length_append, List.map_cons, List.sum_cons]
    omega

theorem units_bytes_le (groups : List UnitGroup) :
    ((groups.flatMap EvcStream.UnitGroup.units).map fun unit => 2 + unit.length).sum ≤
      (groups.map groupBytes).sum := by
  induction groups with
  | nil => exact Nat.le_refl 0
  | cons g groups ih =>
    rw [List.flatMap_cons, List.map_append, List.sum_append, List.map_cons, List.sum_cons]
    exact Nat.add_le_add (Nat.le_add_left _ _) ih

theorem unitStream_length {stream : List UInt8} (written : c.unitStream = .ok stream) :
    stream.length ≤ 2 * recordBytes c := by
  unfold EvcStream.DecoderConfig.unitStream at written
  split at written
  · cases written
  · next framed framing =>
    cases written
    have each := framed_length_le framing
    have all := units_bytes_le c.groups
    unfold recordBytes
    omega

end

abbrev RecordWriter := ExceptT ConfigError Checked

namespace RecordWriter

variable {α β : Type}

def settle (result : Except ConfigError α) : RecordWriter α := .mk (.ok result)

theorem bind_eq {first : RecordWriter α} {next : α → RecordWriter β}
    {result : Except ConfigError α} {behind : α → Except ConfigError β}
    (h : first.run = .ok result) (k : ∀ a, result = .ok a → (next a).run = .ok (behind a)) :
    (first >>= next).run = .ok (result >>= behind) := by
  rw [ExceptT.run_bind, h, ok_bind]
  cases result with
  | error error => rfl
  | ok a => exact k a rfl

theorem lift_eq {result : Checked α} {a : α} {next : α → RecordWriter β}
    {behind : Except ConfigError β} (known : result = .ok a)
    (k : (next a).run = .ok behind) :
    ((liftM result : RecordWriter α) >>= next).run = .ok behind := by
  rw [known]
  exact k

theorem mapM_eq {run : α → RecordWriter β} {step : α → Except ConfigError β} {items : List α}
    (each : ∀ item ∈ items, (run item).run = .ok (step item)) :
    (items.mapM run).run = .ok (items.mapM step) := by
  induction items with
  | nil => rfl
  | cons item items ih =>
    obtain ⟨first, others⟩ := List.forall_mem_cons.mp each
    rw [List.mapM_cons, List.mapM_cons]
    exact bind_eq first fun value _ => bind_eq (ih others) fun values _ => rfl

end RecordWriter

open RecordWriter (settle)

def UnitGroup.head (g : UnitGroup) : Checked Nat := do
  return (← shl 8 g.isComplete.toNat 7) ||| g.type.code % 2 ^ 6

def UnitGroup.encode (g : UnitGroup) : RecordWriter (List UInt8) := do
  let head ← UnitGroup.head g
  let count ← settle (DecoderConfig.fit "numNalus" 2 g.units.length)
  let units ← g.units.mapM fun unit => settle (EvcStream.UnitGroup.encodeUnit unit)
  return UInt8.ofNat head :: BigEndian.encode 2 count ++ units.flatten

namespace DecoderConfig

def formats (c : DecoderConfig) : Checked Nat := do
  return (← shl 8 c.chromaFormatIdc 6) ||| (← shl 8 c.bitDepthLumaMinus8 3)
    ||| c.bitDepthChromaMinus8

def encodeFixed (c : DecoderConfig) : Checked (List UInt8) := do
  let formats ← formats c
  return BigEndian.encode 1 c.version ++ BigEndian.encode 1 c.profileIdc
    ++ BigEndian.encode 1 c.levelIdc ++ BigEndian.encode 4 c.toolsetIdcHigh
    ++ BigEndian.encode 4 c.toolsetIdcLow ++ BigEndian.encode 1 formats
    ++ BigEndian.encode 2 c.pictureWidth ++ BigEndian.encode 2 c.pictureHeight
    ++ BigEndian.encode 1 (0xfc ||| c.lengthSizeMinusOne)

def encode (c : DecoderConfig) : RecordWriter (List UInt8) := do
  ExceptT.mk (checkSpsCount c)
  settle c.checkBits
  let count ← settle (EvcStream.DecoderConfig.fit "numOfArrays" 1 c.groups.length)
  let fixed ← encodeFixed c
  let groups ← c.groups.mapM UnitGroup.encode
  let bytes := fixed ++ BigEndian.encode 1 count ++ groups.flatten
  allocate bytes.length
  return bytes

def unitStream (c : DecoderConfig) : RecordWriter (List UInt8) := do
  let framed ← settle <|
    ((c.groups.flatMap EvcStream.UnitGroup.units).mapM NalUnit.frame).mapError ConfigError.write
  allocate framed.flatten.length
  return framed.flatten

end DecoderConfig

section
variable {c : DecoderConfig} {g : UnitGroup}

theorem or_eq_add {high low amount : Nat} (small : low < 2 ^ amount) :
    high * 2 ^ amount ||| low = high * 2 ^ amount + low := by
  rw [Nat.mul_comm, Nat.two_pow_add_eq_or_of_lt small]

theorem UnitGroup.head_eq (g : UnitGroup) :
    UnitGroup.head g = .ok (g.isComplete.toNat * 2 ^ 7 + g.type.code % 2 ^ 6) := by
  have flag := Bool.toNat_le g.isComplete
  have type := Nat.mod_lt g.type.code (Nat.two_pow_pos 6)
  unfold UnitGroup.head
  rw [shl_eq_of_lt (by decide) (by omega), ok_bind, or_eq_add (by omega)]
  rfl

theorem UnitGroup.encode_eq (g : UnitGroup) : (UnitGroup.encode g).run = .ok g.encode := by
  refine RecordWriter.lift_eq (UnitGroup.head_eq g) ?_
  refine RecordWriter.bind_eq rfl fun count _ => RecordWriter.bind_eq ?_ fun units _ => rfl
  exact RecordWriter.mapM_eq fun unit _ => rfl

namespace DecoderConfig

theorem formats_eq (bits : c.FitsBits) : formats c = .ok c.formats := by
  obtain ⟨chroma, luma, depth, -⟩ := bits
  unfold formats EvcStream.DecoderConfig.formats
  have packed : c.chromaFormatIdc * 2 ^ 6 + c.bitDepthLumaMinus8 * 2 ^ 3 =
      (c.chromaFormatIdc * 2 ^ 3 + c.bitDepthLumaMinus8) * 2 ^ 3 := by omega
  rw [shl_eq_of_lt (by decide) (by omega), ok_bind, shl_eq_of_lt (by decide) (by omega), ok_bind,
    or_eq_add (by omega), packed, or_eq_add (by omega)]
  rfl

theorem encodeFixed_eq (bits : c.FitsBits) : encodeFixed c = .ok c.encodeFixed := by
  have small : c.lengthSizeMinusOne < 2 ^ 2 := Nat.lt_succ_of_le bits.2.2.2
  have lengthSize : 0xfc ||| c.lengthSizeMinusOne = 0xfc + c.lengthSizeMinusOne :=
    (or_eq_add small : 63 * 2 ^ 2 ||| c.lengthSizeMinusOne = _)
  unfold encodeFixed
  rw [formats_eq bits, ok_bind, lengthSize]
  rfl

theorem encode_eq (few : c.spsCount < 2 ^ 64)
    (room : ∀ bytes, c.encode = .ok bytes → bytes.length ≤ maxAllocation) :
    (encode c).run = .ok c.encode := by
  refine RecordWriter.bind_eq (checkSpsCount_eq few) fun _ counted => ?_
  refine RecordWriter.bind_eq rfl fun _ checked => RecordWriter.bind_eq rfl fun count fitted => ?_
  have bits : c.FitsBits := by
    unfold EvcStream.DecoderConfig.checkBits at checked
    split at checked
    · next fits => exact fits
    · cases checked
  refine RecordWriter.lift_eq (encodeFixed_eq bits) ?_
  refine RecordWriter.bind_eq (RecordWriter.mapM_eq fun g _ => UnitGroup.encode_eq g) ?_
  intro groups encoded
  refine RecordWriter.lift_eq (allocate_eq (room _ ?_)) rfl
  rw [EvcStream.DecoderConfig.encode, counted, checked, fitted, encoded]
  rfl

theorem unitStream_eq
    (room : ∀ stream, c.unitStream = .ok stream → stream.length ≤ maxAllocation) :
    (unitStream c).run = .ok c.unitStream := by
  have written : c.unitStream = (do
      let framed ← ((c.groups.flatMap EvcStream.UnitGroup.units).mapM NalUnit.frame).mapError
        ConfigError.write
      return framed.flatten) := by
    unfold EvcStream.DecoderConfig.unitStream
    cases (c.groups.flatMap EvcStream.UnitGroup.units).mapM NalUnit.frame <;> rfl
  rw [written] at room ⊢
  refine RecordWriter.bind_eq rfl fun framed done => RecordWriter.lift_eq (allocate_eq ?_) rfl
  rw [done] at room
  exact room _ rfl

section
variable {bytes : List UInt8}

theorem encode_decoded (small : bytes.length < 2 ^ 32)
    (decoded : EvcStream.DecoderConfig.decode bytes = .ok c) : (encode c).run = .ok c.encode := by
  have taken := decode_bytes decoded
  have few := spsCount_le c
  refine encode_eq (by omega) fun written encoded => ?_
  have countable : c.Countable := countable_of_bytes (by omega)
  have writable := EvcStream.DecoderConfig.writable_of_encode countable encoded
  rw [EvcStream.DecoderConfig.encode_eq writable] at encoded
  cases encoded
  rw [code_length]
  unfold maxAllocation
  omega

theorem unitStream_decoded (small : bytes.length < 2 ^ 32)
    (decoded : EvcStream.DecoderConfig.decode bytes = .ok c) :
    (unitStream c).run = .ok c.unitStream := by
  have taken := decode_bytes decoded
  refine unitStream_eq fun stream written => ?_
  have length := unitStream_length written
  unfold maxAllocation
  omega

theorem encode_read (small : bytes.length < 2 ^ 32) :
    (ExceptT.mk (decode bytes) >>= encode).run =
      .ok (EvcStream.DecoderConfig.decode bytes >>= EvcStream.DecoderConfig.encode) :=
  RecordWriter.bind_eq (decode_eq bytes) fun _ decoded => encode_decoded small decoded

theorem unitStream_read (small : bytes.length < 2 ^ 32) :
    (ExceptT.mk (decode bytes) >>= unitStream).run =
      .ok (EvcStream.DecoderConfig.decode bytes >>= EvcStream.DecoderConfig.unitStream) :=
  RecordWriter.bind_eq (decode_eq bytes) fun _ decoded => unitStream_decoded small decoded

end

end DecoderConfig
end

end EvcStream.Machine
