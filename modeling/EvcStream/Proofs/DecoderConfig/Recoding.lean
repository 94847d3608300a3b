import EvcStream.Proofs.DecoderConfig.RoundTrip
/-!
# Writing what was read

A record can be read from several byte strings, since some of its bits have no meaning: six in front
of the length size and one between the completeness and the type of each group. When it is written
again, these bits are ones and zeros, and all others are as they were.
-/
namespace EvcStream

open RecordReader (Recovers take_ok uint_ok)

namespace UnitGroup

/-- Bytes that a group is read from. One bit of the first byte has no meaning. -/
structure ReadFrom (g : UnitGroup) (bytes : List UInt8) : Prop where
  writable : g.Writable
  spelled : ∃ head body, bytes = head :: body ∧ g.code = (head &&& 0xbf) :: body

def places (place : Nat) : List UnitGroup → List Nat
  | [] => []
  | g :: groups => place :: places (place + g.code.length) groups

end UnitGroup

namespace DecoderConfig

/-- A byte of a record, in its place, as it is written. -/
def settle (c : DecoderConfig) (place : Nat) (byte : UInt8) : UInt8 :=
  if place = 16 then byte ||| 0xfc
  else if place ∈ UnitGroup.places 18 c.groups then byte &&& 0xbf
  else byte

end DecoderConfig

theorem mapIdx_of_same {α : Type} {f : Nat → α → α} {items : List α}
    (same : ∀ i < items.length, ∀ a, f i a = a) : items.mapIdx f = items := by
  rw [List.mapIdx_eq_iff]
  intro i
  by_cases inside : i < items.length
  · rw [List.getElem?_eq_getElem inside, Option.map_some, same i inside]
  · rw [List.getElem?_eq_none (Nat.le_of_not_lt inside), Option.map_none]

theorem NalUnitType.code_of_ofCode? {code : Nat} {type : NalUnitType}
    (known : ofCode? code = some type) : type.code = code := by
  unfold ofCode? at known
  split at known
  · cases known
    exact code_ofCode _ _
  · cases known

namespace UnitGroup

variable {g : UnitGroup} {groups : List UnitGroup} {units : List (List UInt8)}
  {codes : List (List UInt8)} {place : Nat}

theorem decodeUnit_recovers :
    Recovers decodeUnit fun unit code => unit.length < 2 ^ 16 ∧ unitCode unit = code := by
  intro bytes unit rest read
  obtain ⟨length, middle, counted, taken⟩ := RecordReader.bind_ok read
  obtain ⟨small, rfl⟩ := uint_ok counted
  obtain ⟨rfl, rfl⟩ := take_ok taken
  exact ⟨unitCode unit, by rw [unitCode, List.append_assoc], small, rfl⟩

theorem head_of_byte {head : Nat} (small : head < 256) :
    UInt8.ofNat head &&& 0xbf = UInt8.ofNat ((head / 2 ^ 7 == 1).toNat * 2 ^ 7 + head % 2 ^ 6) := by
  revert head
  decide +kernel

theorem decode_recovers : Recovers decode ReadFrom := by
  intro bytes g rest decoded
  obtain ⟨head, middle, first, typed⟩ := RecordReader.bind_ok decoded
  obtain ⟨small, rfl⟩ := uint_ok first
  cases known : NalUnitType.ofCode? (head % 2 ^ 6) with
  | none =>
    rw [known] at typed
    cases typed
  | some type =>
    rw [known] at typed
    obtain ⟨count, behind, counted, filled⟩ := RecordReader.bind_ok typed
    obtain ⟨few, rfl⟩ := uint_ok counted
    obtain ⟨units, last, listed, done⟩ := RecordReader.bind_ok filled
    cases done
    obtain ⟨rfl, codes, rfl, each⟩ := decodeUnit_recovers.times listed
    obtain ⟨lengths, spelled⟩ := (List.forall₂_and_left _ _).mp each
    rw [← List.forall₂_map_left_iff, List.forall₂_eq_eq_eq] at spelled
    subst spelled
    refine ⟨UInt8.ofNat head :: (BigEndian.encode 2 units.length ++ (units.map unitCode).flatten),
      ?_, ⟨few, lengths⟩, UInt8.ofNat head, _, rfl, ?_⟩
    · rw [BigEndian.encode_one, List.singleton_append, List.cons_append, List.append_assoc]
    · rw [head_of_byte small, ← NalUnitType.code_of_ofCode? known, ← List.flatMap_def]
      simp [code, UnitGroup.head, BigEndian.encode_one]

theorem le_of_mem_places {start : Nat} (member : start ∈ places place groups) : place ≤ start := by
  induction groups generalizing place with
  | nil => cases member
  | cons g groups ih =>
    rcases List.mem_cons.mp member with rfl | later
    · exact Nat.le_refl start
    · exact Nat.le_trans (Nat.le_add_right _ _) (ih later)

/-- Only the first bytes of the groups change. -/
theorem mapIdx_clear (read : List.Forall₂ ReadFrom groups codes) (place : Nat) :
    codes.flatten.mapIdx
        (fun i byte => if place + i ∈ places place groups then byte &&& 0xbf else byte) =
      groups.flatMap code := by
  -- The places of the later groups lie behind all bytes of the first one.
  induction read generalizing place with
  | nil => rfl
  | @cons g bytes groups codes first rest ih =>
    obtain ⟨-, head, body, rfl, code⟩ := first
    have length : g.code.length = body.length + 1 := by rw [code, List.length_cons]
    have later {i : Nat} : place + i ∈ places place (g :: groups) ↔
        i = 0 ∨ place + i ∈ places (place + g.code.length) groups := by
      rw [places, List.mem_cons, Nat.add_eq_left]
    rw [List.flatten_cons, List.mapIdx_append, List.flatMap_cons, code, List.mapIdx_cons]
    congr 2
    · exact if_pos (later.mpr (Or.inl rfl))
    · apply mapIdx_of_same
      intro i inside byte
      apply if_neg
      rw [later, not_or]
      refine ⟨Nat.succ_ne_zero i, fun member => ?_⟩
      have := le_of_mem_places member
      omega
    · rw [← ih (place + g.code.length)]
      congr 1
      funext i byte
      have index : place + (i + (head :: body).length) = place + g.code.length + i := by
        rw [List.length_cons, length]
        omega
      have behind : place + (i + (head :: body).length) ∈ places place (g :: groups) ↔
          place + g.code.length + i ∈ places (place + g.code.length) groups := by
        rw [later, index]
        exact or_iff_right (Nat.succ_ne_zero _)
      exact if_congr behind rfl rfl

end UnitGroup

namespace DecoderConfig

structure ReadFrom (c : DecoderConfig) (bytes : List UInt8) : Prop where
  bits : c.FitsBits
  count : c.groups.length < 2 ^ 8
  groups : ∀ g ∈ c.groups, g.Writable
  settled : bytes.mapIdx c.settle = c.code

variable {c : DecoderConfig} {bytes rest : List UInt8} {place : Nat} {byte : UInt8}

theorem settle_early (early : place < 16) : c.settle place byte = byte := by
  have behind : place ∉ UnitGroup.places 18 c.groups := fun member => by
    have := UnitGroup.le_of_mem_places member
    omega
  rw [settle, if_neg (Nat.ne_of_lt early), if_neg behind]

theorem settle_lengthSize {size : Nat} (small : size < 256) :
    c.settle 16 (UInt8.ofNat size) = UInt8.ofNat (0xfc + size % 2 ^ 2) := by
  rw [settle, if_pos rfl]
  revert size
  decide +kernel

theorem settle_count : c.settle 17 byte = byte := by
  have behind : 17 ∉ UnitGroup.places 18 c.groups := fun member =>
    absurd (UnitGroup.le_of_mem_places member) (by decide)
  rw [settle, if_neg (by decide), if_neg behind]

theorem settle_groups (index : Nat) :
    c.settle (18 + index) byte =
      if 18 + index ∈ UnitGroup.places 18 c.groups then byte &&& 0xbf else byte := by
  rw [settle, if_neg (by omega)]

theorem mapIdx_settle {fixed : List UInt8} {size count : UInt8} {codes : List (List UInt8)}
    (length : fixed.length = 16) (groups : List.Forall₂ UnitGroup.ReadFrom c.groups codes) :
    (fixed ++ size :: count :: codes.flatten).mapIdx c.settle =
      fixed ++ c.settle 16 size :: count :: c.groups.flatMap UnitGroup.code := by
  have first : fixed.mapIdx c.settle = fixed :=
    mapIdx_of_same fun i inside _ => settle_early (length ▸ inside)
  have last : (codes.flatten.mapIdx fun i => c.settle (i + 1 + 1 + 16)) =
      c.groups.flatMap UnitGroup.code := by
    rw [← UnitGroup.mapIdx_clear groups 18]
    congr 1
    funext i byte
    rw [← settle_groups, Nat.add_comm 18]
  rw [List.mapIdx_append, first, List.mapIdx_cons, List.mapIdx_cons, length, last]
  simp only [Nat.zero_add, Nat.reduceAdd, settle_count]

theorem readVersion_ok {version : Nat} (read : readVersion bytes = .ok (version, rest)) :
    version = 1 ∧ bytes = BigEndian.encode 1 1 ++ rest := by
  obtain ⟨number, middle, first, checked⟩ := RecordReader.bind_ok read
  obtain ⟨-, rfl⟩ := uint_ok first
  split at checked
  · next known =>
    cases checked
    exact ⟨known, by rw [known]⟩
  · cases checked

theorem read_recovers : Recovers read ReadFrom := by
  intro bytes c rest decoded
  obtain ⟨version, _, atVersion, behind⟩ := RecordReader.bind_ok decoded
  obtain ⟨profile, _, atProfile, behind⟩ := RecordReader.bind_ok behind
  obtain ⟨level, _, atLevel, behind⟩ := RecordReader.bind_ok behind
  obtain ⟨high, _, atHigh, behind⟩ := RecordReader.bind_ok behind
  obtain ⟨low, _, atLow, behind⟩ := RecordReader.bind_ok behind
  obtain ⟨formats, _, atFormats, behind⟩ := RecordReader.bind_ok behind
  obtain ⟨width, _, atWidth, behind⟩ := RecordReader.bind_ok behind
  obtain ⟨height, _, atHeight, behind⟩ := RecordReader.bind_ok behind
  obtain ⟨size, _, atSize, behind⟩ := RecordReader.bind_ok behind
  obtain ⟨count, _, atCount, behind⟩ := RecordReader.bind_ok behind
  obtain ⟨groups, _, atGroups, done⟩ := RecordReader.bind_ok behind
  cases done
  obtain ⟨rfl, rfl⟩ := readVersion_ok atVersion
  obtain ⟨-, rfl⟩ := uint_ok atProfile
  obtain ⟨-, rfl⟩ := uint_ok atLevel
  obtain ⟨-, rfl⟩ := uint_ok atHigh
  obtain ⟨-, rfl⟩ := uint_ok atLow
  obtain ⟨packed, rfl⟩ := uint_ok atFormats
  obtain ⟨-, rfl⟩ := uint_ok atWidth
  obtain ⟨-, rfl⟩ := uint_ok atHeight
  obtain ⟨small, rfl⟩ := uint_ok atSize
  obtain ⟨few, rfl⟩ := uint_ok atCount
  obtain ⟨rfl, codes, rfl, each⟩ := UnitGroup.decode_recovers.times atGroups
  let fixed : List UInt8 := BigEndian.encode 1 1 ++ BigEndian.encode 1 profile ++
    BigEndian.encode 1 level ++ BigEndian.encode 4 high ++ BigEndian.encode 4 low ++
    BigEndian.encode 1 formats ++ BigEndian.encode 2 width ++ BigEndian.encode 2 height
  have length : fixed.length = 16 := by simp [fixed]
  refine ⟨fixed ++ UInt8.ofNat size :: UInt8.ofNat groups.length :: codes.flatten,
    ?_, ?_, few, ?_, ?_⟩
  · simp [fixed, BigEndian.encode_one]
  · refine ⟨?_, ?_, ?_, ?_⟩ <;> dsimp only <;> omega
  · have writable := each.imp fun g code h => And.intro h.writable h
    exact ((List.forall₂_and_left _ _).mp writable).1
  · have whole : formats / 64 * 64 + formats / 8 % 8 * 8 + formats % 8 = formats := by omega
    rw [mapIdx_settle length each, settle_lengthSize small]
    simp [DecoderConfig.code, encodeFixed, whole, fixed, BigEndian.encode_one]

theorem decode_ok (accepted : decode bytes = .ok c) :
    ∃ front rest, bytes = front ++ rest ∧ read bytes = .ok (c, rest) ∧ c.ReadFrom front := by
  unfold decode at accepted
  split at accepted
  · cases accepted
  · next d rest decoded =>
    cases accepted
    obtain ⟨front, whole, recovered⟩ := read_recovers bytes c rest decoded
    exact ⟨front, rest, whole, decoded, recovered⟩

/-- The record that was read is written as the bytes that it was read from, with the bits that have
no meaning settled, if it holds as many sequence parameter sets as a record has to. -/
theorem encode_of_decode (accepted : decode bytes = .ok c) :
    ∃ front rest, bytes = front ++ rest ∧ read bytes = .ok (c, rest) ∧
      (1 ≤ c.spsCount ∧ c.spsCount ≤ maxSpsCount → c.encode = .ok (front.mapIdx c.settle)) ∧
      (¬ (1 ≤ c.spsCount ∧ c.spsCount ≤ maxSpsCount) →
        c.encode = .error (.record (.spsCount c.spsCount))) := by
  obtain ⟨front, rest, whole, decoded, h⟩ := decode_ok accepted
  refine ⟨front, rest, whole, decoded, ?_, ?_⟩
  · intro counted
    rw [h.settled]
    exact encode_eq ⟨counted, h.bits, h.count, h.groups⟩
  · intro uncounted
    unfold encode checkSpsCount
    rw [if_neg uncounted]
    rfl

/-- Three groups, one with no units and one with an empty unit. Of the bits without a meaning, those
of the length size are zeros and two of the groups have ones. A byte stands behind the record. -/
theorem encode_of_decode_unsettled :
    let first : List UInt8 := [1, 1, 41, 222, 173, 190, 239, 0, 0, 0, 0, 81, 7, 128, 4, 56]
    let front : List UInt8 := first ++
      [3, 3, 216, 0, 1, 0, 3, 50, 0, 128, 24, 0, 0, 92, 0, 2, 0, 0, 0, 2, 58, 0]
    let settled : List UInt8 := first ++
      [255, 3, 152, 0, 1, 0, 3, 50, 0, 128, 24, 0, 0, 28, 0, 2, 0, 0, 0, 2, 58, 0]
    let c : DecoderConfig :=
      { profileIdc := 1
        levelIdc := 41
        toolsetIdcHigh := 0xdeadbeef
        chromaFormatIdc := 1
        bitDepthLumaMinus8 := 2
        bitDepthChromaMinus8 := 1
        pictureWidth := 1920
        pictureHeight := 1080
        groups := [{ isComplete := true, type := .sps, units := [[50, 0, 128]] },
          { isComplete := false, type := .sps, units := [] },
          { isComplete := false, type := .sei, units := [[], [58, 0]] }] }
    decode (front ++ [7]) = .ok c ∧ c.encode = .ok settled := by
  intro first front settled c
  have accepted : decode (front ++ [7]) = .ok c := ok_of_toOption (by decide)
  obtain ⟨taken, rest, whole, read, written, -⟩ := encode_of_decode accepted
  have known : DecoderConfig.read (front ++ [7]) = .ok (c, [7]) := ok_of_toOption (by decide)
  rw [known] at read
  cases read
  obtain rfl : front = taken := List.append_cancel_right whole
  have bytes : front.mapIdx c.settle = settled := by decide
  exact ⟨accepted, bytes ▸ written (by decide)⟩

end DecoderConfig
end EvcStream
