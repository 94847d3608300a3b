import EvcStream.Proofs.DecoderConfig.RoundTrip
/-!
# Counts in records

In front of each list, a record says how many elements it has, in one or two bytes. Whether a count
fits its field is checked after the count has been cut to 32 bits. So the counts in a record are
right if all of them are below `2 ^ 32`, and the list that has as many elements is written behind a
count of zero.
-/
namespace EvcStream

/-- A field of a record that says how many elements a list has. -/
structure Counter where
  place : Nat
  width : Nat
  count : Nat

namespace Counter

def field (k : Counter) (bytes : List UInt8) : Nat :=
  BigEndian.decode (bytes.extract k.place (k.place + k.width))

def Stands (k : Counter) (bytes : List UInt8) : Prop :=
  ∃ front back, bytes = front ++ (BigEndian.encode k.width k.count ++ back) ∧
    k.place = front.length

variable {k : Counter} {bytes : List UInt8}

theorem Stands.field_eq (stands : k.Stands bytes) : k.field bytes = k.count % 256 ^ k.width := by
  obtain ⟨front, back, rfl, place⟩ := stands
  rw [field, place, List.extract_eq_take_drop, List.drop_left, Nat.add_sub_cancel_left,
    List.take_left' (BigEndian.encode_length _ _), BigEndian.decode_encode]

/-- Where a count passes that has been cut to 32 bits, this is what is written of it. -/
theorem Stands.field_of_lt (stands : k.Stands bytes) (narrow : k.width ≤ 4)
    (passes : k.count % 2 ^ 32 < 256 ^ k.width) : k.field bytes = k.count % 2 ^ 32 := by
  have divides : 256 ^ k.width ∣ 2 ^ 32 := Nat.pow_dvd_pow 256 narrow
  rw [stands.field_eq, ← Nat.mod_mod_of_dvd k.count divides, Nat.mod_eq_of_lt passes]

end Counter

namespace UnitGroup

def unitCounters (place : Nat) : List (List UInt8) → List Counter
  | [] => []
  | unit :: units =>
    { place, width := 2, count := unit.length } :: unitCounters (place + 2 + unit.length) units

def counters (place : Nat) : List UnitGroup → List Counter
  | [] => []
  | g :: groups =>
    { place := place + 1, width := 2, count := g.units.length } ::
      (unitCounters (place + 3) g.units ++ counters (place + g.code.length) groups)

variable {units : List (List UInt8)} {groups : List UnitGroup} {place : Nat}
  {p : Nat → Nat → Prop}

theorem forall_unitCounters :
    (∀ k ∈ unitCounters place units, p k.width k.count) ↔ ∀ unit ∈ units, p 2 unit.length := by
  induction units generalizing place with
  | nil => simp [unitCounters]
  | cons unit units ih =>
    rw [unitCounters, List.forall_mem_cons, List.forall_mem_cons, ih]

theorem forall_counters :
    (∀ k ∈ counters place groups, p k.width k.count) ↔
      ∀ g ∈ groups, p 2 g.units.length ∧ ∀ unit ∈ g.units, p 2 unit.length := by
  induction groups generalizing place with
  | nil => simp [counters]
  | cons g groups ih =>
    rw [counters, List.forall_mem_cons, List.forall_mem_append, forall_unitCounters, ih,
      List.forall_mem_cons, and_assoc]

theorem unitCounters_stand (units : List (List UInt8)) (front back : List UInt8) :
    ∀ k ∈ unitCounters front.length units,
      k.Stands (front ++ (units.flatMap unitCode ++ back)) := by
  induction units generalizing front with
  | nil => exact fun _ absent => nomatch absent
  | cons unit units ih =>
    rw [unitCounters, List.forall_mem_cons, List.flatMap_cons]
    constructor
    · exact ⟨front, unit ++ (units.flatMap unitCode ++ back), by simp [unitCode], rfl⟩
    · have later := ih (front ++ unitCode unit)
      simpa [unitCode, Nat.add_assoc] using later

theorem counters_stand (groups : List UnitGroup) (front back : List UInt8) :
    ∀ k ∈ counters front.length groups, k.Stands (front ++ (groups.flatMap code ++ back)) := by
  induction groups generalizing front with
  | nil => exact fun _ absent => nomatch absent
  | cons g groups ih =>
    rw [counters, List.forall_mem_cons, List.forall_mem_append, List.flatMap_cons]
    refine ⟨?_, ?_, ?_⟩
    · exact ⟨front ++ BigEndian.encode 1 g.head,
        g.units.flatMap unitCode ++ (groups.flatMap code ++ back), by simp [code], by simp⟩
    · have lengths := unitCounters_stand g.units
        (front ++ BigEndian.encode 1 g.head ++ BigEndian.encode 2 g.units.length)
        (groups.flatMap code ++ back)
      simpa [code, Nat.add_assoc] using lengths
    · have later := ih (front ++ g.code)
      simpa [Nat.add_assoc] using later

end UnitGroup

namespace DecoderConfig

def counters (c : DecoderConfig) : List Counter :=
  { place := 17, width := 1, count := c.groups.length } :: UnitGroup.counters 18 c.groups

variable {c : DecoderConfig} {bytes : List UInt8} {p : Nat → Nat → Prop}

theorem forall_counters :
    (∀ k ∈ c.counters, p k.width k.count) ↔ p 1 c.groups.length ∧
      ∀ g ∈ c.groups, p 2 g.units.length ∧ ∀ unit ∈ g.units, p 2 unit.length := by
  rw [counters, List.forall_mem_cons, UnitGroup.forall_counters]

theorem counters_stand (c : DecoderConfig) : ∀ k ∈ c.counters, k.Stands c.code := by
  rw [counters, List.forall_mem_cons]
  constructor
  · exact ⟨c.encodeFixed, c.groups.flatMap UnitGroup.code, by simp [code], by simp [encodeFixed]⟩
  · have groups := UnitGroup.counters_stand c.groups
      (c.encodeFixed ++ BigEndian.encode 1 c.groups.length) []
    simpa [code, encodeFixed] using groups

theorem Admitted.counters (admitted : c.Admitted) :
    ∀ k ∈ c.counters, k.width ≤ 4 ∧ k.count % 2 ^ 32 < 256 ^ k.width := by
  rw [forall_counters (p := fun width count => width ≤ 4 ∧ count % 2 ^ 32 < 256 ^ width)]
  have two : 2 ≤ 4 := by decide
  exact ⟨⟨by decide, admitted.count⟩, fun g member =>
    ⟨⟨two, (admitted.groups g member).count⟩, fun unit inside =>
      ⟨two, (admitted.groups g member).lengths unit inside⟩⟩⟩

theorem countable_iff : c.Countable ↔ ∀ k ∈ c.counters, k.count < 2 ^ 32 := by
  rw [forall_counters (p := fun _ count => count < 2 ^ 32)]
  constructor
  · intro h
    exact ⟨h.count, fun g member => ⟨(h.groups g member).count, (h.groups g member).lengths⟩⟩
  · rintro ⟨count, groups⟩
    exact ⟨count, fun g member => ⟨(groups g member).1, (groups g member).2⟩⟩

/-- A record is written if its counts, cut to 32 bits, fit their fields, and then these are the
numbers in the fields. So they are the true counts if no list has `2 ^ 32` elements or more. -/
theorem encode_counts (c : DecoderConfig) :
    ((∃ bytes, c.encode = .ok bytes) ↔
      (1 ≤ c.spsCount ∧ c.spsCount ≤ maxSpsCount) ∧ c.FitsBits ∧ c.groups.length % 2 ^ 32 < 2 ^ 8 ∧
        ∀ g ∈ c.groups, g.units.length % 2 ^ 32 < 2 ^ 16 ∧
          ∀ unit ∈ g.units, unit.length % 2 ^ 32 < 2 ^ 16) ∧
    ∀ bytes, c.encode = .ok bytes →
      (∀ k ∈ c.counters, k.field bytes = k.count % 2 ^ 32) ∧
        ((∀ k ∈ c.counters, k.field bytes = k.count) ↔ c.Countable) := by
  constructor
  · simp only [encode_ok_iff]
    constructor
    · rintro ⟨_, admitted, -⟩
      exact ⟨admitted.spsCount, admitted.bits, admitted.count, fun g member =>
        ⟨(admitted.groups g member).count, (admitted.groups g member).lengths⟩⟩
    · rintro ⟨counted, bits, count, groups⟩
      exact ⟨c.code, ⟨counted, bits, count, fun g member =>
        ⟨(groups g member).1, (groups g member).2⟩⟩, rfl⟩
  · intro bytes encoded
    obtain ⟨admitted, rfl⟩ := encode_ok_iff.mp encoded
    have fields : ∀ k ∈ c.counters, k.field c.code = k.count % 2 ^ 32 := fun k member =>
      (counters_stand c k member).field_of_lt (admitted.counters k member).1
        (admitted.counters k member).2
    refine ⟨fields, ?_⟩
    rw [countable_iff]
    refine forall₂_congr fun k member => ?_
    rw [fields k member, Nat.mod_eq_iff_lt (by decide)]

theorem admitted_of_groups {groups : List UnitGroup} (one : spsCount { groups } = 1)
    (count : groups.length % 2 ^ 32 < 2 ^ 8) (admitted : ∀ g ∈ groups, g.Admitted) :
    Admitted { groups } :=
  ⟨by rw [one]; decide, ⟨Nat.zero_le 3, Nat.zero_le 7, Nat.zero_le 7, Nat.le_refl 3⟩, count,
    admitted⟩

section
variable {isComplete : Bool} {type : NalUnitType} {count : Nat} (wraps : count % 2 ^ 32 = 0)
include wraps

theorem admitted_unit :
    UnitGroup.Admitted { isComplete, type, units := [List.replicate count 0] } := by
  refine ⟨by simp, List.forall_mem_singleton.mpr ?_⟩
  rw [List.length_replicate, wraps]
  decide

theorem code_unit :
    let c : DecoderConfig :=
      { groups := [{ isComplete, type, units := [List.replicate count 0] }] }
    BigEndian.decode (c.code.extract 21 23) = 0 := by
  intro c
  let k : Counter := { place := 21, width := 2, count }
  have member : k ∈ c.counters := by
    simp [counters, UnitGroup.counters, UnitGroup.unitCounters, c, k]
  have fits : k.count % 2 ^ 32 < 256 ^ 2 := by
    rw [wraps]
    decide
  exact ((counters_stand c k member).field_of_lt (Nat.le_add_left 2 2) fits).trans wraps

theorem admitted_units :
    UnitGroup.Admitted { isComplete, type, units := List.replicate count [] } := by
  constructor
  · rw [List.length_replicate, wraps]
    decide
  · intro unit member
    rw [List.eq_of_mem_replicate member]
    decide

theorem admitted_groups {first other : UnitGroup} (sps : first.type = .sps)
    (one : first.units.length = 1) (otherType : other.type ≠ .sps) (h : first.Admitted)
    (k : other.Admitted) : Admitted { groups := first :: List.replicate count other } := by
  apply admitted_of_groups
  · simp [spsCount, sps, one, otherType]
  · rw [List.length_cons, List.length_replicate, Nat.add_mod, wraps]
    decide
  · refine List.forall_mem_cons.mpr ⟨h, fun g member => ?_⟩
    rw [List.eq_of_mem_replicate member]
    exact k

end

/-- A unit of `2 ^ 32` bytes, a group of as many units, and as many groups behind another one are
written. The length of the unit is given as zero. -/
theorem encode_uncounted :
    let sps (unit : List UInt8) : UnitGroup :=
      { isComplete := false, type := .sps, units := [unit] }
    let sei (units : List (List UInt8)) : UnitGroup := { isComplete := false, type := .sei, units }
    let long : DecoderConfig := { groups := [sps (List.replicate (2 ^ 32) 0)] }
    let full : DecoderConfig := { groups := [sps [], sei (List.replicate (2 ^ 32) [])] }
    let many : DecoderConfig := { groups := sps [] :: List.replicate (2 ^ 32) (sei []) }
    (∃ bytes, long.encode = .ok bytes ∧ BigEndian.decode (bytes.extract 21 23) = 0) ∧
      (∃ bytes, full.encode = .ok bytes) ∧ ∃ bytes, many.encode = .ok bytes := by
  intro sps sei long full many
  have wraps : 2 ^ 32 % 2 ^ 32 = 0 := Nat.mod_self _
  have empty : (sps []).Admitted := ⟨by decide, by decide⟩
  have none : (sei []).Admitted := ⟨by decide, by decide⟩
  have longAdmitted : long.Admitted :=
    admitted_of_groups rfl (by decide) (List.forall_mem_singleton.mpr (admitted_unit wraps))
  have fullAdmitted : full.Admitted :=
    admitted_of_groups rfl (by decide)
      (List.forall_mem_cons.mpr ⟨empty, List.forall_mem_singleton.mpr (admitted_units wraps)⟩)
  have manyAdmitted : many.Admitted := admitted_groups wraps rfl rfl nofun empty none
  exact ⟨⟨long.code, encode_ok_iff.mpr ⟨longAdmitted, rfl⟩, code_unit wraps⟩,
    ⟨full.code, encode_ok_iff.mpr ⟨fullAdmitted, rfl⟩⟩,
    ⟨many.code, encode_ok_iff.mpr ⟨manyAdmitted, rfl⟩⟩⟩

end DecoderConfig
end EvcStream
