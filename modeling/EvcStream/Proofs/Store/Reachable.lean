import EvcStream.Proofs.Coding.Fields
import EvcStream.Proofs.Picture.ParameterSet
import EvcStream.Proofs.Sequence.ParameterSet
/-!
# Reachable stores and refused units

A store is reachable if units have been added to an empty one. What it holds is well formed, so the
sizes that its sets choose are in bounds. A unit that is refused is of another type, breaks the
coding, or refers to a set that is not there.
-/
namespace EvcStream

structure SequenceParameterSet.Bounded (s : SequenceParameterSet) : Prop where
  orderLsbWidth : s.orderLsbWidth ≤ 16
  subGop : s.subGop.log2Length ≤ SubGop.maxLog2Length

theorem SequenceParameterSet.WellFormed.bounded {s : SequenceParameterSet}
    (valid : s.WellFormed) : s.Bounded := by
  constructor
  · unfold orderLsbWidth
    cases coded : s.log2MaxOrderLsbMinus4 with
    | none => decide
    | some width => exact Nat.add_le_add_right (valid.log2MaxOrderLsbMinus4 width coded) 4
  · by_cases used : usesSubGop s.countsInSlices s.references.isListed = true
    · exact (valid.subGop used).log2Length
    · rw [valid.noSubGop (eq_false_of_ne_true used)]
      exact Nat.zero_le _

theorem NalUnit.require_read_ok {α : Type} {u : NalUnit} {part : Decoder α} {value : α}
    {types : List NalUnitType}
    (read : (do u.requireType types; u.read part) = .ok value) :
    u.header.type ∈ types ∧ ∃ s, part (BitReader.ofBytes u.payload) = .ok value s := by
  obtain ⟨⟨⟩, typed, read⟩ := Fault.bind_ok read
  constructor
  · unfold requireType at typed
    split at typed
    · next member => exact member
    · cases typed
  · unfold NalUnit.read at read
    split at read
    · next found s delivered =>
      cases read
      exact ⟨s, delivered⟩
    · cases read

namespace ParameterStore

inductive Reachable : ParameterStore → Prop
  | empty : Reachable {}
  | addSequence {store next : ParameterStore} {u : NalUnit} {sps : SequenceParameterSet} :
      Reachable store → store.addSequence u = .ok (sps, next) → Reachable next
  | addPicture {store next : ParameterStore} {u : NalUnit} {pps : PictureParameterSet} :
      Reachable store → store.addPicture u = .ok (pps, next) → Reachable next
  | addSlice {store next : ParameterStore} {u : NalUnit} {header : SliceHeader} :
      Reachable store → store.addSlice u = .ok (header, next) → Reachable next

structure Bounded (store : ParameterStore) : Prop where
  sequences : ∀ id sps, store.sequences.find? id = some sps → sps.Bounded
  tileIdLength : ∀ id pps, store.pictures.find? id = some pps → pps.tileIdLength ≤ 32

variable {store next : ParameterStore} {u : NalUnit}

theorem stored_of_ok {α : Type} {read : Except Fault α} {store : α → ParameterStore} {value : α}
    (added : (do let value ← read; return (value, store value)) = .ok (value, next)) :
    read = .ok value ∧ store value = next := by
  obtain ⟨value, done, last⟩ := Fault.bind_ok added
  cases last
  exact ⟨done, rfl⟩

theorem resolve_ok {ppsId : Nat} {pps : PictureParameterSet} {sps : SequenceParameterSet}
    (found : store.resolve ppsId = .ok (pps, sps)) :
    store.pictures.find? ppsId = some pps ∧ store.sequences.find? pps.spsId = some sps := by
  unfold resolve at found
  split at found
  · cases found
  next pps pictureFound =>
  split at found
  · cases found
  next sps sequenceFound =>
  cases found
  exact ⟨pictureFound, sequenceFound⟩

theorem addSequence_bounded {sps : SequenceParameterSet} (bounded : store.Bounded)
    (added : store.addSequence u = .ok (sps, next)) : next.Bounded := by
  obtain ⟨read, rfl⟩ := stored_of_ok added
  obtain ⟨-, s, read⟩ := NalUnit.require_read_ok read
  have new := (SequenceParameterSet.decode_exact _ _ _ read).1.bounded
  refine ⟨?_, bounded.tileIdLength⟩
  intro id stored found
  rw [IdTable.find?_insert] at found
  split at found
  · cases found
    exact new
  · exact bounded.sequences id stored found

theorem addPicture_bounded {pps : PictureParameterSet} (bounded : store.Bounded)
    (added : store.addPicture u = .ok (pps, next)) : next.Bounded := by
  obtain ⟨read, rfl⟩ := stored_of_ok added
  obtain ⟨-, s, read⟩ := NalUnit.require_read_ok read
  have new := (PictureParameterSet.decode_exact _ _ _ _ read).1.1.tileIdLengthMinus1
  refine ⟨bounded.sequences, ?_⟩
  intro id stored found
  rw [IdTable.find?_insert] at found
  split at found
  · cases found
    exact Nat.succ_le_succ new
  · exact bounded.tileIdLength id stored found

theorem addSlice_bounded {header : SliceHeader} (bounded : store.Bounded)
    (added : store.addSlice u = .ok (header, next)) : next.Bounded := by
  obtain ⟨-, rfl⟩ := stored_of_ok added
  exact ⟨bounded.sequences, bounded.tileIdLength⟩

theorem Reachable.bounded (reachable : store.Reachable) : store.Bounded := by
  induction reachable with
  | empty => exact ⟨fun _ _ found => (nomatch found), fun _ _ found => (nomatch found)⟩
  | addSequence _ added bounded => exact addSequence_bounded bounded added
  | addPicture _ added bounded => exact addPicture_bounded bounded added
  | addSlice _ added bounded => exact addSlice_bounded bounded added

end ParameterStore

namespace Decoder

def FailsCoding {α : Type} (part : Decoder α) : Prop :=
  ∀ r fault s, part r = .error fault s → fault.isCoding = true

namespace FailsCoding

variable {α β : Type} {part : Decoder α}

theorem of_read (read : ReadM α) : FailsCoding (ofRead read) := by
  intro r fault s failed
  unfold ofRead at failed
  split at failed
  · cases failed
  · cases failed
    rfl

theorem bind {next : α → Decoder β} (first : FailsCoding part)
    (later : ∀ a, FailsCoding (next a)) : FailsCoding (part >>= next) := by
  intro r fault s failed
  rw [bind_run] at failed
  cases read : part r with
  | error fault t =>
    rw [read] at failed
    cases failed
    exact first r _ _ read
  | ok a t =>
    rw [read] at failed
    exact later a t fault s failed

end FailsCoding

theorem Fielded.failsCoding {α : Type} {part : Decoder α} (fielded : Fielded part) :
    FailsCoding part := by
  induction fielded with
  | pure value =>
    intro r fault s failed
    cases failed
  | throw coding =>
    intro r fault s failed
    cases failed
    exact coding
  | flag => exact .of_read BitReader.bit
  | u width => exact .of_read (BitReader.bits width)
  | ue => exact .of_read BitReader.ue
  | ueMax high => exact .of_read (BitReader.ueMax high)
  | se => exact .of_read BitReader.se
  | bind _ _ first later => exact .bind first later

end Decoder

open Decoder (FailsCoding)

/-- A unit that is not read has another type, or its decoder stops. -/
theorem NalUnit.require_read_error {α : Type} {u : NalUnit} {part : Decoder α} {fault : Fault}
    {types : List NalUnitType} (refused : (do u.requireType types; u.read part) = .error fault) :
    fault = .unexpectedType types u.header.type ∨
      ∃ s, part (BitReader.ofBytes u.payload) = .error fault s := by
  unfold requireType at refused
  by_cases member : u.header.type ∈ types
  · rw [if_pos member] at refused
    have stopped : u.read part = .error fault := refused
    unfold NalUnit.read at stopped
    split at stopped
    · cases stopped
    · next found s failed =>
      cases stopped
      exact Or.inr ⟨s, failed⟩
  · rw [if_neg member] at refused
    cases refused
    exact Or.inl rfl

namespace ParameterStore

variable {store : ParameterStore} {u : NalUnit} {fault : Fault}

theorem readSequence_error (refused : readSequence u = .error fault) :
    fault = .unexpectedType [.sps] u.header.type ∨ fault.isCoding = true := by
  rcases NalUnit.require_read_error refused with type | ⟨s, failed⟩
  · exact Or.inl type
  · exact Or.inr (SequenceParameterSet.decode_fielded.failsCoding _ fault s failed)

theorem readPicture_error (refused : store.readPicture u = .error fault) :
    fault = .unexpectedType [.pps] u.header.type ∨ fault.isCoding = true ∨
      ∃ id spsId, fault = .unknownSps id spsId ∧ store.sequences.contains spsId = false := by
  rcases NalUnit.require_read_error refused with type | ⟨s, failed⟩
  · exact Or.inl type
  · apply Or.inr
    unfold PictureParameterSet.decode at failed
    rw [bind_run] at failed
    cases first : Decoder.ueMax PictureParameterSet.maxId (BitReader.ofBytes u.payload) with
    | error fault t =>
      rw [first] at failed
      cases failed
      exact Or.inl ((Decoder.Fielded.ueMax _).failsCoding _ _ _ first)
    | ok id t =>
      rw [first] at failed
      dsimp only at failed
      rw [bind_run] at failed
      cases second : Decoder.ueMax PictureParameterSet.maxSpsId t with
      | error fault t =>
        rw [second] at failed
        cases failed
        exact Or.inl ((Decoder.Fielded.ueMax _).failsCoding _ _ _ second)
      | ok spsId t =>
        rw [second] at failed
        dsimp only at failed
        by_cases known : store.sequences.contains spsId = true
        · rw [if_pos known] at failed
          have fielded := PictureParameterSet.decodeWith_fielded id spsId
          exact Or.inl (fielded.failsCoding _ fault s failed)
        · rw [if_neg known] at failed
          cases failed
          exact Or.inr ⟨id, spsId, rfl, eq_false_of_ne_true known⟩

theorem readSlice_error (refused : store.readSlice u = .error fault) :
    fault = .unexpectedType [.nonIdr, .idr] u.header.type ∨ fault.isCoding = true ∨
      ∃ ppsId, store.resolve ppsId = .error fault := by
  rcases NalUnit.require_read_error refused with type | ⟨s, failed⟩
  · exact Or.inl type
  · apply Or.inr
    unfold SliceHeader.decode at failed
    rw [bind_run] at failed
    cases first : Decoder.ueMax PictureParameterSet.maxId (BitReader.ofBytes u.payload) with
    | error fault t =>
      rw [first] at failed
      cases failed
      exact Or.inl ((Decoder.Fielded.ueMax _).failsCoding _ _ _ first)
    | ok ppsId t =>
      rw [first] at failed
      dsimp only at failed
      cases found : store.resolve ppsId with
      | error fault =>
        rw [found] at failed
        cases failed
        exact Or.inr ⟨ppsId, found⟩
      | ok sets =>
        obtain ⟨pps, sps⟩ := sets
        rw [found] at failed
        have fielded := SliceHeader.decodeWith_fielded (u.header.type = .idr) ppsId pps sps
        exact Or.inl (fielded.failsCoding _ fault s failed)

theorem resolve_error {ppsId : Nat} (missing : store.resolve ppsId = .error fault) :
    (fault = .unknownPps ppsId ∧ store.pictures.find? ppsId = none) ∨
      ∃ pps, fault = .lostSps ppsId pps.spsId ∧ store.pictures.find? ppsId = some pps ∧
        store.sequences.find? pps.spsId = none := by
  unfold resolve at missing
  split at missing
  · next absent =>
    cases missing
    exact Or.inl ⟨rfl, absent⟩
  next pps present =>
  split at missing
  · next absent =>
    cases missing
    exact Or.inr ⟨pps, rfl, present, absent⟩
  · cases missing

end ParameterStore
end EvcStream
