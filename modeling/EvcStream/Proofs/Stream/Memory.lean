import EvcStream.Proofs.AccessUnit.Effects
import EvcStream.Proofs.AccessUnit.Journal
import EvcStream.Proofs.Stream.Clean
/-!
# What a splitter remembers

A splitter remembers the sequence parameter sets and the picture parameter sets that it takes, each
kind apart from the other. The one thing that a picture parameter set asks of what came before is
that its sequence parameter set is known, whatever that says.
-/
namespace EvcStream

namespace ParameterStore

/-- Reads a picture parameter set where these sequence parameter sets are known. -/
def readPictureAmong (isKnown : Nat → Bool) (u : NalUnit) : Except Fault PictureParameterSet := do
  u.requireType [.pps]
  u.read (PictureParameterSet.decode isKnown)

variable {u : NalUnit} {isKnown : Nat → Bool} {pps : PictureParameterSet}

/-- What a picture parameter set says does not depend on what is known. -/
theorem readPictureAmong_of_known {others : Nat → Bool}
    (read : readPictureAmong isKnown u = .ok pps) (known : others pps.spsId = true) :
    readPictureAmong others u = .ok pps := by
  obtain ⟨type, s, read⟩ := NalUnit.require_read_ok read
  obtain ⟨⟨valid, -⟩, bits, coded, consumed⟩ := PictureParameterSet.decode_exact _ _ _ _ read
  obtain ⟨code, same, -, reads⟩ := PictureParameterSet.roundTrip valid known
  obtain rfl : bits = code := Except.ok.inj (coded.symm.trans same)
  exact NalUnit.require_read type (NalUnit.read_of_reads consumed.unread reads)

theorem known_of_readPictureAmong (read : readPictureAmong isKnown u = .ok pps) :
    isKnown pps.spsId = true := by
  obtain ⟨-, s, read⟩ := NalUnit.require_read_ok read
  exact (PictureParameterSet.decode_exact _ _ _ _ read).1.2

theorem type_of_readPictureAmong (read : readPictureAmong isKnown u = .ok pps) :
    u.header.type = .pps :=
  List.mem_singleton.mp (NalUnit.require_read_ok read).1

theorem type_of_readSequence {sps : SequenceParameterSet} (read : readSequence u = .ok sps) :
    u.header.type = .sps :=
  List.mem_singleton.mp (NalUnit.require_read_ok read).1

end ParameterStore

open ParameterStore (readSequence readPictureAmong)

/-- The unit is no slice, and can be taken where these sequence parameter sets are known. -/
structure NalUnit.Readable (isKnown : Nat → Bool) (u : NalUnit) : Prop where
  noSlice : u.header.type.isSlice = false
  sequence : u.header.type = .sps → ∃ sps, readSequence u = .ok sps
  picture : u.header.type = .pps → ∃ pps, readPictureAmong isKnown u = .ok pps

theorem NalUnit.Readable.mono {isKnown others : Nat → Bool} {u : NalUnit}
    (readable : u.Readable isKnown) (more : ∀ id, isKnown id = true → others id = true) :
    u.Readable others := by
  refine ⟨readable.noSlice, readable.sequence, ?_⟩
  intro type
  obtain ⟨pps, read⟩ := readable.picture type
  have known := more _ (ParameterStore.known_of_readPictureAmong read)
  exact ⟨pps, ParameterStore.readPictureAmong_of_known read known⟩

namespace Splitter

open Assembler (push Interpreted)

structure SequenceMemory where
  sequences : IdTable SequenceParameterSet := {}
  profile : Profile := .baseline
  summary : Option StreamSummary := none

def sequenceMemory (s : Splitter) : SequenceMemory :=
  { sequences := s.assembler.store.sequences, profile := s.assembler.profile, summary := s.summary }

def SequenceMemory.note (m : SequenceMemory) (u : NalUnit) : SequenceMemory :=
  match readSequence u with
  | .error _ => m
  | .ok sps =>
    { sequences := m.sequences.insert sps.format.id sps
      profile := sps.profile
      summary := some (.ofSps sps) }

def pictureMemory (s : Splitter) : IdTable PictureParameterSet := s.assembler.store.pictures

def notePicture (pictures : IdTable PictureParameterSet) (u : NalUnit) :
    IdTable PictureParameterSet :=
  match readPictureAmong (fun _ => true) u with
  | .error _ => pictures
  | .ok pps => pictures.insert pps.id pps

variable {s t last : Splitter} {u : NalUnit} {units : List NalUnit} {m : SequenceMemory}
  {pictures : IdTable PictureParameterSet}

theorem note_other (other : u.header.type ≠ .sps) : m.note u = m := by
  unfold SequenceMemory.note
  split
  · rfl
  · next sps read => exact absurd (ParameterStore.type_of_readSequence read) other

theorem notePicture_other (other : u.header.type ≠ .pps) : notePicture pictures u = pictures := by
  unfold notePicture
  split
  · rfl
  · next pps read => exact absurd (ParameterStore.type_of_readPictureAmong read) other

theorem note_contains {id : Nat} (known : m.sequences.contains id = true) (u : NalUnit) :
    (m.note u).sequences.contains id = true := by
  unfold SequenceMemory.note
  split
  · exact known
  · next sps read =>
    dsimp only
    rw [IdTable.contains, IdTable.find?_insert]
    split
    · rfl
    · exact known

theorem foldl_note_contains {id : Nat} (known : m.sequences.contains id = true)
    (units : List NalUnit) : (units.foldl SequenceMemory.note m).sequences.contains id = true := by
  induction units generalizing m with
  | nil => exact known
  | cons u units ih => exact ih (note_contains known u)

theorem accept_interpreted (framable : u.Framable) (accepted : s.accept u.framed = .ok () t) :
    ∃ count a, Interpreted u.unplaced s.assembler count a ∧
      t.assembler.store = a.store ∧ t.assembler.profile = a.profile ∧
      t.summary =
        if u.header.type = .sps then a.lastSps.map StreamSummary.ofSps else s.summary := by
  obtain ⟨v, unit, framing, pushed, summary⟩ := accept_ok accepted
  rw [framable.ofFramed] at framing
  cases framing
  obtain ⟨v, count, a, framing, read, store, profile, lastSpsId⟩ :=
    Assembler.push_interpreted pushed
  rw [framable.ofFramed] at framing
  cases framing
  refine ⟨count, a, read, store, profile, ?_⟩
  rw [summary, Assembler.lastSps, Assembler.lastSps, store, lastSpsId]
  rfl

theorem accept_memory (framable : u.Framable) (accepted : s.accept u.framed = .ok () t) :
    t.sequenceMemory = s.sequenceMemory.note u ∧
      t.pictureMemory = notePicture s.pictureMemory u := by
  obtain ⟨count, a, read, store, profile, summary⟩ := accept_interpreted framable accepted
  rw [sequenceMemory, pictureMemory, store, profile, summary]
  cases read with
  | @sequence sps type found =>
    change u.header.type = .sps at type
    change readSequence u = .ok sps at found
    have other : u.header.type ≠ .pps := by
      rw [type]
      exact fun same => nomatch same
    have lastSps : (s.assembler.keepSequence sps).lastSps = some sps := by
      change (s.assembler.store.sequences.insert sps.format.id sps).find? sps.format.id = some sps
      rw [IdTable.find?_insert, if_pos rfl]
    rw [if_pos type, lastSps, notePicture_other other, SequenceMemory.note, found]
    exact ⟨rfl, rfl⟩
  | @picture pps type found =>
    change u.header.type = .pps at type
    have other : u.header.type ≠ .sps := by
      rw [type]
      exact fun same => nomatch same
    have anyway : readPictureAmong (fun _ => true) u = .ok pps :=
      ParameterStore.readPictureAmong_of_known found rfl
    rw [if_neg other, note_other other, notePicture, anyway]
    exact ⟨rfl, rfl⟩
  | slice type found moved =>
    change u.header.type.isSlice = true at type
    have noSps : u.header.type ≠ .sps := NalUnitType.ne_of_isSlice type rfl
    have noPps : u.header.type ≠ .pps := NalUnitType.ne_of_isSlice type rfl
    rw [if_neg noSps, note_other noSps, notePicture_other noPps]
    exact ⟨rfl, rfl⟩
  | other noSps noPps slice =>
    change u.header.type ≠ .sps at noSps
    change u.header.type ≠ .pps at noPps
    rw [if_neg noSps, note_other noSps, notePicture_other noPps]
    exact ⟨rfl, rfl⟩

theorem accept_readable (framable : u.Framable) (accepted : s.accept u.framed = .ok () t)
    (noSlice : u.header.type.isSlice = false) :
    u.Readable s.sequenceMemory.sequences.contains := by
  obtain ⟨count, a, read, -⟩ := accept_interpreted framable accepted
  refine ⟨noSlice, ?_, ?_⟩
  · intro type
    cases read with
    | @sequence sps _ found => exact ⟨sps, found⟩
    | picture other found => cases type.symm.trans other
    | slice slice found moved => cases noSlice.symm.trans slice
    | other noSps noPps slice => exact absurd type noSps
  · intro type
    cases read with
    | sequence other found => cases type.symm.trans other
    | @picture pps _ found => exact ⟨pps, found⟩
    | slice slice found moved => cases noSlice.symm.trans slice
    | other noSps noPps slice => exact absurd type noPps

theorem accept_of_readable {more : Nat} (framable : u.Framable)
    (readable : u.Readable s.sequenceMemory.sequences.contains)
    (room : s.assembler.HasRoom (u.framed.length + more)) :
    ∃ t, s.accept u.framed = .ok () t ∧ t.assembler.HasRoom more := by
  obtain ⟨a, read⟩ : ∃ a, Interpreted u.unplaced s.assembler none a := by
    by_cases sequence : u.header.type = .sps
    · obtain ⟨sps, found⟩ := readable.sequence sequence
      exact ⟨_, .sequence sequence found⟩
    by_cases picture : u.header.type = .pps
    · obtain ⟨pps, found⟩ := readable.picture picture
      exact ⟨_, .picture picture found⟩
    · exact ⟨_, .other sequence picture readable.noSlice⟩
  have same := Assembler.interpret_open read.interpret_eq
  have fits : a.buffer.CanHold (a.buffer.length + u.framed.length) := by
    rw [same.buffer]
    exact UnitBuffer.CanHold.mono room (by omega)
  obtain ⟨buffer, appended⟩ := (a.buffer.append_isOk_iff u.framed).mpr fits
  have pushed : push u.framed s.assembler =
      .ok ((a.collected u.unplaced none buffer).closed u.header.type).1
        ((a.collected u.unplaced none buffer).closed u.header.type).2 := by
    have whole : a.buffer.append u.unplaced.framed = .ok buffer := appended
    rw [Assembler.push_eq, framable.ofFramed]
    dsimp only
    rw [read.interpret_eq]
    dsimp only
    rw [Assembler.finish, whole]
    rfl
  obtain ⟨summary, accepted⟩ := accept_of_push pushed
  exact ⟨_, accepted, room.push pushed⟩

theorem Takes.memory (taken : Takes s units last) :
    last.sequenceMemory = units.foldl SequenceMemory.note s.sequenceMemory ∧
      last.pictureMemory = units.foldl notePicture s.pictureMemory := by
  induction taken with
  | nil => exact ⟨rfl, rfl⟩
  | cons framable accepted rest ih =>
    obtain ⟨sequences, pictures⟩ := accept_memory framable accepted
    rw [sequences, pictures] at ih
    exact ih

/-- What has been taken stays readable for whoever has the sequence parameter sets by then. -/
theorem Takes.readable (taken : Takes s units last) :
    ∀ u ∈ units, u.header.type.isSlice = false →
      u.Readable last.sequenceMemory.sequences.contains := by
  induction taken with
  | nil => exact fun _ absent => (nomatch absent)
  | @cons s t last u later framable accepted rest ih =>
    refine List.forall_mem_cons.mpr ⟨?_, ih⟩
    intro noSlice
    apply (accept_readable framable accepted noSlice).mono
    intro id known
    have memory := (Takes.cons framable accepted rest).memory.1
    rw [memory]
    exact foldl_note_contains known (u :: later)

theorem takes_of_readable {isKnown : Nat → Bool} (more : Nat)
    (framable : ∀ u ∈ units, u.Framable) (readable : ∀ u ∈ units, u.Readable isKnown)
    (known : ∀ id, isKnown id = true → s.sequenceMemory.sequences.contains id = true)
    (room : s.assembler.HasRoom ((units.flatMap NalUnit.framed).length + more)) :
    ∃ last, Takes s units last ∧ last.assembler.HasRoom more := by
  induction units generalizing s with
  | nil =>
    rw [List.flatMap_nil, List.length_nil, Nat.zero_add] at room
    exact ⟨s, .nil s, room⟩
  | cons u units ih =>
    rw [List.flatMap_cons, List.length_append, Nat.add_assoc] at room
    obtain ⟨frame, frames⟩ := List.forall_mem_cons.mp framable
    obtain ⟨first, others⟩ := List.forall_mem_cons.mp readable
    obtain ⟨t, accepted, left⟩ := accept_of_readable frame (first.mono known) room
    have still : ∀ id, isKnown id = true → t.sequenceMemory.sequences.contains id = true := by
      intro id before
      rw [(accept_memory frame accepted).1]
      exact note_contains (known id before) u
    obtain ⟨last, rest, spare⟩ := ih frames others still left
    exact ⟨last, .cons frame accepted rest, spare⟩

end Splitter
end EvcStream
