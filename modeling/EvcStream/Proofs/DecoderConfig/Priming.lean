import EvcStream.Proofs.DecoderConfig.Recognizing
import EvcStream.Proofs.Stream.Memory
import Mathlib.Data.List.Flatten
/-!
# Priming a splitter with a record

The units of a record, fed ahead of a stream, leave a splitter with the parameter sets that the
stream itself would have left. They come in another order than in the stream, but each kind in its
own order, and sequence parameter sets ahead of the picture parameter sets that refer to them.
-/
namespace EvcStream

open ParameterStore (readPictureAmong)
open Splitter (Takes SequenceMemory notePicture)

/-- Both splitters know the same parameter sets, by id, and tell the same about the stream. -/
structure Splitter.KnowsAlike (s t : Splitter) : Prop where
  sequences : ∀ id, t.assembler.store.sequences.find? id = s.assembler.store.sequences.find? id
  pictures : ∀ id, t.assembler.store.pictures.find? id = s.assembler.store.pictures.find? id
  summary : t.summary = s.summary
  profile : t.assembler.profile = s.assembler.profile

theorem Splitter.KnowsAlike.of_memory {s t : Splitter}
    (sequences : t.sequenceMemory = s.sequenceMemory)
    (pictures : t.pictureMemory = s.pictureMemory) : s.KnowsAlike t := by
  simp only [sequenceMemory, SequenceMemory.mk.injEq] at sequences
  obtain ⟨tables, profile, summary⟩ := sequences
  exact ⟨fun id => congrArg (·.find? id) tables, fun id => congrArg (·.find? id) pictures, summary,
    profile⟩

namespace DecoderConfig

/-- A fresh splitter that is fed the units of the record comes to know what the other one does. -/
def Primes (c : DecoderConfig) (s : Splitter) : Prop :=
  ∃ stream progress t, c.unitStream = .ok stream ∧
    (Splitter.new {}).feed stream = .ok progress t ∧ s.KnowsAlike t

variable {units : List NalUnit} {bytes : List UInt8} {allComplete : Bool} {c : DecoderConfig}
  {s t : Splitter} {config : SplitterConfig}

theorem ofType_collected {type : NalUnitType} (kept : isCollected type = true) :
    ofType (collected units) type = ofType units type := by
  rw [ofType, collected, List.filter_filter]
  apply List.filter_congr
  intro u _
  by_cases same : u.header.type = type
  · rw [same, kept, Bool.and_true]
  · rw [decide_eq_false same, Bool.false_and]

theorem unitStream_eq (framable : ∀ u ∈ units, u.Framable)
    (arranged : c.groups.flatMap UnitGroup.units = units.map NalUnit.bytes) :
    c.unitStream = .ok (units.flatMap NalUnit.framed) := by
  let prefixed (unit : List UInt8) := BigEndian.encode NalUnit.lengthSize unit.length ++ unit
  have each : ∀ unit ∈ units.map NalUnit.bytes, NalUnit.frame unit = .ok (prefixed unit) := by
    rw [List.forall_mem_map]
    exact fun u member => (framable u member).frame
  have framed : (units.map NalUnit.bytes).map prefixed = units.map NalUnit.framed := by
    rw [List.map_map]
    rfl
  rw [unitStream, arranged, mapM_of_ok each, framed, List.flatMap_def]

theorem foldl_sequences (units : List NalUnit) (m : SequenceMemory) :
    (ofType units .sps).foldl SequenceMemory.note m = units.foldl SequenceMemory.note m :=
  foldl_ofType .sps (fun _ _ other => Splitter.note_other other) units m

theorem foldl_pictures (units : List NalUnit) (pictures : IdTable PictureParameterSet) :
    (ofType units .pps).foldl notePicture pictures = units.foldl notePicture pictures :=
  foldl_ofType .pps (fun _ _ other => Splitter.notePicture_other other) units pictures

/-- Splitters that take the same sequence parameter sets remember the same of them. -/
theorem sequenceMemory_eq {others : List NalUnit} {start : Splitter} (one : Takes start units s)
    (other : Takes start others t) (same : ofType others .sps = ofType units .sps) :
    t.sequenceMemory = s.sequenceMemory := by
  rw [other.memory.1, one.memory.1, ← foldl_sequences, same, foldl_sequences]

theorem pictureMemory_eq {others : List NalUnit} {start : Splitter} (one : Takes start units s)
    (other : Takes start others t) (same : ofType others .pps = ofType units .pps) :
    t.pictureMemory = s.pictureMemory := by
  rw [other.memory.2, one.memory.2, ← foldl_pictures, same, foldl_pictures]

theorem sps_of_pps {before after : List NalUnit} {p : NalUnit} (picture : p.header.type = .pps)
    (taken : Takes (Splitter.new config) (before ++ p :: after) s) :
    ∃ u ∈ before, u.header.type = .sps := by
  apply Classical.byContradiction
  intro none
  have others : ∀ u ∈ before, u.header.type ≠ .sps := fun u member sequence =>
    none ⟨u, member, sequence⟩
  obtain ⟨middle, early, late⟩ := Splitter.Takes.append_iff.mp taken
  obtain - | ⟨framable, accepted, rest⟩ := late
  have noSlice : p.header.type.isSlice = false := by
    rw [picture]
    rfl
  obtain ⟨pps, read⟩ := (Splitter.accept_readable framable accepted noSlice).picture picture
  have known := ParameterStore.known_of_readPictureAmong read
  have nothing : middle.sequenceMemory = (Splitter.new config).sequenceMemory := by
    rw [early.memory.1, ← foldl_sequences, ofType_of_none others]
    rfl
  rw [nothing] at known
  cases known

theorem not_mem_typesOf_collected {type : NalUnitType} (none : ∀ u ∈ units, u.header.type ≠ type) :
    type ∉ typesOf (collected units) := by
  intro member
  obtain ⟨u, present, same⟩ := mem_typesOf.mp member
  exact none u (List.mem_filter.mp present).1 same

theorem typesOf_split (taken : Takes (Splitter.new config) units s) :
    ∃ early late, typesOf (collected units) = early ++ late ∧ .pps ∉ early ∧
      (late = [] ∨ .sps ∈ early) := by
  cases found : units.find? fun u => u.header.type = .pps with
  | none =>
    have others : ∀ u ∈ units, u.header.type ≠ .pps := fun u member picture =>
      List.find?_eq_none.mp found u member (decide_eq_true picture)
    exact ⟨_, [], (List.append_nil _).symm, not_mem_typesOf_collected others, Or.inl rfl⟩
  | some p =>
    obtain ⟨picture, before, after, rfl, none⟩ := List.find?_eq_some_iff_append.mp found
    have picture : p.header.type = .pps := of_decide_eq_true picture
    have others : ∀ u ∈ before, u.header.type ≠ .pps := by
      intro u member
      simpa using none u member
    have absent : .pps ∉ typesOf (collected before) := not_mem_typesOf_collected others
    have new : p.header.type ∉ typesOf (collected before) := by rwa [picture]
    obtain ⟨u, member, sequence⟩ := sps_of_pps picture taken
    have kept : collected (before ++ p :: after) = collected before ++ p :: collected after := by
      rw [collected, List.filter_append]
      congr 1
      exact List.filter_cons_of_pos (by rw [picture]; rfl)
    have types := typesOf_append_new new (collected after)
    rw [← kept] at types
    have collects : u ∈ collected before := List.mem_filter.mpr ⟨member, by rw [sequence]; rfl⟩
    exact ⟨_, _, types, absent, Or.inr (mem_typesOf.mpr ⟨u, collects, sequence⟩)⟩

theorem noSlice_of_isCollected {type : NalUnitType} (kept : isCollected type = true) :
    type.isSlice = false := by
  cases type with
  | sps | pps | aps | sei => rfl
  | _ => cases kept

theorem framed_arranged_length_le (units : List NalUnit) :
    ((arranged (typesOf (collected units)) (collected units)).flatMap NalUnit.framed).length ≤
      (units.flatMap NalUnit.framed).length := by
  have kept : (collected units).Sublist units := List.filter_sublist
  rw [((arranged_perm (collected units)).flatMap_right NalUnit.framed).length_eq]
  exact (kept.flatMap NalUnit.framed).length_le

theorem takes_arranged (taken : Takes (Splitter.new config) units s)
    (room : (Splitter.new config).assembler.HasRoom (units.flatMap NalUnit.framed).length) :
    ∃ t, Takes (Splitter.new config)
      (arranged (typesOf (collected units)) (collected units)) t := by
  have framable : ∀ types, ∀ u ∈ arranged types (collected units), u.Framable :=
    fun types u member => taken.framable u (List.mem_filter.mp (mem_arranged.mp member).1).1
  have readable : ∀ types, ∀ u ∈ arranged types (collected units),
      u.Readable s.sequenceMemory.sequences.contains := by
    intro types u member
    obtain ⟨present, collects⟩ := List.mem_filter.mp (mem_arranged.mp member).1
    exact taken.readable u present (noSlice_of_isCollected collects)
  have room := room.mono (framed_arranged_length_le units)
  obtain ⟨early, late, types, noPicture, ahead⟩ := typesOf_split taken
  rw [types, arranged_append] at room ⊢
  rw [List.flatMap_append, List.length_append] at room
  have unreferring : ∀ u ∈ arranged early (collected units), u.Readable fun _ => false := by
    intro u member
    have before := readable early u member
    refine ⟨before.noSlice, before.sequence, ?_⟩
    intro picture
    exact absurd (picture ▸ (mem_arranged.mp member).2) noPicture
  obtain ⟨middle, front, spare⟩ := Splitter.takes_of_readable _ (framable early) unreferring
    (fun _ never => nomatch never) room
  rcases ahead with rfl | sequence
  · exact ⟨middle, Splitter.Takes.append_iff.mpr ⟨middle, front, .nil middle⟩⟩
  · have distinct : early.Nodup := by
      have all := typesOf_nodup (collected units)
      rw [types] at all
      exact (List.nodup_append.mp all).1
    have same : middle.sequenceMemory = s.sequenceMemory := by
      apply sequenceMemory_eq taken front
      rw [ofType_arranged distinct sequence, ofType_collected rfl]
    obtain ⟨t, back, -⟩ := Splitter.takes_of_readable 0 (framable late) (readable late)
      (fun id known => same ▸ known) spare
    exact ⟨t, Splitter.Takes.append_iff.mpr ⟨middle, front, back⟩⟩

theorem hasRoom_new {length : Nat} (addressable : length < 2 ^ 63) :
    (Splitter.new {}).assembler.HasRoom length := by
  apply UnitBuffer.canHold_of_half
  have empty : (Splitter.new {}).assembler.buffer.length = 0 := rfl
  rw [empty, UnitBuffer.sizeBound]
  omega

/-- A record that holds what is collected from the units of a stream primes for the stream. -/
theorem primes_of_groups (taken : Takes (Splitter.new {}) units s)
    (addressable : (units.flatMap NalUnit.framed).length < 2 ^ 63)
    (groups : c.groups = grouped allComplete (collected units))
    (lengths : ∀ u ∈ collected units, u.bytes.length < 2 ^ 16) : c.Primes s := by
  obtain ⟨t, again⟩ := takes_arranged taken (hasRoom_new addressable)
  have small : ∀ u ∈ arranged (typesOf (collected units)) (collected units),
      u.size ≤ ({} : SplitterConfig).maxUnitSize := by
    intro u member
    have short := lengths u (mem_arranged.mp member).1
    exact Nat.le_of_lt (Nat.lt_trans short (by decide))
  have held := grouped_units allComplete (collected units)
  rw [← groups] at held
  obtain ⟨progress, last, fed, assembler, summary⟩ := again.feed small
  refine ⟨_, progress, last, unitStream_eq again.framable held, fed, ?_⟩
  apply Splitter.KnowsAlike.of_memory
  · have known := sequenceMemory_eq taken again (by rw [ofType_arranged_all, ofType_collected rfl])
    rw [← known, Splitter.sequenceMemory, Splitter.sequenceMemory, assembler, summary]
  · have known := pictureMemory_eq taken again (by rw [ofType_arranged_all, ofType_collected rfl])
    rw [← known, Splitter.pictureMemory, Splitter.pictureMemory, assembler]

/-- The record of a stream that was fed without a fault primes for this stream, and so does the
record that is read after it has been written. No stream has more bytes than memory addresses, and
counts are written as 32-bit numbers first. -/
theorem ofStream_primes {progress : Progress} {first : Splitter}
    (addressable : bytes.length < 2 ^ 63)
    (fed : (Splitter.new {}).feed bytes = .ok progress first)
    (built : ofStream bytes allComplete = .ok c) :
    c.Primes first ∧
      ∀ written, c.encode = .ok written → (∀ g ∈ c.groups, g.units.length < 2 ^ 32) →
        ∃ d, decode written = .ok d ∧ d.Primes first := by
  have h := ofStream_ok built
  obtain ⟨s, taken, assembler, summary⟩ := Splitter.takes_of_feed fed
  have fewer : ((NalWalk.of bytes).units.flatMap NalUnit.framed).length ≤ bytes.length :=
    (NalWalk.framed_prefix 0 bytes).length_le
  have primes : c.Primes first := by
    obtain ⟨stream, progress, t, spelled, fed, alike⟩ :=
      primes_of_groups taken (Nat.lt_of_le_of_lt fewer addressable) h.groups h.lengths
    obtain ⟨sequences, pictures, told, profile⟩ := alike
    rw [assembler] at sequences pictures profile
    rw [summary] at told
    exact ⟨stream, progress, t, spelled, fed, sequences, pictures, told, profile⟩
  refine ⟨primes, ?_⟩
  intro written encoded counts
  have countable : c.Countable := by
    refine ⟨Nat.lt_trans h.groups_length (by decide), fun g member => ⟨counts g member, ?_⟩⟩
    exact fun unit found => Nat.lt_trans (h.unit_lengths g member unit found) (by decide)
  have writable := writable_of_encode countable encoded
  rw [encode_eq writable] at encoded
  cases encoded
  exact ⟨c, h.decode_code writable, primes⟩

/-- Both kinds of parameter sets are redefined behind sets that refer to them, and the stream
breaks off in a unit. -/
theorem ofStream_primes_redefined :
    let sequence : List UInt8 := [50, 0, 128, 0, 0, 0, 0, 0, 0, 0, 0, 0, 32, 32, 129, 7, 0, 7, 16]
    let second : List UInt8 := [50, 0, 64, 0, 0, 0, 0, 0, 0, 0, 0, 0, 8, 8, 32, 65, 192, 1, 196]
    let redefined : List UInt8 :=
      [50, 0, 128, 128, 0, 0, 0, 0, 0, 0, 0, 0, 32, 66, 4, 28, 0, 28, 64]
    let bytes : List UInt8 :=
      [0, 0, 0, 19] ++ sequence ++ [0, 0, 0, 4, 52, 0, 251, 4] ++ [0, 0, 0, 19] ++ second
        ++ [0, 0, 0, 5, 52, 0, 167, 176, 64] ++ [0, 0, 0, 2, 58, 0] ++ [0, 0, 0, 19] ++ redefined
        ++ [0, 0, 0, 3, 4, 0, 180] ++ [0, 0, 0, 9, 4]
    let c : DecoderConfig :=
      { chromaFormatIdc := 1
        pictureWidth := 64
        pictureHeight := 64
        groups := [{ isComplete := true, type := .sps, units := [sequence, second, redefined] },
          { isComplete := true, type := .pps
            units := [[52, 0, 251, 4], [52, 0, 167, 176, 64]] },
          { isComplete := false, type := .sei, units := [[58, 0]] }] }
    ∃ progress first written, (Splitter.new {}).feed bytes = .ok progress first ∧
      first.assembler.profile = .main ∧ ofStream bytes true = .ok c ∧ c.Primes first ∧
      c.encode = .ok written ∧ ∃ d, decode written = .ok d ∧ d.Primes first := by
  intro sequence second redefined bytes c
  have addressable : bytes.length < 2 ^ 63 := by decide
  have built : ofStream bytes true = .ok c := ok_of_toOption (by decide +kernel)
  have encoded : c.encode = .ok c.code := ok_of_toOption (by decide +kernel)
  have counts : ∀ g ∈ c.groups, g.units.length < 2 ^ 32 := by decide
  have quiet : ((Splitter.new {}).attempt bytes).faults = [] := by decide +kernel
  have main : ((Splitter.new {}).attempt bytes).after.assembler.profile = .main := by
    decide +kernel
  cases fed : (Splitter.new {}).feed bytes with
  | error fault after =>
    rw [Splitter.attempt, fed] at quiet
    cases quiet
  | ok progress first =>
    rw [Splitter.attempt_of_feed fed] at main
    obtain ⟨primes, read⟩ := ofStream_primes addressable fed built
    exact ⟨progress, first, c.code, rfl, main, built, primes, encoded, read c.code encoded counts⟩

section
variable {first picture : NalUnit} {sps : SequenceParameterSet} {pps : PictureParameterSet}
  (count : Nat)

/-- Copies of a picture parameter set are taken behind the sequence parameter set of its id. -/
theorem Crowdable.takes (h : Crowdable first picture sps) (type : picture.header.type = .pps)
    (refers : readPictureAmong (· == sps.format.id) picture = .ok pps)
    (addressable : ((crowd first picture count).flatMap NalUnit.framed).length < 2 ^ 63) :
    ∃ t, Takes (Splitter.new {}) (crowd first picture count) t := by
  obtain ⟨frame, frames⟩ := List.forall_mem_cons.mp h.framable
  have sequence : first.Readable (Splitter.new {}).sequenceMemory.sequences.contains := by
    refine ⟨by rw [h.sequence]; rfl, fun _ => ⟨sps, h.read⟩, ?_⟩
    intro other
    cases h.sequence.symm.trans other
  have copies : ∀ u ∈ List.replicate count picture, u.Framable ∧ u.Readable (· == sps.format.id) := by
    intro u member
    obtain rfl := List.eq_of_mem_replicate member
    exact ⟨List.forall_mem_singleton.mp frames, by rw [type]; rfl,
      fun other => absurd other h.differs, fun _ => ⟨pps, refers⟩⟩
  have room := hasRoom_new addressable
  rw [crowd, List.flatMap_cons, List.length_append] at room
  obtain ⟨t, accepted, spare⟩ := Splitter.accept_of_readable frame sequence room
  have known (id : Nat) (same : (id == sps.format.id) = true) :
      t.sequenceMemory.sequences.contains id = true := by
    rw [(Splitter.accept_memory frame accepted).1, SequenceMemory.note, h.read, beq_iff_eq.mp same]
    change ((_ : IdTable SequenceParameterSet).find? _).isSome = true
    rw [IdTable.find?_insert, if_pos rfl]
    rfl
  obtain ⟨last, rest, -⟩ := Splitter.takes_of_readable 0 (fun u member => (copies u member).1)
    (fun u member => (copies u member).2) known spare
  exact ⟨last, .cons frame accepted rest⟩

theorem find?_foldl_crowd (first : NalUnit) (read : readPictureAmong (fun _ => true) picture = .ok pps)
    (nonzero : count ≠ 0) (pictures : IdTable PictureParameterSet) :
    ((crowd first picture count).foldl notePicture pictures).find? pps.id = some pps := by
  obtain ⟨more, rfl⟩ := Nat.exists_eq_succ_of_ne_zero nonzero
  rw [crowd, List.replicate_succ', ← List.cons_append, List.foldl_append, List.foldl_cons,
    List.foldl_nil, notePicture, read]
  exact (IdTable.find?_insert _ _ _ _).trans (if_pos rfl)

/-- A group whose number of units is cut to nothing is written as an empty one, with the units
behind it. -/
theorem code_of_wraps {g : UnitGroup} (wraps : g.units.length % 2 ^ 32 = 0) :
    g.code = { g with units := [] }.code ++ g.units.flatMap UnitGroup.unitCode := by
  have cut := encode_cut 2 (by decide) g.units.length
  rw [wraps] at cut
  rw [UnitGroup.code, UnitGroup.code, ← cut]
  simp [UnitGroup.head]

theorem Crowdable.decode_code (h : Crowdable first picture sps)
    (luma : sps.format.bitDepthLumaMinus8 ≤ 7) (chroma : sps.format.bitDepthChromaMinus8 ≤ 7)
    (nonzero : count ≠ 0) (wraps : count % 2 ^ 32 = 0) (allComplete : Bool) :
    decode (code { formatOf sps.format with
        groups := grouped allComplete (crowd first picture count) }) =
      .ok { formatOf sps.format with
        groups := [{ isComplete := allComplete, type := .sps, units := [first.bytes] },
          { isComplete := allComplete && isParameterSet picture.header.type
            type := picture.header.type
            units := [] }] } := by
  let full : List UnitGroup := grouped allComplete (crowd first picture count)
  let one : UnitGroup := { isComplete := allComplete, type := .sps, units := [first.bytes] }
  let many : UnitGroup :=
    { isComplete := allComplete && isParameterSet picture.header.type
      type := picture.header.type
      units := List.replicate count picture.bytes }
  let none : UnitGroup := { many with units := [] }
  let d : DecoderConfig := { formatOf sps.format with groups := [one, none] }
  have headed : d.Headed := (ofStream_ok (h.ofStream_crowd count allComplete)).headed.of_groups _
  have writable : d.Writable := by
    refine ⟨?_, ⟨headed.chromaFormatIdc, luma, chroma, headed.lengthSizeMinusOne⟩, by simp [d],
      List.forall_mem_cons.mpr ⟨⟨by simp [one], ?_⟩,
        List.forall_mem_singleton.mpr ⟨by simp [none], fun _ absent => nomatch absent⟩⟩⟩
    · simp [d, one, none, many, spsCount, h.differs, maxSpsCount]
    · exact List.forall_mem_singleton.mpr (h.short first List.mem_cons_self)
  have left : code { formatOf sps.format with groups := full } =
      d.code ++ (List.replicate count picture.bytes).flatMap UnitGroup.unitCode := by
    have groups : full = [one, many] :=
      grouped_crowd count allComplete h.sequence h.differs nonzero
    have emptied : many.code = none.code ++ many.units.flatMap UnitGroup.unitCode :=
      code_of_wraps (List.length_replicate.symm ▸ wraps)
    rw [groups, code, code, List.flatMap_cons, List.flatMap_singleton, emptied]
    simp only [d, List.flatMap_cons, List.append_assoc, List.length_cons]
    rfl
  change decode (code { formatOf sps.format with groups := full }) = .ok d
  rw [left, decode, (read_spells headed.version headed.ranged writable).read]

/-- A record without picture parameter sets primes for no splitter that knows some. -/
theorem not_primes_of_picture (framable : first.Framable) (sequence : first.header.type = .sps)
    (units : c.groups.flatMap UnitGroup.units = [first.bytes])
    (known : s.assembler.store.pictures.find? pps.id = some pps) : ¬ c.Primes s := by
  rintro ⟨stream, progress, t, spelled, fed, alike⟩
  have one := List.forall_mem_singleton.mpr framable
  rw [unitStream_eq one units] at spelled
  obtain rfl := Except.ok.inj spelled
  obtain ⟨last, taken, same, -⟩ := Splitter.takes_of_feed fed
  have types := NalWalk.map_of_framed (f := fun u => u.header.type) one fun _ => rfl
  rw [List.map_singleton, sequence] at types
  have none : ∀ u ∈ (NalWalk.of ([first].flatMap NalUnit.framed)).units,
      u.header.type ≠ .pps := by
    intro u member picture
    have among := List.mem_map_of_mem (f := fun u : NalUnit => u.header.type) member
    rw [types, picture] at among
    cases List.mem_singleton.mp among
  have nothing : last.pictureMemory = {} := by
    rw [taken.memory.2, ← foldl_pictures, ofType_of_none none]
    rfl
  have missing := alike.pictures pps.id
  rw [known, ← same] at missing
  change last.pictureMemory.find? pps.id = some pps at missing
  rw [nothing] at missing
  cases missing

end

/-- The record of `2 ^ 32` picture parameter sets is written, but without them it does not prime. -/
theorem ofStream_primes_miscounted :
    let bytes : List UInt8 :=
      [0, 0, 0, 19, 50, 0, 128, 0, 0, 0, 0, 0, 0, 0, 0, 0, 32, 32, 129, 7, 0, 7, 16] ++
        (List.replicate (2 ^ 32) [0, 0, 0, 4, 52, 0, 251, 4]).flatten
    bytes.length < 2 ^ 63 ∧ ∃ progress first c written d,
      (Splitter.new {}).feed bytes = .ok progress first ∧ ofStream bytes true = .ok c ∧
      c.encode = .ok written ∧ decode written = .ok d ∧ ¬ d.Primes first := by
  intro bytes
  let pps : PictureParameterSet := { tiling := none }
  let picture : NalUnit := { header := .plain .pps 0, bytes := [52, 0, 251, 4] }
  let units := crowd plainSequenceUnit picture (2 ^ 32)
  have framed : units.flatMap NalUnit.framed = bytes := framed_crowd _ (by decide) (by decide)
  have addressable : bytes.length < 2 ^ 63 := by
    rw [List.length_append, List.length_flatten, List.map_replicate, List.sum_replicate_nat]
    decide
  have full : Crowdable plainSequenceUnit picture plainSequence :=
    crowdable_plain (by decide) rfl ⟨ok_of_toOption (by decide), by decide⟩ (by decide)
  have refers : readPictureAmong (· == plainSequence.format.id) picture = .ok pps :=
    ok_of_toOption (by decide +kernel)
  have anyway : readPictureAmong (fun _ => true) picture = .ok pps :=
    ParameterStore.readPictureAmong_of_known refers rfl
  have wraps : 2 ^ 32 % 2 ^ 32 = 0 := Nat.mod_self _
  have nonzero : 2 ^ 32 ≠ 0 := by decide
  obtain ⟨t, taken⟩ := full.takes (2 ^ 32) rfl refers (framed ▸ addressable)
  have limited : ∀ u ∈ units, u.size ≤ ({} : SplitterConfig).maxUnitSize :=
    forall_mem_crowd _ (by decide)
  obtain ⟨progress, last, fed, assembler, -⟩ := taken.feed limited
  have built := full.ofStream_crowd (2 ^ 32) true
  have admitted := full.admitted (2 ^ 32) (Nat.zero_le 7) (Nat.zero_le 7) nonzero wraps true
  have read := full.decode_code (2 ^ 32) (Nat.zero_le 7) (Nat.zero_le 7) nonzero wraps true
  rw [framed] at fed built
  have known : last.assembler.store.pictures.find? pps.id = some pps := by
    have found := find?_foldl_crowd (2 ^ 32) plainSequenceUnit anyway nonzero
      (Splitter.new {}).pictureMemory
    rw [← taken.memory.2] at found
    rw [assembler]
    exact found
  have frame := full.framable plainSequenceUnit List.mem_cons_self
  exact ⟨addressable, progress, last, _, _, _, fed, built, encode_ok_iff.mpr ⟨admitted, rfl⟩, read,
    not_primes_of_picture frame rfl rfl known⟩

end DecoderConfig
end EvcStream
