import EvcStream.Proofs.Slice.Header
import EvcStream.Proofs.Store.History
/-!
# Accepted units are decided by the bits they are read from

What a store reads from a unit is composed again into just the bits that were read. These decide the
answer: any unit of the type that begins with them is accepted with the same entry, and one that
breaks off among them is refused.
-/
namespace EvcStream

namespace NalUnit

/-- The payload is read as this value from its first `count` bits. -/
def ReadsFrom {α : Type} (u : NalUnit) (decoder : Decoder α) (value : α) (count : Nat) : Prop :=
  ∃ s, decoder (BitReader.ofBytes u.payload) = .ok value s ∧ s.position = count

/-- What was composed is a unit of the same type and temporal layer, and holds the first `count`
bits of the payload, a closing one bit, and zeros up to the byte boundary. -/
def Recomposes (u : NalUnit) (count : Nat) (composed : Except EncodeError (List UInt8)) : Prop :=
  ∃ bytes v padding, composed = .ok bytes ∧ NalUnit.ofFramed bytes = .ok v ∧
    v.header = NalUnitHeader.plain u.header.type u.header.temporalId ∧ padding < 8 ∧
    count ≤ 8 * u.payload.length ∧
    Bits.ofBytes v.payload =
      (Bits.ofBytes u.payload).take count ++ true :: List.replicate padding false

variable {u : NalUnit}

theorem recomposes_of_consumes {s : BitReader} {bits : Bits}
    (consumed : Consumes (BitReader.ofBytes u.payload) s bits) (small : bits.length < 2 ^ 32) :
    u.Recomposes s.position (compose u.header.type u.header.temporalId (.ok bits)) := by
  have whole : Bits.ofBytes u.payload = bits ++ s.unread := consumed.unread
  have count : s.position = bits.length := by
    rw [consumed.position, BitReader.ofBytes, Nat.zero_add]
  have within := congrArg List.length whole
  rw [Bits.ofBytes_length, List.length_append] at within
  obtain ⟨bytes, v, padding, composed, framed, header, few, payload⟩ :=
    compose_ok u.header.type u.header.temporalId small
  refine ⟨bytes, v, padding, composed, framed, header, few, by omega, ?_⟩
  rw [payload, whole, count, List.take_left]

end NalUnit

namespace ParameterStore

variable {store next : ParameterStore} {u : NalUnit}

theorem addSequence_recomposes {sps : SequenceParameterSet}
    (added : store.addSequence u = .ok (sps, next)) :
    ∃ count, u.ReadsFrom SequenceParameterSet.decode sps count ∧
      u.Recomposes count (sps.compose u.header.temporalId) := by
  obtain ⟨type, s, read⟩ := NalUnit.require_read_ok (stored_of_ok added).1
  obtain ⟨valid, bits, coded, consumed⟩ := SequenceParameterSet.decode_exact _ _ _ read
  obtain ⟨others, same, short, -⟩ := SequenceParameterSet.roundTrip valid
  obtain rfl : bits = others := Except.ok.inj (coded.symm.trans same)
  refine ⟨s.position, ⟨s, read, rfl⟩, ?_⟩
  rw [SequenceParameterSet.compose, coded, ← List.mem_singleton.mp type]
  exact NalUnit.recomposes_of_consumes consumed (Nat.lt_of_le_of_lt short (by decide))

theorem addPicture_recomposes {pps : PictureParameterSet}
    (added : store.addPicture u = .ok (pps, next)) :
    ∃ count, u.ReadsFrom (PictureParameterSet.decode store.sequences.contains) pps count ∧
      u.Recomposes count (pps.compose u.header.temporalId) := by
  obtain ⟨type, s, read⟩ := NalUnit.require_read_ok (stored_of_ok added).1
  obtain ⟨⟨valid, known⟩, bits, coded, consumed⟩ := PictureParameterSet.decode_exact _ _ _ _ read
  obtain ⟨others, same, short, -⟩ := PictureParameterSet.roundTrip valid known
  obtain rfl : bits = others := Except.ok.inj (coded.symm.trans same)
  refine ⟨s.position, ⟨s, read, rfl⟩, ?_⟩
  rw [PictureParameterSet.compose, coded, ← List.mem_singleton.mp type]
  exact NalUnit.recomposes_of_consumes consumed (Nat.lt_of_le_of_lt short (by decide))

theorem addSlice_recomposes {header : SliceHeader} (reachable : store.Reachable)
    (added : store.addSlice u = .ok (header, next)) :
    ∃ pps sps count, store.resolve header.ppsId = .ok (pps, sps) ∧
      u.ReadsFrom (SliceHeader.decode (u.header.type = .idr) store.resolve) header count ∧
      u.Recomposes count (header.compose u.header.type u.header.temporalId pps sps) := by
  obtain ⟨type, s, read⟩ := NalUnit.require_read_ok (stored_of_ok added).1
  obtain ⟨pps, sps, found, valid, bits, coded, consumed⟩ := SliceHeader.decode_ok read
  have slice : u.header.type.isSlice = true := by
    rcases List.mem_pair.mp type with nonIdr | idr
    · rw [nonIdr]
      rfl
    · rw [idr]
      rfl
  -- The parameter sets of a reachable store bound the size of a header.
  obtain ⟨picture, sequence⟩ := resolve_ok found
  have narrow := reachable.bounded.tileIdLength header.ppsId pps picture
  have brief := (reachable.bounded.sequences pps.spsId sps sequence).orderLsbWidth
  obtain ⟨others, same, short, -⟩ := SliceHeader.roundTrip valid narrow brief found
  obtain rfl : bits = others := Except.ok.inj (coded.symm.trans same)
  refine ⟨pps, sps, s.position, found, ⟨s, read, rfl⟩, ?_⟩
  rw [SliceHeader.compose, if_pos slice, coded]
  exact NalUnit.recomposes_of_consumes consumed (Nat.lt_of_le_of_lt short (by decide))

/-- Whatever kind of unit a reachable store accepts, composing what it holds gives back the bits
that were read. -/
theorem accepted_recomposes (reachable : store.Reachable) (u : NalUnit) :
    (∀ sps next, store.addSequence u = .ok (sps, next) →
      ∃ count, u.ReadsFrom SequenceParameterSet.decode sps count ∧
        u.Recomposes count (sps.compose u.header.temporalId)) ∧
    (∀ pps next, store.addPicture u = .ok (pps, next) →
      ∃ count, u.ReadsFrom (PictureParameterSet.decode store.sequences.contains) pps count ∧
        u.Recomposes count (pps.compose u.header.temporalId)) ∧
    (∀ header next, store.addSlice u = .ok (header, next) →
      ∃ pps sps count, store.resolve header.ppsId = .ok (pps, sps) ∧
        u.ReadsFrom (SliceHeader.decode (u.header.type = .idr) store.resolve) header count ∧
        u.Recomposes count (header.compose u.header.type u.header.temporalId pps sps)) := by
  refine ⟨?_, ?_, ?_⟩
  · intro sps next added
    exact addSequence_recomposes added
  · intro pps next added
    exact addPicture_recomposes added
  · intro header next added
    exact addSlice_recomposes reachable added

/-- A sequence, a picture and a slice unit, the last one with slice data behind its header. -/
theorem accepted_recomposes_with_data :
    let sps : SequenceParameterSet :=
      { format := { id := 3, profileIdc := 1, chromaFormatIdc := 3 }
        motion := { advanced := true, mergeDifference := true }
        loop := { adaptiveLoopFilter := true }
        log2MaxOrderLsbMinus4 := some 12 }
    let pps : PictureParameterSet :=
      { id := 9, spsId := 3, grid := { columnsMinus1 := 1, rowsMinus1 := 1 }
        tiling := some { spacing := none }
        tileIdLengthMinus1 := 31, arbitrarySlices := true }
    let header : SliceHeader :=
      { ppsId := 9, firstTileId := 2 ^ 32 - 1, span := .chosen 1 [0, 2 ^ 32 - 2]
        mergeDifferenceGroups := true
        loopFilter := { chromaIdc := 3, chromaApsId := 31, chromaMap := true, chroma2ApsId := 7 }
        orderLsb := 2 ^ 16 - 1 }
    let sequence : NalUnit :=
      { header := .plain .sps 0
        bytes := [50, 0, 32, 8, 0, 0, 0, 0, 0, 0, 0, 0, 1, 60, 136, 36, 27, 196] }
    let picture : NalUnit :=
      { header := .plain .pps 0, bytes := [52, 0, 20, 78, 37, 65, 1, 32] }
    let slice : NalUnit :=
      { header := .plain .nonIdr 5
        bytes := [3, 64, 20, 255, 255, 255, 255, 168, 0, 0, 0, 15, 255, 255, 255, 253, 254, 119,
          255, 249, 77, 33] }
    let known : ParameterStore := { sequences := ({} : IdTable SequenceParameterSet).insert 3 sps }
    let store := { known with pictures := known.pictures.insert 9 pps }
    (({} : ParameterStore).addSequence sequence = .ok (sps, known) ∧
      ∃ count, sequence.ReadsFrom SequenceParameterSet.decode sps count ∧
        sequence.Recomposes count (sps.compose 0)) ∧
    (known.addPicture picture = .ok (pps, store) ∧
      ∃ count, picture.ReadsFrom (PictureParameterSet.decode known.sequences.contains) pps count ∧
        picture.Recomposes count (pps.compose 0)) ∧
    (store.addSlice slice = .ok (header, { store with slices := store.slices.insert 9 header }) ∧
      ∃ pps sps count, store.resolve 9 = .ok (pps, sps) ∧
        slice.ReadsFrom (SliceHeader.decode false store.resolve) header count ∧
        slice.Recomposes count (header.compose .nonIdr 5 pps sps)) := by
  intro sps pps header sequence picture slice known store
  have sequenceAdded : ({} : ParameterStore).addSequence sequence = .ok (sps, known) :=
    Fault.ok_of_toOption (by decide +kernel)
  have pictureAdded : known.addPicture picture = .ok (pps, store) :=
    Fault.ok_of_toOption (by decide +kernel)
  have sliceAdded : store.addSlice slice =
      .ok (header, { store with slices := store.slices.insert 9 header }) :=
    Fault.ok_of_toOption (by decide +kernel)
  have knownReachable : known.Reachable := .addSequence .empty sequenceAdded
  have storeReachable : store.Reachable := .addPicture knownReachable pictureAdded
  refine ⟨⟨sequenceAdded, ?_⟩, ⟨pictureAdded, ?_⟩, ⟨sliceAdded, ?_⟩⟩
  · exact (accepted_recomposes .empty sequence).1 sps known sequenceAdded
  · exact (accepted_recomposes knownReachable picture).2.1 pps store pictureAdded
  · exact (accepted_recomposes storeReachable slice).2.2 header _ sliceAdded

end ParameterStore

namespace NalUnit

variable {α : Type} {u : NalUnit} {decoder : Decoder α} {value : α} {count : Nat}

theorem read_map {β : Type} (f : α → β) :
    u.read (do return f (← decoder)) = (u.read decoder).map f := by
  unfold read
  rw [bind_run]
  cases decoder (BitReader.ofBytes u.payload) <;> rfl

theorem read_stored (u : NalUnit) {types : List NalUnitType} (wrap : α → ParameterStore.Entry)
    (put : ParameterStore.Entry → ParameterStore) :
    (do
      let (value, next) ← (do
        let value ← (do u.requireType types; u.read decoder)
        return (value, put (wrap value)))
      return (wrap value, next)) = (do
      let entry ← (do u.requireType types; u.read (do return wrap (← decoder)))
      return (entry, put entry)) := by
  rw [read_map]
  cases u.requireType types with
  | error fault => rfl
  | ok typed => cases u.read decoder <;> rfl

theorem read_of_breaksOff {bits : Bits} (breaks : BreaksOff Fault.RanOut decoder bits)
    (front : Bits.ofBytes u.payload <+: bits) (short : 8 * u.payload.length < bits.length) :
    ∃ fault, u.read decoder = .error fault ∧ fault.RanOut := by
  obtain ⟨lost, split⟩ := front
  have some : lost ≠ [] := by
    rintro rfl
    rw [← split, List.append_nil, Bits.ofBytes_length] at short
    exact Nat.lt_irrefl _ short
  obtain ⟨fault, s, failed, out⟩ := breaks _ lost (BitReader.ofBytes u.payload) split.symm some rfl
  exact ⟨fault, by rw [read, failed], out⟩

/-- The bits that a value was read from give the same value in front of any other payload, and a
payload that breaks off within them ends too early. -/
theorem ReadsFrom.elsewhere (delimited : Delimited Fault.RanOut decoder)
    (reads : u.ReadsFrom decoder value count) :
    count ≤ 8 * u.payload.length ∧
    (∀ v : NalUnit, (Bits.ofBytes v.payload).take count = (Bits.ofBytes u.payload).take count →
      v.read decoder = .ok value) ∧
    ∀ v : NalUnit, v.payload <+: u.payload → 8 * v.payload.length < count →
      ∃ fault, v.read decoder = .error fault ∧ fault.RanOut := by
  obtain ⟨s, delivered, stands⟩ := reads
  obtain ⟨bits, consumed, decided, breaks⟩ := delimited _ value s delivered
  have whole : Bits.ofBytes u.payload = bits ++ s.unread := consumed.unread
  have first : bits <+: Bits.ofBytes u.payload := ⟨s.unread, whole.symm⟩
  obtain rfl : bits.length = count := by
    rw [← stands, consumed.position, BitReader.ofBytes, Nat.zero_add]
  refine ⟨?_, ?_, ?_⟩
  · rw [← Bits.ofBytes_length]
    exact first.length_le
  · intro v same
    rw [whole, List.take_left] at same
    have starts := List.take_append_drop bits.length (Bits.ofBytes v.payload)
    rw [same] at starts
    exact read_of_reads starts.symm decided
  · rintro v ⟨behind, split⟩ short
    have front : Bits.ofBytes v.payload <+: Bits.ofBytes u.payload := by
      rw [← split, Bits.ofBytes_append]
      exact List.prefix_append _ _
    refine read_of_breaksOff breaks (List.prefix_of_prefix_length_le front first ?_) short
    rw [Bits.ofBytes_length]
    exact Nat.le_of_lt short

end NalUnit

namespace ParameterStore

namespace Call

def unit : Call → NalUnit
  | sequence u | picture u | slice u => u

def withUnit (v : NalUnit) : Call → Call
  | sequence _ => .sequence v
  | picture _ => .picture v
  | slice _ => .slice v

def types : Call → List NalUnitType
  | sequence _ => [.sps]
  | picture _ => [.pps]
  | slice _ => [.nonIdr, .idr]

end Call

def decoderOf (store : ParameterStore) : Call → Decoder Entry
  | .sequence _ => do return .sequence (← SequenceParameterSet.decode)
  | .picture _ => do return .picture (← PictureParameterSet.decode store.sequences.contains)
  | .slice u => do return .slice (← SliceHeader.decode (u.header.type = .idr) store.resolve)

def put (store : ParameterStore) : Entry → ParameterStore
  | .sequence sps => { store with sequences := store.sequences.insert sps.format.id sps }
  | .picture pps => { store with pictures := store.pictures.insert pps.id pps }
  | .slice header => { store with slices := store.slices.insert header.ppsId header }

variable {store next : ParameterStore} {call : Call} {entry : Entry} {v : NalUnit}

theorem decoderOf_delimited (store : ParameterStore) (call : Call) :
    Delimited Fault.RanOut (store.decoderOf call) := by
  cases call with
  | sequence u => exact .bind SequenceParameterSet.decode_fielded.delimited fun _ => .pure _
  | picture u => exact .bind (PictureParameterSet.decode_delimited _) fun _ => .pure _
  | slice u => exact .bind (SliceHeader.decode_delimited _ _) fun _ => .pure _

theorem decoderOf_withUnit (type : v.header.type = call.unit.header.type) :
    store.decoderOf (call.withUnit v) = store.decoderOf call := by
  cases call with
  | sequence u => rfl
  | picture u => rfl
  | slice u =>
    have type : v.header.type = u.header.type := type
    dsimp only [Call.withUnit, decoderOf]
    rw [type]

/-- All kinds of calls go the same way. -/
theorem answer_eq (store : ParameterStore) (call : Call) :
    store.answer call = (do
      let entry ← (do call.unit.requireType call.types; call.unit.read (store.decoderOf call))
      return (entry, store.put entry)) := by
  cases call with
  | sequence u => exact u.read_stored .sequence store.put
  | picture u => exact u.read_stored .picture store.put
  | slice u => exact u.read_stored .slice store.put

theorem answer_withUnit (typed : call.unit.header.type ∈ call.types)
    (type : v.header.type = call.unit.header.type) :
    store.answer (call.withUnit v) =
      (v.read (store.decoderOf call)).map fun entry => (entry, store.put entry) := by
  have unit : (call.withUnit v).unit = v := by cases call <;> rfl
  have types : (call.withUnit v).types = call.types := by cases call <;> rfl
  rw [answer_eq, unit, types, decoderOf_withUnit type, NalUnit.requireType, type, if_pos typed]
  cases v.read (store.decoderOf call) <;> rfl

/-- What a unit is accepted for stands in its first bits. Every unit of the type with these bits is
accepted for the same, whatever is behind them. If the payload breaks off within them, the bits
have run out, and the store stays as it was. -/
theorem accepted_elsewhere (answered : store.answer call = .ok (entry, next)) :
    ∃ count ≤ 8 * call.unit.payload.length,
      call.unit.ReadsFrom (store.decoderOf call) entry count ∧
      ∀ v : NalUnit, v.header.type = call.unit.header.type →
        ((Bits.ofBytes v.payload).take count = (Bits.ofBytes call.unit.payload).take count →
          store.answer (call.withUnit v) = .ok (entry, next)) ∧
        (v.payload <+: call.unit.payload → 8 * v.payload.length < count →
          ∃ fault, store.answer (call.withUnit v) = .error fault ∧ fault.RanOut ∧
            fault.isUnsupported = false ∧ run [call.withUnit v] store = ([], store)) := by
  rw [answer_eq] at answered
  obtain ⟨read, rfl⟩ := stored_of_ok answered
  obtain ⟨typed, s, delivered⟩ := NalUnit.require_read_ok read
  have reads : call.unit.ReadsFrom (store.decoderOf call) entry s.position := ⟨s, delivered, rfl⟩
  obtain ⟨within, agreeing, broken⟩ := reads.elsewhere (decoderOf_delimited store call)
  refine ⟨s.position, within, reads, ?_⟩
  intro v type
  constructor
  · intro same
    rw [answer_withUnit typed type, agreeing v same]
    rfl
  · intro front short
    obtain ⟨fault, failed, error, rfl, out⟩ := broken v front short
    have refused : store.answer (call.withUnit v) = .error (.bits error) := by
      rw [answer_withUnit typed type, failed]
      rfl
    refine ⟨.bits error, refused, ⟨error, rfl, out⟩, rfl, ?_⟩
    simp only [run, refused]

/-- A slice header of 69 bits, with the data of two slices behind it, and cut off within them. -/
theorem accepted_elsewhere_with_data :
    let pps : PictureParameterSet := { tileIdLengthMinus1 := 31 }
    let header : SliceHeader := { firstTileId := 1, span := .through 513, type := .i }
    let store : ParameterStore :=
      { sequences := ({} : IdTable SequenceParameterSet).insert 0 {}
        pictures := ({} : IdTable PictureParameterSet).insert 0 pps }
    let next := { store with slices := store.slices.insert 0 header }
    let slice : NalUnit :=
      { header := .plain .nonIdr 0, bytes := [2, 0, 128, 0, 0, 0, 64, 0, 0, 128, 95, 200, 1] }
    let other : NalUnit :=
      { header := .plain .nonIdr 3, bytes := [2, 192, 128, 0, 0, 0, 64, 0, 0, 128, 88, 7] }
    let broken : NalUnit := { slice with bytes := slice.bytes.take 10 }
    store.answer (.slice slice) = .ok (.slice header, next) ∧
      store.answer (.slice other) = .ok (.slice header, next) ∧
      ∃ fault, store.answer (.slice broken) = .error fault ∧ fault.RanOut ∧
        fault.isUnsupported = false ∧ run [.slice broken] store = ([], store) := by
  intro pps header store next slice other broken
  have answered : store.answer (.slice slice) = .ok (.slice header, next) :=
    Fault.ok_of_toOption (by decide +kernel)
  obtain ⟨count, -, ⟨s, delivered, stands⟩, elsewhere⟩ := accepted_elsewhere answered
  have size : (match store.decoderOf (.slice slice) (BitReader.ofBytes slice.payload) with
      | .ok _ s => s.position
      | .error _ _ => 0) = 69 := by decide +kernel
  obtain rfl : count = 69 := by
    change store.decoderOf (.slice slice) (BitReader.ofBytes slice.payload) = _ at delivered
    rw [delivered] at size
    exact stands.symm.trans size
  refine ⟨answered, ?_, ?_⟩
  · exact (elsewhere other rfl).1 (by decide +kernel)
  · exact (elsewhere broken rfl).2 (by decide +kernel) (by decide +kernel)

end ParameterStore
end EvcStream
