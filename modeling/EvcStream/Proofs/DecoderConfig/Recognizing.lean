import EvcStream.Proofs.DecoderConfig.Collecting
import EvcStream.Proofs.DecoderConfig.Recoding
/-!
# Telling records from streams

A record starts with its version, which is one, and a stream with the high byte of the length of
its first unit. If that unit goes into a record, it is short and the byte is zero. So the stream is
not mistaken for a record, and the record that is written for it is known and left as it is.
-/
namespace EvcStream.DecoderConfig

variable {u : NalUnit} {bytes : List UInt8} {allComplete : Bool} {c : DecoderConfig}

theorem isRecord_iff : isRecord bytes = true ↔ minSize ≤ bytes.length ∧ bytes.head? = some 1 := by
  rw [isRecord, Bool.and_eq_true, decide_eq_true_eq, beq_iff_eq]

theorem readSequence_size {sps : SequenceParameterSet}
    (read : ParameterStore.readSequence u = .ok sps) : minSize ≤ u.size := by
  obtain ⟨-, s, decoded⟩ := NalUnit.require_read_ok read
  obtain ⟨f, t, format, -⟩ := bind_run_ok decoded
  have long := SequenceFormat.decode_unread format
  have payload : u.payload.length = u.size - 2 := List.length_drop
  rw [BitReader.unread_length, BitReader.left, BitReader.ofBytes, payload] at long
  dsimp only at long
  unfold minSize
  omega

theorem head?_framed (short : u.size < 2 ^ 16) : u.framed.head? = some 0 := by
  have none : u.size / 256 ^ 3 = 0 := Nat.div_eq_of_lt (Nat.lt_trans short (by decide))
  rw [NalUnit.framed, NalUnit.lengthSize, BigEndian.encode, none]
  rfl

theorem isRecord_stream (first : (NalWalk.of bytes).units.head? = some u)
    (short : u.size < 2 ^ 16) : isRecord bytes = false := by
  obtain ⟨later, found⟩ := List.head?_eq_some_iff.mp first
  have front : u.framed <+: bytes := by
    have whole := NalWalk.framed_prefix 0 bytes
    rw [← NalWalk.of, found, List.flatMap_cons] at whole
    exact (List.prefix_append _ _).trans whole
  rw [← Bool.not_eq_true, isRecord_iff]
  rintro ⟨-, head⟩
  obtain ⟨rest, whole⟩ := front
  rw [← whole, List.head?_append, head?_framed short] at head
  cases head

theorem size_le_of_mem (member : u ∈ (NalWalk.of bytes).units) : u.size ≤ bytes.length := by
  have part : u.framed.Sublist ((NalWalk.of bytes).units.flatMap NalUnit.framed) := by
    rw [List.flatMap_def]
    exact List.sublist_flatten_of_mem (List.mem_map_of_mem member)
  have length : u.size ≤ u.framed.length := by
    rw [NalUnit.framed, List.length_append]
    exact Nat.le_add_left _ _
  exact Nat.le_trans length (Nat.le_trans part.length_le (NalWalk.framed_prefix 0 bytes).length_le)

theorem minSize_le_of_ofStream (built : ofStream bytes allComplete = .ok c) :
    minSize ≤ bytes.length := by
  have framable := fun u (member : u ∈ (NalWalk.of bytes).units) => NalWalk.framable_of_mem member
  obtain ⟨-, -, f, format, -⟩ := (collect_ok_iff allComplete framable).mp built
  obtain ⟨u, sps, head, read, -⟩ := format.first
  have member := List.mem_of_mem_filter (mem_ofType.mp (List.mem_of_head? head)).1
  exact Nat.le_trans (readSequence_size read) (size_le_of_mem member)

theorem isRecord_code (version : c.version = 1) : isRecord c.code = true := by
  have fixed : c.code = 1 :: c.code.tail := by
    rw [code, encodeFixed, version]
    rfl
  have long : minSize ≤ c.code.length := by
    simp only [code, encodeFixed, List.length_append, BigEndian.encode_length]
    unfold minSize
    omega
  rw [isRecord_iff]
  exact ⟨long, fixed ▸ rfl⟩

theorem recordFor_record (record : isRecord bytes = true) :
    recordFor bytes allComplete = .ok bytes := by
  rw [recordFor, if_neg (Nat.not_lt.mpr (isRecord_iff.mp record).1), if_pos record]

/-- The record of a stream is read back from what is written of it if all units are counted. -/
theorem CollectedFrom.decode_code_iff (h : CollectedFrom bytes allComplete c)
    (admitted : c.Admitted) :
    decode c.code = .ok c ↔ ∀ g ∈ c.groups, g.units.length < 2 ^ 32 := by
  constructor
  · intro accepted g member
    obtain ⟨front, rest, -, -, read⟩ := decode_ok accepted
    exact Nat.lt_trans (read.groups g member).count (by decide)
  · intro counts
    have countable : c.Countable := by
      refine ⟨Nat.lt_trans h.groups_length (by decide), fun g member => ⟨counts g member, ?_⟩⟩
      exact fun unit inside => Nat.lt_trans (h.unit_lengths g member unit inside) (by decide)
    exact h.decode_code ((admitted_iff countable).mp admitted)

/-- Bytes that start with a unit of a record are known as a stream, and what is written for them is
known as a record. This is their record again unless a group has `2 ^ 32` units or more. -/
theorem recordFor_ofStream (first : (NalWalk.of bytes).units.head? = some u)
    (kept : isCollected u.header.type = true) (built : ofStream bytes allComplete = .ok c) :
    isRecord bytes = false ∧ recordFor bytes allComplete = c.encode ∧
      ∀ written, c.encode = .ok written →
        isRecord written = true ∧ (∀ again, recordFor written again = .ok written) ∧
          (decode written = .ok c ↔ ∀ g ∈ c.groups, g.units.length < 2 ^ 32) := by
  have h := ofStream_ok built
  have member : u ∈ collected (NalWalk.of bytes).units :=
    List.mem_filter.mpr ⟨List.mem_of_head? first, kept⟩
  have stream := isRecord_stream first (h.lengths u member)
  refine ⟨stream, ?_, ?_⟩
  · have long := Nat.not_lt.mpr (minSize_le_of_ofStream built)
    rw [recordFor, if_neg long, stream, if_neg Bool.false_ne_true, built]
    rfl
  · intro written encoded
    obtain ⟨admitted, rfl⟩ := encode_ok_iff.mp encoded
    have record := isRecord_code h.headed.version
    exact ⟨record, fun again => recordFor_record record, h.decode_code_iff admitted⟩

/-- A message comes first, so the record has its parameter sets in the second place. -/
theorem recordFor_ofStream_message_first :
    let sps : List UInt8 := [50, 0, 128, 0, 0, 0, 0, 0, 0, 0, 0, 0, 32, 32, 129, 7, 0, 7, 16]
    let bytes : List UInt8 :=
      [0, 0, 0, 2, 58, 0] ++ [0, 0, 0, 19] ++ sps ++ [0, 0, 0, 4, 52, 0, 251, 4]
    let c : DecoderConfig :=
      { chromaFormatIdc := 1
        pictureWidth := 64
        pictureHeight := 64
        groups := [{ isComplete := false, type := .sei, units := [[58, 0]] },
          { isComplete := true, type := .sps, units := [sps] },
          { isComplete := true, type := .pps, units := [[52, 0, 251, 4]] }] }
    ofStream bytes true = .ok c ∧ isRecord bytes = false ∧
      ∃ written, recordFor bytes true = .ok written ∧ isRecord written = true ∧
        (∀ again, recordFor written again = .ok written) ∧ decode written = .ok c := by
  intro sps bytes c
  have built : ofStream bytes true = .ok c := ok_of_toOption (by decide +kernel)
  let u : NalUnit := { header := .plain .sei 0, bytes := [58, 0] }
  have first : (NalWalk.of bytes).units.head? = some u := by decide +kernel
  obtain ⟨stream, same, written⟩ := recordFor_ofStream first rfl built
  have counts : ∀ g ∈ c.groups, g.units.length < 2 ^ 16 := by decide
  have encoded := encode_eq ((ofStream_ok built).writable (by decide) (by decide) counts)
  obtain ⟨record, unchanged, back⟩ := written c.code encoded
  exact ⟨built, stream, c.code, same.trans encoded, record, unchanged, back.mpr (by decide)⟩

section
variable {first other : NalUnit} {sps : SequenceParameterSet} (count : Nat)

/-- If the number of copies is cut to nothing, the record is written. -/
theorem Crowdable.admitted (h : Crowdable first other sps)
    (luma : sps.format.bitDepthLumaMinus8 ≤ 7) (chroma : sps.format.bitDepthChromaMinus8 ≤ 7)
    (nonzero : count ≠ 0) (wraps : count % 2 ^ 32 = 0) (allComplete : Bool) :
    Admitted { formatOf sps.format with
      groups := grouped allComplete (crowd first other count) } := by
  have built := ofStream_ok (h.ofStream_crowd count allComplete)
  have counts : ∀ g ∈ grouped allComplete (crowd first other count),
      g.units.length % 2 ^ 32 < 2 ^ 16 := by
    rw [grouped_crowd count allComplete h.sequence h.differs nonzero]
    refine List.forall_mem_cons.mpr ⟨?_, List.forall_mem_singleton.mpr ?_⟩
    · exact Nat.lt_of_le_of_lt (Nat.mod_le 1 _) (by decide)
    · rw [List.length_replicate, wraps]
      decide
  refine ⟨built.spsCount, ⟨built.headed.chromaFormatIdc, luma, chroma,
    built.headed.lengthSizeMinusOne⟩, ?_, fun g member => ⟨counts g member, ?_⟩⟩
  · exact Nat.lt_of_le_of_lt (Nat.mod_le _ _) built.groups_length
  · intro unit inside
    exact Nat.lt_of_le_of_lt (Nat.mod_le _ _) (built.unit_lengths g member unit inside)

theorem Crowdable.decode_ne (h : Crowdable first other sps)
    (luma : sps.format.bitDepthLumaMinus8 ≤ 7) (chroma : sps.format.bitDepthChromaMinus8 ≤ 7)
    (nonzero : count ≠ 0) (wraps : count % 2 ^ 32 = 0) (allComplete : Bool) :
    let bytes := (crowd first other count).flatMap NalUnit.framed
    ∃ u c written, (NalWalk.of bytes).units.head? = some u ∧ isCollected u.header.type = true ∧
      ofStream bytes allComplete = .ok c ∧ c.encode = .ok written ∧ decode written ≠ .ok c := by
  intro bytes
  have built := h.ofStream_crowd count allComplete
  have admitted := h.admitted count luma chroma nonzero wraps allComplete
  -- The walk finds the units in their places, so only their types are known.
  have types := NalWalk.map_of_framed (f := fun u => u.header.type)
    (forall_mem_crowd count h.framable) fun _ => rfl
  have front := congrArg List.head? types
  rw [List.head?_map, crowd, List.map_cons, List.head?_cons, Option.map_eq_some_iff,
    h.sequence] at front
  obtain ⟨u, head, type⟩ := front
  refine ⟨u, _, _, head, by rw [type]; rfl, built, encode_ok_iff.mpr ⟨admitted, rfl⟩, ?_⟩
  intro same
  have counts := ((ofStream_ok built).decode_code_iff admitted).mp same
  rw [grouped_crowd count allComplete h.sequence h.differs nonzero] at counts
  have few := (List.forall_mem_cons.mp counts).2 _ List.mem_cons_self
  rw [List.length_replicate] at few
  omega

end

/-- Behind a sequence parameter set, `2 ^ 32` messages are counted as none. -/
theorem recordFor_ofStream_miscounted :
    let bytes : List UInt8 :=
      [0, 0, 0, 19, 50, 0, 128, 0, 0, 0, 0, 0, 0, 0, 0, 0, 32, 32, 129, 7, 0, 7, 16] ++
        (List.replicate (2 ^ 32) [0, 0, 0, 2, 58, 0]).flatten
    ∃ u c written, (NalWalk.of bytes).units.head? = some u ∧ isCollected u.header.type = true ∧
      ofStream bytes true = .ok c ∧ c.encode = .ok written ∧ decode written ≠ .ok c := by
  intro bytes
  let message : NalUnit := { header := .plain .sei 0, bytes := [58, 0] }
  have framed : (crowd plainSequenceUnit message (2 ^ 32)).flatMap NalUnit.framed = bytes :=
    framed_crowd _ (by decide) (by decide)
  have small : Crowdable plainSequenceUnit message plainSequence :=
    crowdable_plain (by decide) rfl ⟨ok_of_toOption (by decide), by decide⟩ (by decide)
  have whole := small.decode_ne (2 ^ 32) (Nat.zero_le 7) (Nat.zero_le 7) (by decide)
    (Nat.mod_self _) true
  rw [framed] at whole
  exact whole

end EvcStream.DecoderConfig
