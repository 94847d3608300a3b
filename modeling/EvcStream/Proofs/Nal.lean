import EvcStream.Nal.Compose
import Mathlib.Algebra.Group.Int.Defs
import Mathlib.Algebra.Group.Nat.Defs
/-!
# Framed units

A framed unit is cut off again from any bytes that follow it, and it is cut off only where the bytes
begin with a whole unit. A walk therefore finds just the units that some bytes are made of, up to
the first bytes that are none.
-/
namespace EvcStream

namespace BigEndian

theorem foldl_decode (start : Nat) (bytes : List UInt8) :
    bytes.foldl (fun value byte => 256 * value + byte.toNat) start =
      start * 256 ^ bytes.length + decode bytes := by
  induction bytes generalizing start with
  | nil => simp [decode]
  | cons byte bytes ih =>
    simp only [decode, List.foldl_cons, List.length_cons, Nat.mul_zero, Nat.zero_add]
    rw [ih, ih byte.toNat, Nat.pow_succ, Nat.add_mul, Nat.mul_comm 256 start, Nat.mul_assoc,
      Nat.mul_comm 256, Nat.add_assoc]

theorem decode_cons (byte : UInt8) (bytes : List UInt8) :
    decode (byte :: bytes) = byte.toNat * 256 ^ bytes.length + decode bytes := by
  have head := foldl_decode byte.toNat bytes
  rw [← head]
  simp [decode]

theorem decode_lt (bytes : List UInt8) : decode bytes < 256 ^ bytes.length := by
  induction bytes with
  | nil => simp [decode]
  | cons byte bytes ih =>
    have small := byte.toNat_lt
    have scaled := Nat.mul_le_mul_right (256 ^ bytes.length) (show byte.toNat + 1 ≤ 256 by omega)
    rw [decode_cons, List.length_cons, Nat.pow_succ]
    rw [Nat.add_mul] at scaled
    omega

theorem encode_add_mul (width high value : Nat) :
    encode width (high * 256 ^ width + value) = encode width value := by
  induction width generalizing high with
  | zero => rfl
  | succ width ih =>
    have positive : 0 < 256 ^ width := Nat.pow_pos (by omega)
    have shifted : high * 256 ^ (width + 1) = high * 256 * 256 ^ width := by
      rw [Nat.pow_succ, Nat.mul_assoc, Nat.mul_comm 256]
    rw [encode, encode, shifted, ih, Nat.mul_comm (high * 256), Nat.mul_add_div positive]
    congr 1
    apply UInt8.toNat.inj
    simp

theorem encode_mod {width modulus : Nat} (divides : 256 ^ width ∣ modulus) (value : Nat) :
    encode width (value % modulus) = encode width value := by
  obtain ⟨factor, rfl⟩ := divides
  have whole : factor * (value / (256 ^ width * factor)) * 256 ^ width +
      value % (256 ^ width * factor) = value := by
    rw [Nat.mul_comm _ (256 ^ width), ← Nat.mul_assoc, Nat.div_add_mod]
  rw [← encode_add_mul, whole]

theorem encode_one (value : Nat) : encode 1 value = [UInt8.ofNat value] := by
  rw [encode, encode, Nat.pow_zero, Nat.div_one]

theorem encode_decode (bytes : List UInt8) : encode bytes.length (decode bytes) = bytes := by
  induction bytes with
  | nil => rfl
  | cons byte bytes ih =>
    have small := decode_lt bytes
    have positive : 0 < 256 ^ bytes.length := Nat.pow_pos (by omega)
    rw [List.length_cons, encode, decode_cons, encode_add_mul, ih, Nat.mul_comm byte.toNat,
      Nat.mul_add_div positive, Nat.div_eq_of_lt small, Nat.add_zero, UInt8.ofNat_toNat]

theorem decode_encode (width value : Nat) :
    decode (encode width value) = value % 256 ^ width := by
  induction width with
  | zero => simp [encode, decode, Nat.mod_one]
  | succ width ih =>
    have byte : (UInt8.ofNat (value / 256 ^ width)).toNat = value / 256 ^ width % 256 :=
      UInt8.toNat_ofNat'
    rw [encode, decode_cons, encode_length, ih, byte, Nat.mod_pow_succ, Nat.add_comm, Nat.mul_comm]

end BigEndian

namespace NalUnit

variable {bytes rest : List UInt8} {u : NalUnit} {size start : Nat}

theorem encode_of_length (h : length bytes = .ok size) :
    BigEndian.encode lengthSize size = bytes.take lengthSize := by
  unfold length at h
  split at h
  · cases h
  · next front back cutting =>
    obtain ⟨long, rfl⟩ := cut?_eq_some_iff.mp cutting
    dsimp only at h
    split at h
    · cases h
    · cases h
      rw [← long, BigEndian.encode_decode, List.take_left]

theorem split_ok (h : split start bytes = .ok (u, rest)) :
    length bytes = .ok u.size ∧ NalUnitHeader.decode u.bytes = .ok u.header ∧
      bytes = u.framed ++ rest := by
  unfold split at h
  split at h
  · cases h
  · next size counted =>
    split at h
    · cases h
    · next unit behind cutting =>
      split at h
      · cases h
      · next header decoded =>
        cases h
        obtain ⟨total, body⟩ := cut?_eq_some_iff.mp cutting
        refine ⟨?_, decoded, ?_⟩
        · rw [counted, NalUnit.size, total]
        · rw [framed, NalUnit.size, total, encode_of_length counted, List.append_assoc, ← body,
            List.take_append_drop]

theorem split_start (h : split start bytes = .ok (u, rest)) : u.start = start := by
  unfold split at h
  repeat' split at h
  all_goals cases h
  rfl

theorem ofFramed_ok (h : ofFramed bytes = .ok u) :
    NalUnitHeader.decode u.bytes = .ok u.header ∧ u.framed = bytes := by
  unfold ofFramed at h
  cases cutting : split 0 bytes with
  | error fault =>
    rw [cutting] at h
    cases h
  | ok found =>
    obtain ⟨unit, rest⟩ := found
    obtain ⟨-, decoded, whole⟩ := split_ok cutting
    rw [cutting] at h
    simp only [bind, Except.bind] at h
    split at h
    · next empty =>
      cases h
      rw [List.isEmpty_iff] at empty
      rw [empty, List.append_nil] at whole
      exact ⟨decoded, whole.symm⟩
    · cases h

theorem ofFramed_nonempty (h : ofFramed bytes = .ok u) : bytes ≠ [] := by
  intro empty
  rw [empty] at h
  cases h

/-- A unit is cut off where it was framed, whatever is behind it. -/
theorem split_framed (decoded : NalUnitHeader.decode u.bytes = .ok u.header)
    (small : u.size < 2 ^ 32) (rest : List UInt8) :
    split u.start (u.framed ++ rest) = .ok (u, rest) := by
  have nonempty : u.size ≠ 0 := by
    intro zero
    rw [NalUnit.size, List.length_eq_zero_iff] at zero
    rw [zero] at decoded
    cases decoded
  have counted : length (u.framed ++ rest) = .ok u.size := by
    have front : cut? lengthSize (u.framed ++ rest) =
        some (BigEndian.encode lengthSize u.size, u.bytes ++ rest) :=
      cut?_eq_some_iff.mpr ⟨BigEndian.encode_length _ _, by rw [framed, List.append_assoc]⟩
    have number : BigEndian.decode (BigEndian.encode lengthSize u.size) = u.size := by
      rw [BigEndian.decode_encode]
      exact Nat.mod_eq_of_lt small
    rw [length, front]
    dsimp only
    rw [number, if_neg nonempty]
  have body : (u.framed ++ rest).drop lengthSize = u.bytes ++ rest := by
    rw [framed, List.append_assoc, List.drop_left' (BigEndian.encode_length _ _)]
  have taken : cut? u.size (u.bytes ++ rest) = some (u.bytes, rest) :=
    cut?_eq_some_iff.mpr ⟨rfl, rfl⟩
  rw [split, counted]
  dsimp only
  rw [body, taken]
  dsimp only
  rw [decoded]

theorem ofFramed_framed (decoded : NalUnitHeader.decode u.bytes = .ok u.header)
    (small : u.size < 2 ^ 32) (first : u.start = 0) : ofFramed u.framed = .ok u := by
  have cutting := split_framed decoded small []
  rw [List.append_nil, first] at cutting
  rw [ofFramed, cutting]
  rfl

/-- The unit has its header in front, and its size can be put into a length. -/
structure Framable (u : NalUnit) : Prop where
  header : NalUnitHeader.decode u.bytes = .ok u.header
  size : u.size < 2 ^ 32

def unplaced (u : NalUnit) : NalUnit := { u with start := 0 }

variable {bytes rest : List UInt8} {u : NalUnit} {start size : Nat}

theorem length_lt (counted : length bytes = .ok size) : size < 2 ^ 32 := by
  unfold length at counted
  split at counted
  · cases counted
  · next front back cutting =>
    have small := BigEndian.decode_lt front
    rw [(cut?_eq_some_iff.mp cutting).1] at small
    dsimp only at counted
    split at counted
    · cases counted
    · cases counted
      exact small

theorem split_framable (h : split start bytes = .ok (u, rest)) : u.Framable := by
  obtain ⟨counted, decoded, -⟩ := split_ok h
  exact ⟨decoded, length_lt counted⟩

theorem ofFramed_framable (h : ofFramed bytes = .ok u) : u.Framable := by
  unfold ofFramed at h
  cases cutting : split 0 bytes with
  | error fault =>
    rw [cutting] at h
    cases h
  | ok found =>
    rw [cutting] at h
    simp only [bind, Except.bind] at h
    split at h
    · cases h
      exact split_framable cutting
    · cases h

theorem Framable.ofFramed (framable : u.Framable) : ofFramed u.framed = .ok u.unplaced :=
  ofFramed_framed (u := u.unplaced) framable.header framable.size rfl

theorem Framable.long (framable : u.Framable) : NalUnitHeader.size ≤ u.bytes.length := by
  apply Nat.le_of_not_lt
  intro short
  have decoded := framable.header
  rw [NalUnitHeader.decode, if_pos short] at decoded
  cases decoded

theorem Framable.frame (framable : u.Framable) : frame u.bytes = .ok u.framed := by
  have small : u.bytes.length < 2 ^ 32 := framable.size
  rw [NalUnit.frame, if_neg (Nat.not_lt.mpr framable.long), if_pos small]
  rfl

end NalUnit

namespace NalWalk

variable {start : Nat} {bytes rest : List UInt8} {u : NalUnit} {units : List NalUnit}

theorem startingAt_ok (cutting : NalUnit.split start bytes = .ok (u, rest)) :
    startingAt start bytes =
      { startingAt u.stop rest with units := u :: (startingAt u.stop rest).units } := by
  rw [startingAt]
  split
  · next stopped =>
    rw [cutting] at stopped
    cases stopped
  · next found =>
    rw [cutting] at found
    cases found
    rfl

theorem startingAt_error {fault : Fault} (stopped : NalUnit.split start bytes = .error fault) :
    startingAt start bytes = { units := [], fault, stop := start } := by
  rw [startingAt]
  split
  · next found =>
    rw [stopped] at found
    cases found
    rfl
  · next cutting =>
    rw [stopped] at cutting
    cases cutting

theorem framable_of_mem (member : u ∈ (startingAt start bytes).units) : u.Framable := by
  fun_induction startingAt start bytes with
  | case1 => cases member
  | case2 start bytes v rest cutting shorter walk ih =>
    rcases List.mem_cons.mp member with rfl | later
    · exact NalUnit.split_framable cutting
    · exact ih later

/-- A walk meets what the bytes start with. -/
theorem framed_prefix (start : Nat) (bytes : List UInt8) :
    (startingAt start bytes).units.flatMap NalUnit.framed <+: bytes := by
  fun_induction startingAt start bytes with
  | case1 => exact List.nil_prefix
  | case2 start bytes u rest cutting shorter walk ih =>
    rw [(NalUnit.split_ok cutting).2.2, List.flatMap_cons, List.prefix_append_right_inj]
    exact ih

theorem startingAt_framed (framable : ∀ u ∈ units, u.Framable) (start : Nat) :
    (startingAt start (units.flatMap NalUnit.framed)).stop =
        start + (units.flatMap NalUnit.framed).length ∧
      (startingAt start (units.flatMap NalUnit.framed)).units.map NalUnit.unplaced =
        units.map NalUnit.unplaced := by
  induction units generalizing start with
  | nil =>
    have stopped : NalUnit.split start [] = .error (.lengthMissing 0) := rfl
    rw [List.flatMap_nil, startingAt_error stopped]
    exact ⟨rfl, rfl⟩
  | cons u units ih =>
    obtain ⟨first, others⟩ := List.forall_mem_cons.mp framable
    let placed : NalUnit := { u with start }
    have cutting : NalUnit.split start (u.framed ++ units.flatMap NalUnit.framed) =
        .ok (placed, units.flatMap NalUnit.framed) :=
      NalUnit.split_framed (u := placed) first.header first.size _
    have length : u.framed.length = NalUnit.lengthSize + u.size := by
      rw [NalUnit.framed, List.length_append, BigEndian.encode_length, NalUnit.size]
    obtain ⟨stop, same⟩ := ih others placed.stop
    rw [List.flatMap_cons, startingAt_ok cutting]
    refine ⟨?_, ?_⟩
    · rw [stop, List.length_append, length, NalUnit.stop, NalUnit.offset]
      change start + _ + u.size + _ = _
      omega
    · rw [List.map_cons, List.map_cons, same]
      rfl

theorem map_of_framed {α : Type} {f : NalUnit → α} (framable : ∀ u ∈ units, u.Framable)
    (unplaced : ∀ u, f u.unplaced = f u) :
    (NalWalk.of (units.flatMap NalUnit.framed)).units.map f = units.map f := by
  have composed : f ∘ NalUnit.unplaced = f := funext unplaced
  have same := congrArg (List.map f) (startingAt_framed framable 0).2
  rw [List.map_map, List.map_map, composed] at same
  exact same

theorem stop_of_framed (framable : ∀ u ∈ units, u.Framable) :
    (NalWalk.of (units.flatMap NalUnit.framed)).stop =
      (units.flatMap NalUnit.framed).length :=
  (startingAt_framed framable 0).1.trans (Nat.zero_add _)

end NalWalk

namespace NalUnitHeader

/-- The bytes start with a header whose forbidden bit is zero and whose type code is not. -/
def Leads : List UInt8 → Prop
  | first :: _ :: _ => first.toNat / 2 ^ 7 = 0 ∧ first.toNat / 2 % 2 ^ 6 ≠ 0
  | _ => False

instance : DecidablePred Leads
  | [] => inferInstanceAs (Decidable False)
  | [_] => inferInstanceAs (Decidable False)
  | _ :: _ :: _ => inferInstanceAs (Decidable (_ ∧ _))

theorem exists_decode_iff (bytes : List UInt8) :
    (∃ header, decode bytes = .ok header) ↔ Leads bytes := by
  rcases bytes with - | ⟨first, - | ⟨second, rest⟩⟩
  · constructor
    · rintro ⟨header, decoded⟩
      cases decoded
    · exact False.elim
  · constructor
    · rintro ⟨header, decoded⟩
      cases decoded
    · exact False.elim
  · have low := second.toNat_lt
    have high := first.toNat_lt
    have long : ¬ (first :: second :: rest).length < size := by simp [size]
    have word : BigEndian.decode ((first :: second :: rest).take size) =
        256 * first.toNat + second.toNat := by simp [size, BigEndian.decode]
    unfold decode Leads
    rw [if_neg long]
    dsimp only
    constructor
    · rintro ⟨header, decoded⟩
      split at decoded
      · cases decoded
      · split at decoded
        · cases decoded
        · omega
    · rintro ⟨forbidden, typed⟩
      rw [if_neg (by omega), dif_neg (by omega)]
      exact ⟨_, rfl⟩

end NalUnitHeader

namespace NalUnit

variable {u : NalUnit}

theorem framed_length (u : NalUnit) : u.framed.length = lengthSize + u.size := by
  rw [framed, List.length_append, BigEndian.encode_length, size]

theorem stop_eq (u : NalUnit) : u.stop = u.start + u.framed.length := by
  rw [framed_length, stop, offset, Nat.add_assoc]

theorem exists_framable {bytes : List UInt8} (leads : NalUnitHeader.Leads bytes)
    (small : bytes.length < 2 ^ 32) (start : Nat) :
    ∃ u : NalUnit, u.bytes = bytes ∧ u.start = start ∧ u.Framable := by
  obtain ⟨header, decoded⟩ := (NalUnitHeader.exists_decode_iff bytes).mpr leads
  exact ⟨{ header, bytes, start }, rfl, rfl, decoded, small⟩

theorem exists_framable_list {contents : List (List UInt8)}
    (valid : ∀ bytes ∈ contents, NalUnitHeader.Leads bytes ∧ bytes.length < 2 ^ 32) :
    ∃ units : List NalUnit, units.map NalUnit.bytes = contents ∧ ∀ u ∈ units, u.Framable := by
  induction contents with
  | nil => exact ⟨[], rfl, fun _ absent => (nomatch absent)⟩
  | cons bytes others ih =>
    obtain ⟨⟨leads, small⟩, later⟩ := List.forall_mem_cons.mp valid
    obtain ⟨u, same, -, framable⟩ := exists_framable leads small 0
    obtain ⟨units, map, every⟩ := ih later
    refine ⟨u :: units, ?_, List.forall_mem_cons.mpr ⟨framable, every⟩⟩
    rw [List.map_cons, same, map]

theorem mapM_frame {units : List NalUnit} (framable : ∀ u ∈ units, u.Framable) :
    (units.map NalUnit.bytes).mapM frame = .ok (units.map NalUnit.framed) := by
  induction units with
  | nil => rfl
  | cons u units ih =>
    obtain ⟨first, others⟩ := List.forall_mem_cons.mp framable
    rw [List.map_cons, List.mapM_cons, first.frame, ih others]
    rfl

theorem not_frame_append_of_split_error {start : Nat} {bytes unit framed rest : List UInt8}
    {fault : Fault} (stopped : split start bytes = .error fault)
    (leads : NalUnitHeader.Leads unit) (framing : frame unit = .ok framed) :
    bytes ≠ framed ++ rest := by
  rintro rfl
  have small : unit.length < 2 ^ 32 := by
    unfold frame at framing
    split at framing
    · cases framing
    · split at framing
      · next small => exact small
      · cases framing
  obtain ⟨u, rfl, rfl, framable⟩ := exists_framable leads small start
  rw [framable.frame] at framing
  cases framing
  rw [split_framed framable.header framable.size rest] at stopped
  cases stopped

end NalUnit

namespace NalWalk

variable {start : Nat} {bytes : List UInt8} {u : NalUnit}

theorem start_of_getElem? (start : Nat) (bytes : List UInt8) :
    ∀ i u, (startingAt start bytes).units[i]? = some u →
      u.start =
        start + (((startingAt start bytes).units.take i).flatMap NalUnit.framed).length := by
  fun_induction startingAt start bytes with
  | case1 =>
    intro i u found
    cases found
  | case2 start bytes v rest cutting shorter walk ih =>
    intro i u found
    have first := NalUnit.split_start cutting
    cases i with
    | zero =>
      cases found
      exact first
    | succ i =>
      have place := NalUnit.stop_eq v
      have behind : u.start = v.stop + ((walk.units.take i).flatMap NalUnit.framed).length :=
        ih i u found
      simp only [List.take_succ_cons, List.flatMap_cons, List.length_append]
      omega

theorem stop_eq (start : Nat) (bytes : List UInt8) :
    (startingAt start bytes).stop =
      start + ((startingAt start bytes).units.flatMap NalUnit.framed).length := by
  fun_induction startingAt start bytes with
  | case1 => rfl
  | case2 start bytes u rest cutting shorter walk ih =>
    have first := NalUnit.split_start cutting
    have place := NalUnit.stop_eq u
    have later : walk.stop = u.stop + (walk.units.flatMap NalUnit.framed).length := ih
    rw [List.flatMap_cons, List.length_append]
    change walk.stop = _
    omega

theorem split_stop (start : Nat) (bytes : List UInt8) :
    NalUnit.split (startingAt start bytes).stop
        (bytes.drop ((startingAt start bytes).units.flatMap NalUnit.framed).length) =
      .error (startingAt start bytes).fault := by
  fun_induction startingAt start bytes with
  | case1 start bytes fault stopped => exact stopped
  | case2 start bytes u rest cutting shorter walk ih =>
    have whole := (NalUnit.split_ok cutting).2.2
    change NalUnit.split walk.stop _ = .error walk.fault
    rw [List.flatMap_cons, List.length_append, ← List.drop_drop, whole, List.drop_left]
    exact ih

theorem split_at_of_mem (member : u ∈ (startingAt start bytes).units) :
    ∃ before behind, bytes = before ++ (u.framed ++ behind) ∧ u.start = start + before.length := by
  fun_induction startingAt start bytes with
  | case1 => cases member
  | case2 start bytes v rest cutting shorter walk ih =>
    have whole := (NalUnit.split_ok cutting).2.2
    have first := NalUnit.split_start cutting
    rcases List.mem_cons.mp member with rfl | later
    · exact ⟨[], rest, whole, first⟩
    · obtain ⟨before, behind, same, place⟩ := ih later
      refine ⟨v.framed ++ before, behind, ?_, ?_⟩
      · rw [whole, same, List.append_assoc]
      · rw [place, NalUnit.stop_eq, first, List.length_append, Nat.add_assoc]

end NalWalk

namespace NalUnit

/-- Units of at least two and less than `2 ^ 32` bytes with a valid header are framed and found
again, byte by byte and place by place. A walk over any data from any position passes consecutive
pieces of the data, each the code of its unit, and stops where the next unit is not complete or not
well formed. -/
theorem framing_exact :
    (∀ contents : List (List UInt8),
      (∀ bytes ∈ contents, 2 ≤ bytes.length ∧ bytes.length < 2 ^ 32 ∧
        NalUnitHeader.Leads bytes) →
      ∃ pieces, contents.mapM frame = .ok pieces ∧
        let walk := NalWalk.of pieces.flatten
        walk.units.map NalUnit.bytes = contents ∧
        walk.units.map NalUnit.framed = pieces ∧
        (∀ i u, walk.units[i]? = some u →
          u.start = (pieces.take i).flatten.length ∧ u.offset = u.start + 4 ∧
            u.size = u.bytes.length) ∧
        walk.stop = pieces.flatten.length) ∧
    ∀ (data : List UInt8) (position : Nat),
      let walk := NalWalk.startingAt position (data.drop position)
      (∀ i u, walk.units[i]? = some u →
        u.start = position + ((walk.units.take i).flatMap NalUnit.framed).length) ∧
      walk.units.flatMap NalUnit.framed = data.extract position walk.stop ∧
      (∀ u ∈ walk.units, data.extract u.start u.stop = u.framed ∧
        data.extract u.offset u.stop = u.bytes ∧ frame u.bytes = .ok u.framed) ∧
      split walk.stop (data.drop walk.stop) = .error walk.fault ∧
      ∀ unit piece rest, NalUnitHeader.Leads unit → frame unit = .ok piece →
        data.drop walk.stop ≠ piece ++ rest := by
  constructor
  · intro contents valid
    obtain ⟨units, rfl, framable⟩ := exists_framable_list fun bytes member =>
      ⟨(valid bytes member).2.2, (valid bytes member).2.1⟩
    refine ⟨units.map framed, mapM_frame framable, ?_⟩
    have found := NalWalk.map_of_framed (f := NalUnit.framed) framable fun _ => rfl
    rw [← List.flatMap_def]
    refine ⟨NalWalk.map_of_framed framable fun _ => rfl, found, ?_, NalWalk.stop_of_framed framable⟩
    intro i u here
    refine ⟨?_, rfl, rfl⟩
    rw [NalWalk.start_of_getElem? 0 _ i u here, Nat.zero_add, List.flatMap_def, List.map_take]
    change (((NalWalk.of _).units.map framed).take i).flatten.length = _
    rw [found]
  · intro data position
    have stop := NalWalk.stop_eq position (data.drop position)
    have behind : data.drop (NalWalk.startingAt position (data.drop position)).stop =
        (data.drop position).drop
          ((NalWalk.startingAt position (data.drop position)).units.flatMap framed).length := by
      rw [stop, List.drop_drop]
    have stopped : split (NalWalk.startingAt position (data.drop position)).stop
        (data.drop (NalWalk.startingAt position (data.drop position)).stop) =
          .error (NalWalk.startingAt position (data.drop position)).fault := by
      rw [behind]
      exact NalWalk.split_stop position (data.drop position)
    refine ⟨NalWalk.start_of_getElem? position (data.drop position), ?_, ?_, stopped, ?_⟩
    · rw [List.extract_eq_take_drop, stop, Nat.add_sub_cancel_left]
      exact (List.prefix_iff_eq_take.mp (NalWalk.framed_prefix position (data.drop position)))
    · intro u member
      have long := framed_length u
      obtain ⟨before, behind, same, place⟩ := NalWalk.split_at_of_mem member
      have here : data.drop u.start = u.framed ++ behind := by
        rw [place, ← List.drop_drop, same, List.drop_left]
      have inner : data.drop u.offset = u.bytes ++ behind := by
        rw [offset, ← List.drop_drop, here, framed, List.append_assoc,
          List.drop_left' (BigEndian.encode_length _ _)]
      refine ⟨?_, ?_, (NalWalk.framable_of_mem member).frame⟩
      · rw [List.extract_eq_take_drop, here, stop_eq, Nat.add_sub_cancel_left, List.take_left]
      · rw [List.extract_eq_take_drop, inner, NalUnit.stop, Nat.add_sub_cancel_left, size,
          List.take_left]
    · intro unit piece rest leads framing
      exact not_frame_append_of_split_error stopped leads framing

/-- Two units, and the same bytes with a third one behind them that is cut short. -/
theorem framing_exact_two_units :
    let contents : List (List UInt8) := [[50, 0, 170], [4, 0, 187, 204]]
    let pieces : List (List UInt8) := [[0, 0, 0, 3, 50, 0, 170], [0, 0, 0, 4, 4, 0, 187, 204]]
    let data := pieces.flatten ++ [0, 0, 0, 3, 4, 0]
    let walk := NalWalk.startingAt 7 (data.drop 7)
    (∀ bytes ∈ contents, 2 ≤ bytes.length ∧ bytes.length < 2 ^ 32 ∧ NalUnitHeader.Leads bytes) ∧
    contents.mapM frame = .ok pieces ∧
    (NalWalk.of pieces.flatten).units.map NalUnit.bytes = contents ∧
    (NalWalk.of pieces.flatten).stop = 15 ∧
    walk.units.flatMap NalUnit.framed = data.extract 7 walk.stop ∧
    ∀ unit piece rest, NalUnitHeader.Leads unit → frame unit = .ok piece →
      data.drop walk.stop ≠ piece ++ rest := by
  intro contents pieces data walk
  have valid : ∀ bytes ∈ contents, 2 ≤ bytes.length ∧ bytes.length < 2 ^ 32 ∧
      NalUnitHeader.Leads bytes := by decide
  obtain ⟨found, framed, same, -, -, stop⟩ := framing_exact.1 contents valid
  have known : contents.mapM frame = .ok pieces := rfl
  rw [known] at framed
  cases framed
  obtain ⟨-, segment, -, -, incomplete⟩ := framing_exact.2 data 7
  exact ⟨valid, known, same, stop, segment, incomplete⟩

end NalUnit
end EvcStream
