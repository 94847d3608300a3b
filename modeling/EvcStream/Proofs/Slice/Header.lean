import EvcStream.Proofs.Store.Reachable
import Mathlib.Tactic.MkIffOfInductiveProp
/-!
# Round trip of slice headers

Which fields of a slice header are coded is decided by the kind of slice, the tiles of the picture
parameter set and the tools of the sequence parameter set. A header is well formed under these if
its coded fields are in range and all others are at their defaults. A well-formed header is
composed into one unit, and a store with these parameter sets reads the same header from it. Every
header that is decoded is well formed under the parameter sets it refers to, and its code is what
was read.
-/
namespace EvcStream

open Decoder (Exact ExactBehind)
open ExpGolomb (Codable)

theorem SliceType.roundTrip (type : SliceType) :
    RoundTrip RoundTrip.codeWordSize decode (Coded.ue type.code) type := by
  have bounded : type.code ≤ 2 := by cases type <;> decide
  refine .bind_empty (.ueMax bounded) ?_
  cases type <;> exact .pure _

theorem SliceType.decode_exact : Exact decode (fun type => Coded.ue type.code) fun _ => True := by
  refine .bind (.ueMax 2) fun code bounded => ?_
  match code, bounded with
  | 0, _ => exact .done rfl trivial
  | 1, _ => exact .done rfl trivial
  | 2, _ => exact .done rfl trivial

def TileSpan.WellFormed (pps : PictureParameterSet) : TileSpan → Prop
  | .single => True
  | .through last => last < 2 ^ pps.tileIdLength
  | .chosen remainingMinus1 stepsMinus1 =>
    pps.arbitrarySlices = true ∧ remainingMinus1 ≤ TileGrid.maxRows * TileGrid.maxColumns - 1 ∧
      stepsMinus1.length = remainingMinus1 + 1 ∧ ∀ step ∈ stepsMinus1, Codable step

instance TileSpan.decidableWellFormed (pps : PictureParameterSet) (span : TileSpan) :
    Decidable (span.WellFormed pps) :=
  match span with
  | .single => inferInstanceAs (Decidable True)
  | .through last => inferInstanceAs (Decidable (last < 2 ^ pps.tileIdLength))
  | .chosen _ _ => inferInstanceAs (Decidable (_ ∧ _))

theorem TileSpan.roundTrip {pps : PictureParameterSet} {span : TileSpan}
    (narrow : pps.tileIdLength ≤ 32) (valid : span.WellFormed pps) :
    RoundTrip 27784 (if span.isSingle then pure .single else decode pps) (span.encode pps)
      span := by
  cases span with
  | single => exact (RoundTrip.pure _).mono (by decide)
  | through last =>
    have chosen : RoundTrip 1 (if pps.arbitrarySlices then Decoder.flag else pure false)
        (if pps.arbitrarySlices then Coded.flag false else Coded.empty) false :=
      .guarded (fun _ => .flag false) (fun _ => rfl)
    exact RoundTrip.mono (by omega) <| .bind_ite chosen <| .last (.u valid narrow)
  | chosen remainingMinus1 stepsMinus1 =>
    obtain ⟨arbitrary, few, counted, codable⟩ := valid
    change RoundTrip _ (decode pps) _ _
    exact RoundTrip.mono (by decide) <|
      .require arbitrary <|
      .of_pos arbitrary <|
      .bind (.flag true) <|
      .require counted <|
      .bind (.ueMax few) <|
      .last (.times counted (Nat.succ_le_succ few) fun step member => .ue (codable step member))

theorem TileSpan.decode_exact (pps : PictureParameterSet) :
    Exact (decode pps) (encode pps) fun span => span.WellFormed pps ∧ span.isSingle = false := by
  refine .bind_ite (.guarded .flag) fun chosen ⟨_, fixed⟩ => ?_
  refine .ite (fun some => ?_) (fun none => ?_)
  · have arbitrary : pps.arbitrarySlices = true := by
      apply Decidable.byContradiction
      intro never
      rw [fixed never] at some
      cases some
    refine .bind (.ueMax _) fun remainingMinus1 few => ?_
    refine .bind (.times (remainingMinus1 + 1) .ue) fun _ ⟨counted, codable⟩ => ?_
    refine .done ?_ ⟨⟨arbitrary, few, counted, codable⟩, rfl⟩
    rw [encode, Coded.require, Coded.require, if_pos arbitrary, if_pos counted, if_pos arbitrary,
      some, Coded.append_assoc]
  · refine .bind (.u _) fun _ last => ?_
    refine .done ?_ ⟨last, rfl⟩
    rw [encode, eq_false_of_ne_true none]

namespace SliceLoopFilter

/-- Fields out of use are at their defaults. Only in the full chroma format are the chroma
components filtered without luma, and each with a parameter set of its own. -/
@[mk_iff]
structure WellFormed (chromaFormatIdc : Nat) (f : SliceLoopFilter) : Prop where
  lumaApsId : f.lumaApsId < 2 ^ 5
  chromaIdc : f.chromaIdc < 2 ^ 2
  chromaApsId : f.chromaApsId < 2 ^ 5
  chroma2ApsId : f.chroma2ApsId < 2 ^ 5
  noLuma : f.enabled = false → f.lumaApsId = 0 ∧ f.lumaMap = false
  noChroma : chromaFormatIdc ≠ 3 → f.enabled = false → f.chromaIdc = 0
  noShared : chromaFormatIdc ≠ 3 → ¬ (f.enabled = true ∧
    (chromaFormatIdc = 1 ∨ chromaFormatIdc = 2) ∧ 0 < f.chromaIdc) → f.chromaApsId = 0
  noMaps : chromaFormatIdc ≠ 3 →
    f.chromaMap = false ∧ f.chroma2ApsId = 0 ∧ f.chroma2Map = false
  noFirst : chromaFormatIdc = 3 → f.chromaEnabled.1 = false →
    f.chromaApsId = 0 ∧ f.chromaMap = false
  noSecond : chromaFormatIdc = 3 → f.chromaEnabled.2 = false →
    f.chroma2ApsId = 0 ∧ f.chroma2Map = false

instance decidableWellFormed (chromaFormatIdc : Nat) (f : SliceLoopFilter) :
    Decidable (f.WellFormed chromaFormatIdc) :=
  decidable_of_iff' _ (wellFormed_iff chromaFormatIdc f)

/-- What is coded together with luma filtering. -/
def lumaPart (chromaFormatIdc : Nat) (f : SliceLoopFilter) : SliceLoopFilter :=
  { enabled := f.enabled, lumaApsId := f.lumaApsId, lumaMap := f.lumaMap
    chromaIdc := if f.enabled then f.chromaIdc else 0
    chromaApsId := if chromaFormatIdc = 3 then 0 else f.chromaApsId }

variable {chromaFormatIdc : Nat} {f : SliceLoopFilter}

theorem lumaPart_off (valid : f.WellFormed chromaFormatIdc) (off : ¬ f.enabled = true) :
    f.lumaPart chromaFormatIdc = {} := by
  have off := eq_false_of_ne_true off
  have unshared : ¬ chromaFormatIdc = 3 → f.chromaApsId = 0 := by
    intro full
    refine valid.noShared full ?_
    rintro ⟨on, -⟩
    rw [off] at on
    cases on
  obtain ⟨lumaApsId, lumaMap⟩ := valid.noLuma off
  simpa [lumaPart, off, lumaApsId, lumaMap] using unshared

theorem luma_roundTrip (valid : f.WellFormed chromaFormatIdc) :
    RoundTrip 14 (decodeLuma chromaFormatIdc) (f.encodeLuma chromaFormatIdc)
      (f.lumaPart chromaFormatIdc) := by
  -- Only the subsampled formats code a chroma parameter set here; the full format does it later.
  have shared : RoundTrip 5
      (if (chromaFormatIdc = 1 ∨ chromaFormatIdc = 2) ∧ 0 < f.chromaIdc then Decoder.u 5
        else pure 0)
      (if (chromaFormatIdc = 1 ∨ chromaFormatIdc = 2) ∧ 0 < f.chromaIdc then
        Coded.u 5 f.chromaApsId else Coded.empty) (f.lumaPart chromaFormatIdc).chromaApsId := by
    refine .guarded (fun coded => .of_eq (.u valid.chromaApsId) ?_) fun uncoded => ?_
    · exact (if_neg (by omega)).symm
    · by_cases full : chromaFormatIdc = 3
      · exact if_pos full
      · exact (if_neg full).trans (valid.noShared full fun coded => uncoded coded.2)
  have whole (on : f.enabled = true) : f.lumaPart chromaFormatIdc =
      { enabled := true, lumaApsId := f.lumaApsId, lumaMap := f.lumaMap, chromaIdc := f.chromaIdc
        chromaApsId := (f.lumaPart chromaFormatIdc).chromaApsId } := by
    simp only [lumaPart, on, if_true]
  unfold decodeLuma encodeLuma
  simp only [Coded.append_assoc]
  exact RoundTrip.mono (by decide) <| .bind (.flag f.enabled) <| .guarded
    (fun on => .bind (.u valid.lumaApsId) <| .bind (.flag f.lumaMap) <|
      .bind (.u valid.chromaIdc) <| .of_eq shared.last_ite (whole on).symm)
    (lumaPart_off valid)

theorem decodeLuma_exact (chromaFormatIdc : Nat) :
    Exact (decodeLuma chromaFormatIdc) (encodeLuma chromaFormatIdc)
      (WellFormed chromaFormatIdc) := by
  refine .bind .flag fun enabled _ => ?_
  refine .ite (fun on => ?_) (fun off => ?_)
  · refine .bind (.u 5) fun _ lumaApsId => ?_
    refine .bind .flag fun _ _ => ?_
    refine .bind (.u 2) fun _ chromaIdc => ?_
    refine .ite (fun shared => ?_) (fun unshared => ?_)
    · refine .bind (.u 5) fun _ chromaApsId => ?_
      refine .done ?_ ?_
      · simp only [encodeLuma, if_true, if_pos shared, on, Coded.append_assoc]
      · exact
          { lumaApsId, chromaIdc, chromaApsId
            chroma2ApsId := Nat.two_pow_pos 5
            noLuma := fun off => nomatch off
            noChroma := fun _ off => nomatch off
            noShared := fun _ without => absurd ⟨rfl, shared⟩ without
            noMaps := fun _ => ⟨rfl, rfl, rfl⟩
            noFirst := fun full => by omega
            noSecond := fun _ _ => ⟨rfl, rfl⟩ }
    · refine .done ?_ ?_
      · simp only [encodeLuma, if_true, if_neg unshared, on, Coded.append_assoc, Coded.append_empty]
      · exact
          { lumaApsId, chromaIdc
            chromaApsId := Nat.two_pow_pos 5
            chroma2ApsId := Nat.two_pow_pos 5
            noLuma := fun off => nomatch off
            noChroma := fun _ off => nomatch off
            noShared := fun _ _ => rfl
            noMaps := fun _ => ⟨rfl, rfl, rfl⟩
            noFirst := fun _ _ => ⟨rfl, rfl⟩
            noSecond := fun _ _ => ⟨rfl, rfl⟩ }
  · refine .done ?_ ?_
    · rw [eq_false_of_ne_true off]
      exact Coded.append_empty _
    · constructor <;> first | decide | simp

theorem chroma_roundTrip {enabled map : Bool} {apsId : Nat} (bounded : apsId < 2 ^ 5)
    (unused : enabled = false → apsId = 0 ∧ map = false) :
    RoundTrip 6 (decodeChroma enabled) (encodeChroma enabled apsId map) (apsId, map) := by
  refine RoundTrip.mono (by decide) <| .guarded
    (fun _ => .bind (.u bounded) <| .last (.flag map)) fun off => ?_
  obtain ⟨rfl, rfl⟩ := unused (eq_false_of_ne_true off)
  rfl

theorem decodeChroma_exact (enabled : Bool) :
    Exact (decodeChroma enabled) (fun set => encodeChroma enabled set.1 set.2)
      fun set => set.1 < 2 ^ 5 ∧ (enabled = false → set.1 = 0 ∧ set.2 = false) := by
  cases enabled with
  | true =>
    refine .bind (.u 5) fun _ apsId => ?_
    refine .bind .flag fun _ _ => ?_
    exact .done rfl ⟨apsId, fun off => nomatch off⟩
  | false => exact .of_behind (.done rfl ⟨by decide, fun _ => ⟨rfl, rfl⟩⟩)

theorem lumaPart_eq (valid : f.WellFormed chromaFormatIdc) (full : ¬ chromaFormatIdc = 3) :
    f.lumaPart chromaFormatIdc = f := by
  have chromaIdc : (if f.enabled then f.chromaIdc else 0) = f.chromaIdc := by
    by_cases on : f.enabled = true
    · exact if_pos on
    · exact (if_neg on).trans (valid.noChroma full (eq_false_of_ne_true on)).symm
  rw [lumaPart, if_neg full, chromaIdc]
  obtain ⟨enabled, lumaApsId, lumaMap, chromaIdc, chromaApsId, _, _, _⟩ := f
  obtain ⟨rfl, rfl, rfl⟩ := valid.noMaps full
  rfl

theorem roundTrip (valid : f.WellFormed chromaFormatIdc) :
    RoundTrip 28 (decode chromaFormatIdc) (f.encode chromaFormatIdc) f := by
  unfold decode encode
  by_cases full : chromaFormatIdc = 3
  · have chromaIdc : RoundTrip 2
        (if (f.lumaPart chromaFormatIdc).enabled then pure (f.lumaPart chromaFormatIdc).chromaIdc
          else Decoder.u 2)
        (if f.enabled then Coded.empty else Coded.u 2 f.chromaIdc) f.chromaIdc :=
      .ite (fun on => .of_eq (.pure _) (if_pos on)) (fun _ => .u valid.chromaIdc)
    simp only [if_pos full, Coded.append_assoc]
    exact RoundTrip.mono (by decide) <|
      .bind (luma_roundTrip valid) <|
      .bind_ite chromaIdc <|
      .bind (chroma_roundTrip valid.chromaApsId (valid.noFirst full)) <|
      .last (chroma_roundTrip valid.chroma2ApsId (valid.noSecond full))
  · simp only [if_neg full, Coded.append_empty]
    have luma := (luma_roundTrip valid).last (f := id)
    rw [id, lumaPart_eq valid full] at luma
    exact luma.mono (by decide)

theorem decode_exact (chromaFormatIdc : Nat) :
    Exact (decode chromaFormatIdc) (encode chromaFormatIdc) (WellFormed chromaFormatIdc) := by
  refine .bind (decodeLuma_exact chromaFormatIdc) fun filter luma => ?_
  refine .ite (fun full => ?_) (fun subsampled => ?_)
  · subst full
    refine .bind_ite (.ite (fun _ => .pure _) (fun _ => .u 2)) fun chromaIdc ⟨same, own⟩ => ?_
    refine .bind (decodeChroma_exact _) fun ⟨apsId, map⟩ ⟨first, noFirst⟩ => ?_
    refine .bind (decodeChroma_exact _) fun ⟨aps2Id, map2⟩ ⟨second, noSecond⟩ => ?_
    refine .done ?_ ?_
    · -- With luma filtering the chroma mode has been coded there; without it luma codes nothing.
      have lumaPart : encodeLuma 3 { filter with
            chromaIdc, chromaApsId := apsId, chromaMap := map, chroma2ApsId := aps2Id,
            chroma2Map := map2 } = encodeLuma 3 filter := by
        by_cases on : filter.enabled = true
        · rw [encodeLuma, encodeLuma, same on]
          rfl
        · simp only [encodeLuma, if_neg on]
      rw [encode, lumaPart, if_pos rfl]
      simp only [Coded.append_assoc]
      rfl
    · have chromaIdc : chromaIdc < 2 ^ 2 := by
        by_cases on : filter.enabled = true
        · rw [same on]
          exact luma.chromaIdc
        · exact own on
      exact
        { lumaApsId := luma.lumaApsId
          chromaIdc
          chromaApsId := first
          chroma2ApsId := second
          noLuma := luma.noLuma
          noChroma := fun other => absurd rfl other
          noShared := fun other => absurd rfl other
          noMaps := fun other => absurd rfl other
          noFirst := fun _ => noFirst
          noSecond := fun _ => noSecond }
  · refine .done ?_ luma
    rw [encode, if_neg subsampled, Coded.append_empty]

end SliceLoopFilter

namespace SliceHeader

section
variable (isIdr : Bool) (pps : PictureParameterSet) (sps : SequenceParameterSet)

@[mk_iff]
structure WellFormed (h : SliceHeader) : Prop where
  ppsId : h.ppsId ≤ PictureParameterSet.maxId
  singleTile : pps.isSingleTile = true → h.span = .single ∧ h.firstTileId = 0
  firstTileId : h.firstTileId < 2 ^ pps.tileIdLength
  span : h.span.WellFormed pps
  noOutput : isIdr = false → h.noOutputOfPriorPictures = false
  noMergeDifference : (sps.motion.mergeDifference && h.type.isInter) = false →
    h.mergeDifferenceGroups = false
  loopFilter : sps.loop.adaptiveLoopFilter = true →
    h.loopFilter.WellFormed sps.format.chromaFormatIdc
  noLoopFilter : sps.loop.adaptiveLoopFilter = false → h.loopFilter = {}
  orderLsb : (!isIdr && sps.countsInSlices) = true → h.orderLsb < 2 ^ sps.orderLsbWidth
  noOrder : (!isIdr && sps.countsInSlices) = false → h.orderLsb = 0

instance decidableWellFormed (h : SliceHeader) : Decidable (h.WellFormed isIdr pps sps) :=
  decidable_of_iff' _ (wellFormed_iff isIdr pps sps h)

end

variable {isIdr : Bool} {pps : PictureParameterSet} {sps : SequenceParameterSet} {h : SliceHeader}

/-- The tiles are coded together, so that what is behind them follows from the first one and the
span. -/
theorem tiles_bind {β : Type} {n : Nat} {coded : Coded} {value : β}
    {next : Nat → TileSpan → Decoder β} (valid : h.WellFormed isIdr pps sps)
    (narrow : pps.tileIdLength ≤ 32)
    (behind : RoundTrip n (next h.firstTileId h.span) coded value) :
    RoundTrip (27817 + n)
      (do
        let single ← if pps.isSingleTile then pure true else Decoder.flag
        let firstTileId ← if pps.isSingleTile then pure 0 else Decoder.u pps.tileIdLength
        let span ← if single then pure .single else TileSpan.decode pps
        next firstTileId span)
      ((if pps.isSingleTile then Coded.require (h.span.isSingle = true) Coded.empty
          else Coded.flag h.span.isSingle ++ Coded.u pps.tileIdLength h.firstTileId)
        ++ (h.span.encode pps ++ coded)) value := by
  by_cases whole : pps.isSingleTile = true
  · -- Nothing is coded: every slice of the picture is its one tile.
    obtain ⟨single, first⟩ := valid.singleTile whole
    rw [single, first] at behind ⊢
    simp only [if_pos whole]
    change RoundTrip _ (next 0 .single) (Coded.empty ++ (Coded.empty ++ coded)) value
    rw [Coded.empty_append, Coded.empty_append]
    exact behind.mono (Nat.le_add_left n 27817)
  · simp only [if_neg whole, Coded.append_assoc]
    refine RoundTrip.mono ?_ <| .bind (.flag h.span.isSingle) <|
      .bind (.u valid.firstTileId narrow) <| .bind_ite (TileSpan.roundTrip narrow valid.span) behind
    omega

theorem span_exact (pps : PictureParameterSet) (single : Bool) :
    Exact (if single then pure .single else TileSpan.decode pps) (TileSpan.encode pps)
      fun span => span.WellFormed pps ∧ span.isSingle = single := by
  cases single with
  | true => exact .of_behind (.done rfl ⟨trivial, rfl⟩)
  | false => exact TileSpan.decode_exact pps

theorem tiles_exact {β : Type} {front : Coded} {next : Nat → TileSpan → Decoder β}
    {code : β → Coded} {valid : β → Prop}
    (behind : ∀ firstTileId span, (pps.isSingleTile = true → span = .single ∧ firstTileId = 0) →
      firstTileId < 2 ^ pps.tileIdLength → span.WellFormed pps →
      ExactBehind (front
          ++ (if pps.isSingleTile then Coded.require (span.isSingle = true) Coded.empty
            else Coded.flag span.isSingle ++ Coded.u pps.tileIdLength firstTileId)
          ++ span.encode pps) (next firstTileId span) code valid) :
    ExactBehind front
      (do
        let single ← if pps.isSingleTile then pure true else Decoder.flag
        let firstTileId ← if pps.isSingleTile then pure 0 else Decoder.u pps.tileIdLength
        let span ← if single then pure .single else TileSpan.decode pps
        next firstTileId span) code valid := by
  by_cases whole : pps.isSingleTile = true
  · have alone := behind 0 .single (fun _ => ⟨rfl, rfl⟩) (Nat.two_pow_pos _) trivial
    simp only [if_pos whole] at alone ⊢
    change ExactBehind (front ++ Coded.empty ++ Coded.empty) _ _ _ at alone
    rw [Coded.append_empty, Coded.append_empty] at alone
    exact alone
  · simp only [if_neg whole] at behind ⊢
    refine .bind .flag fun single _ => ?_
    refine .bind (.u _) fun firstTileId bounded => ?_
    refine .bind_ite (span_exact pps single) fun span read => ?_
    obtain ⟨fits, rfl⟩ := read
    rw [Coded.append_assoc front]
    exact behind firstTileId span (fun other => absurd other whole) bounded fits

theorem roundTrip {find : Nat → Except Fault (PictureParameterSet × SequenceParameterSet)}
    (valid : h.WellFormed isIdr pps sps) (narrow : pps.tileIdLength ≤ 32)
    (short : sps.orderLsbWidth ≤ 16) (found : find h.ppsId = .ok (pps, sps)) :
    RoundTrip 28004 (decode isIdr find) (h.encode isIdr pps sps) h := by
  have orderLsb : RoundTrip 16
      (if !isIdr && sps.countsInSlices then Decoder.u sps.orderLsbWidth else pure 0)
      (if !isIdr && sps.countsInSlices then Coded.u sps.orderLsbWidth h.orderLsb
        else Coded.empty) h.orderLsb :=
    .guarded (fun counts => (RoundTrip.u (valid.orderLsb counts) (by omega)).mono short)
      fun uncounted => valid.noOrder (eq_false_of_ne_true uncounted)
  unfold decode encode
  simp only [Coded.append_assoc]
  refine RoundTrip.mono (m := RoundTrip.codeWordSize + 27941) (by decide) <|
    .bind (.ueMax valid.ppsId) ?_
  rw [found]
  exact RoundTrip.mono (by decide) <|
    tiles_bind valid narrow <|
    .bind (SliceType.roundTrip h.type) <|
    .bind_ite (.guarded (fun _ => .flag h.noOutputOfPriorPictures)
      fun other => valid.noOutput (eq_false_of_ne_true other)) <|
    .bind_ite (.guarded (fun _ => .flag h.mergeDifferenceGroups)
      fun off => valid.noMergeDifference (eq_false_of_ne_true off)) <|
    .bind_ite (.guarded (fun on => SliceLoopFilter.roundTrip (valid.loopFilter on))
      fun off => valid.noLoopFilter (eq_false_of_ne_true off)) <|
    orderLsb.last_ite

theorem decodeWith_exact {ppsId : Nat} (known : ppsId ≤ PictureParameterSet.maxId) :
    ExactBehind (Coded.ue ppsId) (decodeWith isIdr ppsId pps sps) (encode isIdr pps sps)
      fun h => h.WellFormed isIdr pps sps ∧ h.ppsId = ppsId := by
  refine tiles_exact fun firstTileId span whole bounded fits => ?_
  refine .bind SliceType.decode_exact fun type _ => ?_
  refine .bind_ite (.guarded .flag) fun _ ⟨_, noOutput⟩ => ?_
  refine .bind_ite (.guarded .flag) fun _ ⟨_, noMergeDifference⟩ => ?_
  refine .bind_ite (.guarded (SliceLoopFilter.decode_exact _))
    fun _ ⟨loopFilter, noLoopFilter⟩ => ?_
  refine .bind_ite (.guarded (.u _)) fun _ ⟨orderLsb, noOrder⟩ => ?_
  refine .done rfl ⟨?_, rfl⟩
  exact
    { ppsId := known
      singleTile := whole
      firstTileId := bounded
      span := fits
      noOutput := fun other => noOutput (ne_true_of_eq_false other)
      noMergeDifference := fun off => noMergeDifference (ne_true_of_eq_false off)
      loopFilter
      noLoopFilter := fun off => noLoopFilter (ne_true_of_eq_false off)
      orderLsb
      noOrder := fun uncounted => noOrder (ne_true_of_eq_false uncounted) }

/-- A header is coded by the bits that were read under the parameter sets it was read with. -/
theorem decode_ok {find : Nat → Except Fault (PictureParameterSet × SequenceParameterSet)}
    {r s : BitReader} {h : SliceHeader} (delivered : decode isIdr find r = .ok h s) :
    ∃ pps sps, find h.ppsId = .ok (pps, sps) ∧ h.WellFormed isIdr pps sps ∧
      ∃ bits, h.encode isIdr pps sps = .ok bits ∧ Consumes r s bits := by
  obtain ⟨ppsId, t, read, later⟩ := bind_run_ok delivered
  obtain ⟨known, front, coded, before⟩ := Exact.ueMax _ _ _ _ read
  cases found : find ppsId with
  | error fault =>
    rw [found] at later
    cases later
  | ok sets =>
    obtain ⟨pps, sps⟩ := sets
    rw [found] at later
    obtain ⟨⟨valid, rfl⟩, bits, complete, behind⟩ := decodeWith_exact known _ _ _ later
    refine ⟨pps, sps, found, valid, front ++ bits, ?_, before.trans behind⟩
    rw [complete, coded]
    rfl

/-- Composing a well-formed header succeeds, and adding the unit to a store with the parameter sets
it was composed under gives the header back. -/
theorem addSlice_compose {type : NalUnitType} {store : ParameterStore}
    (reachable : store.Reachable) (slice : type.isSlice = true)
    (picture : store.pictures.find? h.ppsId = some pps)
    (sequence : store.sequences.find? pps.spsId = some sps)
    (valid : h.WellFormed (type = .idr) pps sps) (temporalId : Nat) :
    ∃ bytes u, h.compose type temporalId pps sps = .ok bytes ∧ NalUnit.ofFramed bytes = .ok u ∧
      u.header = NalUnitHeader.plain type temporalId ∧
      store.addSlice u = .ok (h, { store with slices := store.slices.insert h.ppsId h }) := by
  have found : store.resolve h.ppsId = .ok (pps, sps) := by
    rw [ParameterStore.resolve, picture]
    simp only [sequence]
  have narrow := reachable.bounded.tileIdLength h.ppsId pps picture
  have short := (reachable.bounded.sequences pps.spsId sps sequence).orderLsbWidth
  obtain ⟨bytes, u, composed, framed, header, read⟩ :=
    NalUnit.compose_roundTrip type temporalId (roundTrip valid narrow short found) (by decide)
  have sameKind : u.header.type = type := by
    rw [header]
    rfl
  have expected : u.header.type ∈ [.nonIdr, .idr] := by
    rw [sameKind]
    cases type <;> first | decide | cases slice
  refine ⟨bytes, u, ?_, framed, header, ?_⟩
  · rw [compose, if_pos slice]
    exact composed
  · rw [← sameKind] at read
    have parsed : store.readSlice u = .ok h := NalUnit.require_read expected read
    rw [ParameterStore.addSlice, parsed]
    rfl

/-- A choice of tiles with ids of 32 bits, and both chroma components filtered without luma. -/
theorem addSlice_compose_filtered :
    let sps : SequenceParameterSet :=
      { format := { id := 3, profileIdc := 1, chromaFormatIdc := 3 }
        motion := { advanced := true, mergeDifference := true }
        loop := { adaptiveLoopFilter := true }
        log2MaxOrderLsbMinus4 := some 12 }
    let pps : PictureParameterSet :=
      { id := 9, spsId := 3, grid := { columnsMinus1 := 1, rowsMinus1 := 1 }
        tiling := some { spacing := none }
        tileIdLengthMinus1 := 31, arbitrarySlices := true }
    let h : SliceHeader :=
      { ppsId := 9, firstTileId := 2 ^ 32 - 1, span := .chosen 1 [0, 2 ^ 32 - 2]
        mergeDifferenceGroups := true
        loopFilter := { chromaIdc := 3, chromaApsId := 31, chromaMap := true, chroma2ApsId := 7 }
        orderLsb := 2 ^ 16 - 1 }
    let store : ParameterStore :=
      { sequences := ({} : IdTable SequenceParameterSet).insert 3 sps
        pictures := ({} : IdTable PictureParameterSet).insert 9 pps }
    store.Reachable ∧ h.WellFormed false pps sps ∧
      ∃ bytes u, h.compose .nonIdr 5 pps sps = .ok bytes ∧ NalUnit.ofFramed bytes = .ok u ∧
        u.header = NalUnitHeader.plain .nonIdr 5 ∧
        store.addSlice u = .ok (h, { store with slices := store.slices.insert 9 h }) := by
  intro sps pps h store
  let sequence : NalUnit :=
    { header := .plain .sps 0
      bytes := [50, 0, 32, 8, 0, 0, 0, 0, 0, 0, 0, 0, 1, 60, 136, 36, 27, 196] }
  let picture : NalUnit :=
    { header := .plain .pps 0, bytes := [52, 0, 20, 78, 37, 65, 1, 32] }
  have sequenceAdded : ({} : ParameterStore).addSequence sequence =
      .ok (sps, { store with pictures := {} }) :=
    Fault.ok_of_toOption (by decide +kernel)
  have pictureAdded : ParameterStore.addPicture { store with pictures := {} } picture =
      .ok (pps, store) :=
    Fault.ok_of_toOption (by decide +kernel)
  have reachable : store.Reachable := .addPicture (.addSequence .empty sequenceAdded) pictureAdded
  have slice : NalUnitType.nonIdr.isSlice = true := rfl
  have pictureFound : store.pictures.find? h.ppsId = some pps := rfl
  have sequenceFound : store.sequences.find? pps.spsId = some sps := rfl
  have valid : h.WellFormed false pps sps := by decide
  exact ⟨reachable, valid,
    addSlice_compose reachable slice pictureFound sequenceFound valid 5⟩

end SliceHeader
end EvcStream
