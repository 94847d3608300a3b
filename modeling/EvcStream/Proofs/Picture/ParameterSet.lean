import EvcStream.Proofs.Coding.RoundTrip
import Mathlib.Tactic.MkIffOfInductiveProp
/-!
# Round trip of picture parameter sets

A picture parameter set is well formed if its tile spacing and tile ids have the shape of its grid
and if a picture of one tile has no other grid. A well-formed set is composed into one unit, and
every store that knows its sequence parameter set reads the same set from that unit. Every set that
is decoded is well formed, and its code is what was read.
-/
namespace EvcStream

open Decoder (Exact ExactBehind)
open ExpGolomb (Codable)

@[mk_iff]
structure TileGrid.WellFormed (g : TileGrid) : Prop where
  columnsMinus1 : g.columnsMinus1 ≤ maxColumns - 1
  rowsMinus1 : g.rowsMinus1 ≤ maxRows - 1

instance TileGrid.decidableWellFormed (g : TileGrid) : Decidable g.WellFormed :=
  decidable_of_iff' _ (TileGrid.wellFormed_iff g)

theorem TileGrid.roundTrip {g : TileGrid} (valid : g.WellFormed) :
    RoundTrip 126 decode g.encode g :=
  RoundTrip.mono (by decide) <|
    .bind (.ueMax valid.columnsMinus1) <|
    .last (.ueMax valid.rowsMinus1)

theorem TileGrid.decode_exact : Exact decode encode WellFormed := by
  refine .bind (.ueMax _) fun _ columns => ?_
  refine .bind (.ueMax _) fun _ rows => ?_
  exact .done rfl ⟨columns, rows⟩

@[mk_iff]
structure TileSpacing.WellFormed (grid : TileGrid) (s : TileSpacing) : Prop where
  columns : s.columnWidthsMinus1.length = grid.columnsMinus1
  rows : s.rowHeightsMinus1.length = grid.rowsMinus1
  columnWidthsMinus1 : ∀ width ∈ s.columnWidthsMinus1, Codable width
  rowHeightsMinus1 : ∀ height ∈ s.rowHeightsMinus1, Codable height

instance TileSpacing.decidableWellFormed (grid : TileGrid) (s : TileSpacing) :
    Decidable (s.WellFormed grid) :=
  decidable_of_iff' _ (TileSpacing.wellFormed_iff grid s)

theorem TileSpacing.roundTrip {grid : TileGrid} {s : TileSpacing} (bounded : grid.WellFormed)
    (valid : s.WellFormed grid) : RoundTrip 2520 (decode grid) (s.encode grid) s := by
  exact RoundTrip.mono (by decide) <|
    .require ⟨valid.columns, valid.rows⟩ <|
    .bind (.times valid.columns bounded.columnsMinus1 fun width member =>
      .ue (valid.columnWidthsMinus1 width member)) <|
    .last (.times valid.rows bounded.rowsMinus1 fun height member =>
      .ue (valid.rowHeightsMinus1 height member))

theorem TileSpacing.decode_exact (grid : TileGrid) :
    Exact (decode grid) (encode grid) (WellFormed grid) := by
  refine .bind (.times _ .ue) fun _ ⟨columns, widths⟩ => ?_
  refine .bind (.times _ .ue) fun _ ⟨rows, heights⟩ => ?_
  refine .done ?_ ⟨columns, rows, widths, heights⟩
  exact if_pos ⟨columns, rows⟩

@[mk_iff]
structure Tiling.WellFormed (grid : TileGrid) (t : Tiling) : Prop where
  spacing : ∀ s ∈ t.spacing, s.WellFormed grid
  offsetLengthMinus1 : Codable t.offsetLengthMinus1

instance Tiling.decidableWellFormed (grid : TileGrid) (t : Tiling) :
    Decidable (t.WellFormed grid) :=
  decidable_of_iff' _ (Tiling.wellFormed_iff grid t)

theorem Tiling.roundTrip {grid : TileGrid} {t : Tiling} (bounded : grid.WellFormed)
    (valid : t.WellFormed grid) : RoundTrip 2585 (decode grid) (t.encode grid) t := by
  unfold decode encode
  simp only [Coded.append_assoc]
  exact RoundTrip.mono (by decide) <|
    .bind (.flag t.spacing.isNone) <|
    .bind (.optional_unless fun s present =>
      TileSpacing.roundTrip bounded (valid.spacing s present)) <|
    .bind (.flag t.loopFilterAcrossTiles) <|
    .last (.ue valid.offsetLengthMinus1)

theorem Tiling.decode_exact (grid : TileGrid) :
    Exact (decode grid) (encode grid) (WellFormed grid) := by
  refine .bind .flag fun uniform _ => ?_
  refine .bind (.optional _ (TileSpacing.decode_exact grid)) fun spacing ⟨own, valid⟩ => ?_
  refine .bind .flag fun _ _ => ?_
  refine .bind .ue fun _ offset => ?_
  refine .done ?_ ⟨valid, offset⟩
  have flagged : spacing.isNone = uniform := by rw [← Option.not_isSome, own, Bool.not_not]
  rw [encode, flagged]

namespace PictureParameterSet

/-- The grid is coded together with the tiling, so that what is behind them follows from both. -/
theorem tiles_bind {β : Type} {grid : TileGrid} {tiling : Option Tiling} {n : Nat} {coded : Coded}
    {value : β} {next : TileGrid → Option Tiling → Decoder β} (bounded : grid.WellFormed)
    (single : tiling = none → grid = {}) (valid : ∀ t ∈ tiling, t.WellFormed grid)
    (behind : RoundTrip n (next grid tiling) coded value) :
    RoundTrip (2711 + n)
      (do
        let grid ← if tiling.isNone then pure {} else TileGrid.decode
        let tiling ← Decoder.optional (!tiling.isNone) (Tiling.decode grid)
        next grid tiling)
      (Coded.optional (fun t => grid.encode ++ t.encode grid) tiling ++ coded) value := by
  cases tiling with
  | none =>
    obtain rfl := single rfl
    refine RoundTrip.mono (Nat.le_add_left n 2711) ?_
    rw [Coded.optional, Coded.empty_append]
    exact behind
  | some t =>
    have tiled : RoundTrip 2585 (some <$> Tiling.decode grid) (t.encode grid) (some t) :=
      .last (Tiling.roundTrip bounded (valid t rfl))
    rw [Coded.optional, Coded.append_assoc]
    refine RoundTrip.mono ?_ <| .bind (TileGrid.roundTrip bounded) <| .bind tiled behind
    omega

theorem tiles_exact {β : Type} {front : Coded} {single : Bool}
    {next : TileGrid → Option Tiling → Decoder β} {code : β → Coded} {valid : β → Prop}
    (behind : ∀ grid tiling, grid.WellFormed → (tiling = none → grid = {}) →
      (∀ t ∈ tiling, t.WellFormed grid) → tiling.isNone = single →
      ExactBehind (front ++ Coded.optional (fun t => grid.encode ++ t.encode grid) tiling)
        (next grid tiling) code valid) :
    ExactBehind front
      (do
        let grid ← if single then pure {} else TileGrid.decode
        let tiling ← Decoder.optional (!single) (Tiling.decode grid)
        next grid tiling) code valid := by
  cases single with
  | true =>
    have whole := behind {} none (by decide) (fun _ => rfl) (fun _ absent => nomatch absent) rfl
    rw [Coded.optional, Coded.append_empty] at whole
    exact whole
  | false =>
    refine .bind TileGrid.decode_exact fun grid bounded => ?_
    refine .bind (.optional true (Tiling.decode_exact grid)) fun tiling ⟨tiled, fits⟩ => ?_
    obtain ⟨t, rfl⟩ := Option.isSome_iff_exists.mp tiled
    rw [Coded.append_assoc]
    exact behind grid (some t) bounded (fun absent => nomatch absent) fits rfl

@[mk_iff]
structure TileIds (grid : TileGrid) (length : Nat) (ids : List (List Nat)) : Prop where
  rows : ids.length = grid.rowsMinus1 + 1
  columns : ∀ row ∈ ids, row.length = grid.columnsMinus1 + 1
  bounded : ∀ row ∈ ids, ∀ id ∈ row, id < 2 ^ length

instance TileIds.decidable (grid : TileGrid) (length : Nat) (ids : List (List Nat)) :
    Decidable (TileIds grid length ids) :=
  decidable_of_iff' _ (tileIds_iff grid length ids)

theorem TileIds.roundTrip {grid : TileGrid} {length : Nat} {ids : List (List Nat)}
    (bounded : grid.WellFormed) (narrow : length ≤ 32) (valid : TileIds grid length ids) :
    RoundTrip 14080 (decodeTileIds grid length) (encodeTileIds grid length ids) ids := by
  have columns : grid.columnsMinus1 + 1 ≤ 20 := Nat.succ_le_succ bounded.columnsMinus1
  have rows : grid.rowsMinus1 + 1 ≤ 22 := Nat.succ_le_succ bounded.rowsMinus1
  have row : ∀ row ∈ ids, RoundTrip (20 * 32)
      (Decoder.times (grid.columnsMinus1 + 1) (Decoder.u length))
      (Coded.each (Coded.u length) row) row := by
    intro row member
    exact .times (valid.columns row member) columns fun id isId =>
      (RoundTrip.u (valid.bounded row member id isId) narrow).mono narrow
  exact .require ⟨valid.rows, valid.columns⟩ (.times valid.rows rows row)

theorem decodeTileIds_exact (grid : TileGrid) (length : Nat) :
    Exact (decodeTileIds grid length) (encodeTileIds grid length) (TileIds grid length) := by
  intro r ids s delivered
  obtain ⟨⟨rows, fits⟩, bits, coded, consumed⟩ :=
    Exact.times _ (.times _ (.u length)) r ids s delivered
  have columns := fun row member => (fits row member).1
  refine ⟨⟨rows, columns, fun row member => (fits row member).2⟩, bits, ?_, consumed⟩
  exact (if_pos ⟨rows, columns⟩).trans coded

@[mk_iff]
structure WellFormed (p : PictureParameterSet) : Prop where
  id : p.id ≤ maxId
  spsId : p.spsId ≤ maxSpsId
  activeRefs0Minus1 : Codable p.activeRefsMinus1.1
  activeRefs1Minus1 : Codable p.activeRefsMinus1.2
  additionalLongTermLsbLength : Codable p.additionalLongTermLsbLength
  grid : p.grid.WellFormed
  single : p.tiling = none → p.grid = {}
  tiling : ∀ t ∈ p.tiling, t.WellFormed p.grid
  tileIdLengthMinus1 : p.tileIdLengthMinus1 ≤ 31
  tileIds : ∀ ids ∈ p.tileIds, TileIds p.grid p.tileIdLength ids
  rangeAdjustmentApsId : ∀ id ∈ p.rangeAdjustmentApsId, id < 2 ^ 5
  log2CuQpDeltaAreaMinus6 : ∀ area ∈ p.log2CuQpDeltaAreaMinus6, Codable area

instance decidableWellFormed (p : PictureParameterSet) : Decidable p.WellFormed :=
  decidable_of_iff' _ (wellFormed_iff p)

theorem roundTrip {p : PictureParameterSet} {isKnown : Nat → Bool} (valid : p.WellFormed)
    (known : isKnown p.spsId = true) : RoundTrip 17500 (decode isKnown) p.encode p := by
  have tileIds := RoundTrip.flagged fun ids present =>
    TileIds.roundTrip valid.grid (Nat.succ_le_succ valid.tileIdLengthMinus1)
      (valid.tileIds ids present)
  unfold decode decodeWith encode
  simp only [Coded.append_assoc]
  exact RoundTrip.mono (by decide) <|
    .bind (.ueMax valid.id) <|
    .bind (.ueMax valid.spsId) <|
    .of_pos known <|
    .bind (.ue valid.activeRefs0Minus1) <|
    .bind (.ue valid.activeRefs1Minus1) <|
    .bind (.ue valid.additionalLongTermLsbLength) <|
    .bind (.flag p.rpl1IndexPresent) <|
    .bind (.flag p.isSingleTile) <|
    tiles_bind valid.grid valid.single valid.tiling <|
    .bind (.ueMax valid.tileIdLengthMinus1) <|
    .bind tileIds <|
    .bind (.flagged fun id present => .u (valid.rangeAdjustmentApsId id present)) <|
    .bind (.flag p.arbitrarySlices) <|
    .bind (.flag p.constrainedIntra) <|
    .last (.flagged fun area present => .ue (valid.log2CuQpDeltaAreaMinus6 area present))

theorem decode_exact (isKnown : Nat → Bool) :
    Exact (decode isKnown) encode fun p => p.WellFormed ∧ isKnown p.spsId = true := by
  refine .bind (.ueMax _) fun _ id => ?_
  refine .bind (.ueMax _) fun _ spsId => ?_
  refine .ite (fun known => ?_) (fun _ => .throw _)
  refine .bind .ue fun _ refs0 => ?_
  refine .bind .ue fun _ refs1 => ?_
  refine .bind .ue fun _ lsbLength => ?_
  refine .bind .flag fun _ _ => ?_
  refine .bind .flag fun single _ => ?_
  refine tiles_exact fun grid tiling bounded whole tiles same => ?_
  refine .bind (.ueMax 31) fun _ idLength => ?_
  refine .bind (.flagged (decodeTileIds_exact _ _)) fun _ tileIds => ?_
  refine .bind (.flagged (.u 5)) fun _ apsId => ?_
  refine .bind .flag fun _ _ => ?_
  refine .bind .flag fun _ _ => ?_
  refine .bind (.flagged .ue) fun _ area => ?_
  subst same
  exact .done rfl
    ⟨⟨id, spsId, refs0, refs1, lsbLength, bounded, whole, tiles, idLength, tileIds, apsId, area⟩,
      known⟩

/-- Composing a well-formed set succeeds, and adding the unit to a store that knows the sequence
parameter set it belongs to gives the set back. -/
theorem addPicture_compose {p : PictureParameterSet} {store : ParameterStore}
    (valid : p.WellFormed) (known : store.sequences.contains p.spsId = true) (temporalId : Nat) :
    ∃ bytes u, p.compose temporalId = .ok bytes ∧ NalUnit.ofFramed bytes = .ok u ∧
      u.header = NalUnitHeader.plain .pps temporalId ∧
      store.addPicture u = .ok (p, { store with pictures := store.pictures.insert p.id p }) := by
  obtain ⟨bytes, u, composed, framed, header, read⟩ :=
    NalUnit.compose_roundTrip .pps temporalId (roundTrip valid known) (by decide)
  have expected : u.header.type ∈ [.pps] := by
    rw [header]
    exact List.mem_singleton_self _
  refine ⟨bytes, u, composed, framed, header, ?_⟩
  have found : store.readPicture u = .ok p := NalUnit.require_read expected read
  rw [ParameterStore.addPicture, found]
  rfl

/-- Tiles of given sizes, with ids of 32 bits. -/
theorem addPicture_compose_tiled :
    let p : PictureParameterSet :=
      { id := 63, spsId := 15, activeRefsMinus1 := (2 ^ 32 - 2, 1), rpl1IndexPresent := true
        grid := { columnsMinus1 := 2, rowsMinus1 := 1 }
        tiling := some {
          spacing := some { columnWidthsMinus1 := [0, 2 ^ 32 - 2], rowHeightsMinus1 := [7] }
          loopFilterAcrossTiles := true, offsetLengthMinus1 := 3 }
        tileIdLengthMinus1 := 31
        tileIds := some [[2 ^ 32 - 1, 0, 5], [4, 3, 2 ^ 31]]
        rangeAdjustmentApsId := some 31, arbitrarySlices := true
        log2CuQpDeltaAreaMinus6 := some 2 }
    let store : ParameterStore :=
      { sequences := ({} : IdTable SequenceParameterSet).insert 15 { format := { id := 15 } } }
    p.WellFormed ∧ store.sequences.contains 15 = true ∧
      ∃ bytes u, p.compose 1 = .ok bytes ∧ NalUnit.ofFramed bytes = .ok u ∧
        u.header = NalUnitHeader.plain .pps 1 ∧
        store.addPicture u =
          .ok (p, { store with pictures := store.pictures.insert 63 p }) := by
  intro p store
  have valid : p.WellFormed := by decide
  have known : store.sequences.contains 15 = true := rfl
  exact ⟨valid, known, addPicture_compose valid known 1⟩

end PictureParameterSet
end EvcStream
