import EvcStream.Proofs.DecoderConfig.RoundTrip
import EvcStream.Proofs.Store.Reachable
import Mathlib.Data.List.Induction
import Mathlib.Data.List.Nodup
/-!
# A record partitions the units of a stream

Collecting a stream gives one group for each type of parameter set or message, in the order of first
appearance, and within a group its units in their order in the stream.
-/
namespace EvcStream.DecoderConfig

def ofType (units : List NalUnit) (type : NalUnitType) : List NalUnit :=
  units.filter fun u => u.header.type = type

/-- The types that occur, in the order in which they do so first. -/
def typesOf (units : List NalUnit) : List NalUnitType := (units.map (·.header.type)).eraseDups

/-- The units of these types, type after type. -/
def arranged (types : List NalUnitType) (units : List NalUnit) : List NalUnit :=
  types.flatMap (ofType units)

def groupOf (allComplete : Bool) (units : List NalUnit) (type : NalUnitType) : UnitGroup :=
  { isComplete := allComplete && isParameterSet type
    type
    units := (ofType units type).map NalUnit.bytes }

def grouped (allComplete : Bool) (units : List NalUnit) : List UnitGroup :=
  (typesOf units).map (groupOf allComplete units)

variable {units : List NalUnit} {u : NalUnit} {type : NalUnitType} {types : List NalUnitType}
  {allComplete : Bool}

theorem mem_ofType : u ∈ ofType units type ↔ u ∈ units ∧ u.header.type = type := by
  rw [ofType, List.mem_filter, decide_eq_true_eq]

theorem ofType_append (units later : List NalUnit) (type : NalUnitType) :
    ofType (units ++ later) type = ofType units type ++ ofType later type :=
  List.filter_append units later

theorem ofType_of_all (all : ∀ u ∈ units, u.header.type = type) : ofType units type = units :=
  List.filter_eq_self.mpr fun u member => decide_eq_true (all u member)

theorem ofType_of_none (none : ∀ u ∈ units, u.header.type ≠ type) : ofType units type = [] :=
  List.filter_eq_nil_iff.mpr fun u member => mt of_decide_eq_true (none u member)

theorem mem_typesOf : type ∈ typesOf units ↔ ∃ u ∈ units, u.header.type = type := by
  rw [typesOf, List.mem_eraseDups, List.mem_map]

theorem ofType_of_not_mem (absent : type ∉ typesOf units) : ofType units type = [] :=
  ofType_of_none fun u member same => absent (mem_typesOf.mpr ⟨u, member, same⟩)

theorem typesOf_concat_known (known : u.header.type ∈ typesOf units) :
    typesOf (units ++ [u]) = typesOf units := by
  rw [typesOf, List.mem_eraseDups] at known
  have nothing : [u.header.type].removeAll (units.map (·.header.type)) = [] := by
    simp only [List.cons_removeAll, List.contains_eq_mem, known, decide_true, if_false,
      Bool.true_eq_false, List.nil_removeAll]
  rw [typesOf, typesOf, List.map_append, List.eraseDups_append, List.map_singleton, nothing]
  exact List.append_nil _

theorem typesOf_append_new (new : u.header.type ∉ typesOf units) (later : List NalUnit) :
    typesOf (units ++ u :: later) = typesOf units ++ u.header.type ::
      (((later.map (·.header.type)).removeAll (units.map (·.header.type))).filter
        fun type => !type == u.header.type).eraseDups := by
  rw [typesOf, List.mem_eraseDups] at new
  have kept : (u.header.type :: later.map (·.header.type)).removeAll (units.map (·.header.type)) =
      u.header.type :: (later.map (·.header.type)).removeAll (units.map (·.header.type)) := by
    simp only [List.cons_removeAll, List.contains_eq_mem, new, decide_false, if_true]
  rw [typesOf, typesOf, List.map_append, List.eraseDups_append, List.map_cons, kept,
    List.eraseDups_cons]

theorem typesOf_concat_new (new : u.header.type ∉ typesOf units) :
    typesOf (units ++ [u]) = typesOf units ++ [u.header.type] :=
  typesOf_append_new new []

theorem typesOf_nodup (units : List NalUnit) : (typesOf units).Nodup := by
  induction units using List.reverseRecOn with
  | nil => exact List.nodup_nil
  | append_singleton units u ih =>
    by_cases known : u.header.type ∈ typesOf units
    · rw [typesOf_concat_known known]
      exact ih
    · rw [typesOf_concat_new known, List.nodup_append_comm, List.singleton_append, List.nodup_cons]
      exact ⟨known, ih⟩

/-- A type that occurs has its place between types that differ from it. -/
theorem types_split (distinct : types.Nodup) (member : type ∈ types) :
    ∃ before after, types = before ++ type :: after ∧ type ∉ before ∧ type ∉ after := by
  obtain ⟨before, after, rfl⟩ := List.append_of_mem member
  rw [List.nodup_middle, List.nodup_cons, List.mem_append, not_or] at distinct
  exact ⟨before, after, rfl, distinct.1⟩

theorem groupOf_concat_other (other : u.header.type ≠ type) :
    groupOf allComplete (units ++ [u]) type = groupOf allComplete units type := by
  have none : ofType [u] type = [] := ofType_of_none (List.forall_mem_singleton.mpr other)
  rw [groupOf, ofType_append, none, List.append_nil]
  rfl

theorem groupOf_concat_same :
    groupOf allComplete (units ++ [u]) u.header.type =
      { groupOf allComplete units u.header.type with
        units := (groupOf allComplete units u.header.type).units ++ [u.bytes] } := by
  have one : ofType [u] u.header.type = [u] := ofType_of_all (List.forall_mem_singleton.mpr rfl)
  rw [groupOf, ofType_append, one, List.map_append]
  rfl

theorem map_groupOf_concat (absent : u.header.type ∉ types) :
    types.map (groupOf allComplete (units ++ [u])) = types.map (groupOf allComplete units) := by
  apply List.map_congr_left
  intro type member
  exact groupOf_concat_other fun same => absent (same ▸ member)

theorem addToGroups_new {unit : List UInt8} {isComplete : Bool} {groups : List UnitGroup}
    (absent : ∀ g ∈ groups, g.type ≠ type) :
    addToGroups type unit isComplete groups =
      groups ++ [{ isComplete, type, units := [unit] }] := by
  induction groups with
  | nil => rfl
  | cons g groups ih =>
    obtain ⟨first, others⟩ := List.forall_mem_cons.mp absent
    rw [addToGroups, if_neg first, ih others]
    rfl

theorem addToGroups_known {unit : List UInt8} {isComplete : Bool} {before after : List UnitGroup}
    {g : UnitGroup} (absent : ∀ g ∈ before, g.type ≠ type) (here : g.type = type) :
    addToGroups type unit isComplete (before ++ g :: after) =
      before ++ { g with units := g.units ++ [unit] } :: after := by
  induction before with
  | nil => rw [List.nil_append, addToGroups, if_pos here, List.nil_append]
  | cons other before ih =>
    obtain ⟨first, others⟩ := List.forall_mem_cons.mp absent
    rw [List.cons_append, addToGroups, if_neg first, ih others]
    rfl

theorem types_ne_of_not_mem (absent : type ∉ types) :
    ∀ g ∈ types.map (groupOf allComplete units), g.type ≠ type := by
  rw [List.forall_mem_map]
  intro other member same
  exact absent (same ▸ member)

theorem addToGroups_grouped (allComplete : Bool) (units : List NalUnit) (u : NalUnit) :
    addToGroups u.header.type u.bytes (allComplete && isParameterSet u.header.type)
      (grouped allComplete units) = grouped allComplete (units ++ [u]) := by
  by_cases known : u.header.type ∈ typesOf units
  · obtain ⟨before, after, types, early, late⟩ := types_split (typesOf_nodup units) known
    rw [grouped, grouped, typesOf_concat_known known, types, List.map_append, List.map_cons,
      List.map_append, List.map_cons, addToGroups_known (types_ne_of_not_mem early) rfl,
      map_groupOf_concat early, map_groupOf_concat late, groupOf_concat_same]
  · rw [grouped, grouped, typesOf_concat_new known, List.map_append, map_groupOf_concat known,
      List.map_singleton, groupOf_concat_same, addToGroups_new (types_ne_of_not_mem known), groupOf,
      ofType_of_not_mem known]
    rfl

theorem grouped_units (allComplete : Bool) (units : List NalUnit) :
    (grouped allComplete units).flatMap UnitGroup.units =
      (arranged (typesOf units) units).map NalUnit.bytes := by
  rw [grouped, List.flatMap_map, arranged, List.map_flatMap]
  rfl

theorem mem_arranged : u ∈ arranged types units ↔ u ∈ units ∧ u.header.type ∈ types := by
  rw [arranged, List.mem_flatMap]
  constructor
  · rintro ⟨type, member, found⟩
    obtain ⟨present, rfl⟩ := mem_ofType.mp found
    exact ⟨present, member⟩
  · rintro ⟨present, member⟩
    exact ⟨u.header.type, member, mem_ofType.mpr ⟨present, rfl⟩⟩

theorem arranged_append (types others : List NalUnitType) (units : List NalUnit) :
    arranged (types ++ others) units = arranged types units ++ arranged others units :=
  List.flatMap_append

theorem ofType_arranged_absent (absent : type ∉ types) :
    ofType (arranged types units) type = [] := by
  apply ofType_of_none
  intro u member same
  exact absent (same ▸ (mem_arranged.mp member).2)

theorem ofType_arranged (distinct : types.Nodup) (member : type ∈ types) :
    ofType (arranged types units) type = ofType units type := by
  obtain ⟨before, after, rfl, early, late⟩ := types_split distinct member
  have here : ofType (ofType units type) type = ofType units type :=
    ofType_of_all fun u found => (mem_ofType.mp found).2
  rw [arranged_append, ofType_append, ofType_arranged_absent early, arranged, List.flatMap_cons,
    ofType_append, here]
  change [] ++ (_ ++ ofType (arranged after units) type) = _
  rw [ofType_arranged_absent late, List.append_nil, List.nil_append]

/-- Arranging all types moves no unit of a type across another one. -/
theorem ofType_arranged_all (units : List NalUnit) (type : NalUnitType) :
    ofType (arranged (typesOf units) units) type = ofType units type := by
  by_cases known : type ∈ typesOf units
  · exact ofType_arranged (typesOf_nodup units) known
  · rw [ofType_arranged_absent known, ofType_of_not_mem known]

theorem arranged_perm (units : List NalUnit) : (arranged (typesOf units) units).Perm units := by
  rw [List.perm_iff_count]
  intro u
  have count (others : List NalUnit) :
      (ofType others u.header.type).count u = others.count u :=
    List.count_filter (decide_eq_true rfl)
  rw [← count, ofType_arranged_all, count]

/-- A fold that only units of one type matter to. -/
theorem foldl_ofType {β : Type} {step : β → NalUnit → β} (type : NalUnitType)
    (neutral : ∀ b u, u.header.type ≠ type → step b u = b) (units : List NalUnit) (b : β) :
    (ofType units type).foldl step b = units.foldl step b := by
  induction units generalizing b with
  | nil => rfl
  | cons u units ih =>
    by_cases same : u.header.type = type
    · have kept : ofType (u :: units) type = u :: ofType units type :=
        List.filter_cons_of_pos (decide_eq_true same)
      rw [kept]
      exact ih (step b u)
    · have dropped : ofType (u :: units) type = ofType units type :=
        List.filter_cons_of_neg (mt of_decide_eq_true same)
      rw [dropped, List.foldl_cons, neutral b u same]
      exact ih b

def collected (units : List NalUnit) : List NalUnit :=
  units.filter fun u => isCollected u.header.type

def formatOf (f : SequenceFormat) : DecoderConfig :=
  { profileIdc := f.profileIdc
    levelIdc := f.levelIdc
    toolsetIdcHigh := f.toolsetIdcHigh
    toolsetIdcLow := f.toolsetIdcLow
    chromaFormatIdc := f.chromaFormatIdc
    bitDepthLumaMinus8 := f.bitDepthLumaMinus8
    bitDepthChromaMinus8 := f.bitDepthChromaMinus8
    pictureWidth := f.pictureWidth
    pictureHeight := f.pictureHeight }

/-- The first sequence parameter set has this format, with a size that fits two bytes each way. -/
structure FirstFormat (units : List NalUnit) (f : SequenceFormat) : Prop where
  first : ∃ u sps, (ofType units .sps).head? = some u ∧
    ParameterStore.readSequence u = .ok sps ∧ sps.format = f
  width : f.pictureWidth < 2 ^ 16
  height : f.pictureHeight < 2 ^ 16

/-- What the sequence parameter sets among some units tell about the format. -/
def Told (units : List NalUnit) : Option SequenceFormat → Prop
  | none => ofType units .sps = []
  | some f => FirstFormat units f

/-- Groups that units fall into, each with the units of its type, in the order of the stream. -/
structure Partitions (allComplete : Bool) (units : List NalUnit) (groups : List UnitGroup) :
    Prop where
  distinct : (groups.map UnitGroup.type).Nodup
  /-- A group stands where its type occurs first. -/
  order : groups.map UnitGroup.type = (units.map (·.header.type)).eraseDups
  stable : ∀ g ∈ groups, g.units = (ofType units g.type).map NalUnit.bytes
  exhaustive : (groups.flatMap UnitGroup.units).Perm (units.map NalUnit.bytes)
  complete : ∀ g ∈ groups, g.isComplete = (allComplete && isParameterSet g.type)

/-- The draft that holds some units, described by a format. -/
def Draft.of (allComplete : Bool) (units : List NalUnit) (format : Option SequenceFormat) : Draft :=
  { config := { format.elim {} formatOf with groups := grouped allComplete units }
    described := format.isSome }

variable {u : NalUnit} {units : List NalUnit} {bytes : List UInt8} {allComplete : Bool}
  {c d : DecoderConfig} {draft next : Draft} {f : SequenceFormat} {type : NalUnitType}
  {format : Option SequenceFormat}

theorem ofType_concat_same (same : u.header.type = type) :
    ofType (units ++ [u]) type = ofType units type ++ [u] := by
  rw [ofType_append, ofType_of_all (List.forall_mem_singleton.mpr same)]

theorem ofType_concat_other (other : u.header.type ≠ type) :
    ofType (units ++ [u]) type = ofType units type := by
  rw [ofType_append, ofType_of_none (List.forall_mem_singleton.mpr other), List.append_nil]

theorem readSequence_wellFormed {sps : SequenceParameterSet}
    (read : ParameterStore.readSequence u = .ok sps) : sps.format.WellFormed := by
  obtain ⟨-, _, decoded⟩ := NalUnit.require_read_ok read
  exact (SequenceParameterSet.decode_exact _ _ _ decoded).1.format

theorem FirstFormat.wellFormed (h : FirstFormat units f) : f.WellFormed := by
  obtain ⟨u, sps, -, read, rfl⟩ := h.first
  exact readSequence_wellFormed read

theorem FirstFormat.nonempty (h : FirstFormat units f) : ofType units .sps ≠ [] := by
  obtain ⟨u, -, head, -⟩ := h.first
  intro none
  rw [none] at head
  cases head

theorem FirstFormat.unique {g : SequenceFormat} (h : FirstFormat units f)
    (k : FirstFormat units g) : f = g := by
  obtain ⟨u, sps, head, read, rfl⟩ := h.first
  obtain ⟨v, other, same, again, rfl⟩ := k.first
  rw [head, Option.some.injEq] at same
  subst same
  rw [read, Except.ok.injEq] at again
  rw [again]

theorem Told.unique {other : Option SequenceFormat} (h : Told units format)
    (k : Told units other) : format = other := by
  cases format with
  | none =>
    cases other with
    | none => rfl
    | some g => exact absurd h k.nonempty
  | some f =>
    cases other with
    | none => exact absurd k h.nonempty
    | some g => rw [h.unique k]

theorem Told.exists_iff {p : Option SequenceFormat → Prop} (h : Told units format) :
    (∃ other, Told units other ∧ p other) ↔ p format := by
  constructor
  · rintro ⟨other, k, holds⟩
    rwa [h.unique k]
  · exact fun holds => ⟨format, h, holds⟩

/-- Later sequence parameter sets tell nothing new. -/
theorem Told.concat (h : Told units (some f)) (u : NalUnit) : Told (units ++ [u]) (some f) := by
  have head : (ofType (units ++ [u]) .sps).head? = (ofType units .sps).head? := by
    rw [ofType_append, List.head?_append_of_ne_nil _ h.nonempty]
  exact ⟨head ▸ h.first, h.width, h.height⟩

theorem Told.concat_other (h : Told units format) (other : u.header.type ≠ .sps) :
    Told (units ++ [u]) format := by
  cases format with
  | none => exact (ofType_concat_other other).trans h
  | some f => exact h.concat u

theorem Told.of_concat {other : Option SequenceFormat} (told : Told (units ++ [u]) other) :
    ∃ format, Told units format := by
  by_cases none : ofType units .sps = []
  · exact ⟨Option.none, none⟩
  · cases other with
    | none =>
      rw [Told, ofType_append] at told
      exact absurd (List.append_eq_nil_iff.mp told).1 none
    | some f =>
      have first := told.first
      rw [ofType_append, List.head?_append_of_ne_nil _ none] at first
      exact ⟨some f, first, told.width, told.height⟩

theorem told_concat_iff {other : Option SequenceFormat} (none : ofType units .sps = [])
    (sequence : u.header.type = .sps) :
    Told (units ++ [u]) other ↔ ∃ sps, ParameterStore.readSequence u = .ok sps ∧
      sps.format.pictureWidth < 2 ^ 16 ∧ sps.format.pictureHeight < 2 ^ 16 ∧
        some sps.format = other := by
  have one : ofType (units ++ [u]) .sps = [u] := by
    rw [ofType_concat_same sequence, none, List.nil_append]
  have head : (ofType (units ++ [u]) .sps).head? = some u := by rw [one, List.head?_cons]
  constructor
  · intro told
    cases other with
    | none => exact absurd (one.symm.trans told) (List.cons_ne_nil u [])
    | some f =>
      obtain ⟨⟨v, sps, first, read, rfl⟩, width, height⟩ := told
      rw [head, Option.some.injEq] at first
      subst first
      exact ⟨sps, read, width, height, rfl⟩
  · rintro ⟨sps, read, width, height, rfl⟩
    exact ⟨⟨u, sps, head, read, rfl⟩, width, height⟩

theorem describe_ok_iff {sps : SequenceParameterSet} {groups : List UnitGroup}
    (valid : sps.format.WellFormed) :
    DecoderConfig.describe sps { groups } = .ok d ↔
      sps.format.pictureWidth < 2 ^ 16 ∧ sps.format.pictureHeight < 2 ^ 16 ∧
        { formatOf sps.format with groups } = d := by
  have width := Nat.mod_eq_of_lt (Nat.lt_of_succ_lt valid.pictureWidth)
  have height := Nat.mod_eq_of_lt (Nat.lt_of_succ_lt valid.pictureHeight)
  have field : 256 ^ 2 = 2 ^ 16 := by decide
  simp only [DecoderConfig.describe, bind_ok_iff, fit_ok_iff, width, height, field, pure,
    Except.pure, Except.ok.injEq, and_assoc, exists_and_left, exists_eq_left']
  rfl

theorem addUnit_ok_iff {unit : List UInt8} {isComplete : Bool} (size : unit.length < 2 ^ 32) :
    c.addUnit type unit isComplete = .ok d ↔
      unit.length < 2 ^ 16 ∧
        { c with groups := addToGroups type unit isComplete c.groups } = d := by
  have field : 256 ^ 2 = 2 ^ 16 := by decide
  simp only [addUnit, bind_ok_iff, fit_ok_iff, Nat.mod_eq_of_lt size, field, pure, Except.pure,
    Except.ok.injEq, and_assoc, exists_and_left, exists_eq_left']

namespace Draft

theorem describe_known (known : u.header.type = .sps → draft.described = true) :
    draft.describe u = .ok draft := by
  have old : ¬ (u.header.type = .sps ∧ draft.described = false) := by
    rintro ⟨sequence, fresh⟩
    rw [known sequence] at fresh
    cases fresh
  rw [describe, if_neg old]

theorem describe_first_iff {sps : SequenceParameterSet} (sequence : u.header.type = .sps)
    (read : ParameterStore.readSequence u = .ok sps) :
    (Draft.of allComplete units none).describe u = .ok next ↔
      sps.format.pictureWidth < 2 ^ 16 ∧ sps.format.pictureHeight < 2 ^ 16 ∧
        Draft.of allComplete units (some sps.format) = next := by
  have config (d : DecoderConfig) :
      DecoderConfig.describe sps (Draft.of allComplete units none).config = .ok d ↔
        sps.format.pictureWidth < 2 ^ 16 ∧ sps.format.pictureHeight < 2 ^ 16 ∧
          (Draft.of allComplete units (some sps.format)).config = d :=
    describe_ok_iff (readSequence_wellFormed read)
  rw [describe, if_pos ⟨sequence, rfl⟩, read]
  simp only [bind_ok_iff, config, pure, Except.pure, Except.ok.injEq, and_assoc, exists_and_left,
    exists_eq_left']
  rfl

theorem describe_of_iff (told : Told units format) :
    (Draft.of allComplete units format).describe u = .ok next ↔
      ∃ other, Told (units ++ [u]) other ∧ Draft.of allComplete units other = next := by
  by_cases sequence : u.header.type = .sps
  · cases format with
    | some f =>
      -- Only the first sequence parameter set is read, so a later one need not be readable.
      rw [describe_known fun _ => rfl, (told.concat u).exists_iff, Except.ok.injEq]
    | none =>
      simp only [told_concat_iff told sequence]
      cases read : ParameterStore.readSequence u with
      | error fault =>
        rw [describe, if_pos ⟨sequence, rfl⟩]
        simp only [read, reduceCtorEq, false_and, exists_false]
      | ok sps =>
        simp only [describe_first_iff sequence read, Except.ok.injEq, exists_eq_left', and_assoc,
          exists_and_left]
  · rw [describe_known fun same => absurd same sequence, (told.concat_other sequence).exists_iff,
      Except.ok.injEq]

theorem add_of_iff (told : Told units format) (kept : isCollected u.header.type = true)
    (size : u.size < 2 ^ 32) :
    (Draft.of allComplete units format).add allComplete u = .ok next ↔
      u.size < 2 ^ 16 ∧ ∃ other, Told (units ++ [u]) other ∧
        Draft.of allComplete (units ++ [u]) other = next := by
  have put (other : Option SequenceFormat) :
      (∃ config, (Draft.of allComplete units other).config.addUnit u.header.type u.bytes
        (allComplete && isParameterSet u.header.type) = .ok config ∧
          { config, described := (Draft.of allComplete units other).described } = next) ↔
        u.size < 2 ^ 16 ∧ Draft.of allComplete (units ++ [u]) other = next := by
    simp only [addUnit_ok_iff size, and_assoc, exists_and_left, exists_eq_left']
    rw [Draft.of, addToGroups_grouped]
    rfl
  simp only [add, if_pos kept, bind_ok_iff, describe_of_iff told, pure, Except.pure,
    Except.ok.injEq, exists_exists_and_eq_and, put]
  exact ⟨fun ⟨other, told, short, same⟩ => ⟨short, other, told, same⟩,
    fun ⟨short, other, told, same⟩ => ⟨other, told, short, same⟩⟩

end Draft

theorem collected_concat_kept (kept : isCollected u.header.type = true) :
    collected (units ++ [u]) = collected units ++ [u] := by
  have one : collected [u] = [u] := List.filter_eq_self.mpr (List.forall_mem_singleton.mpr kept)
  rw [collected, List.filter_append, ← collected, ← collected, one]

theorem collected_concat_skipped (skipped : ¬ isCollected u.header.type = true) :
    collected (units ++ [u]) = collected units := by
  have none : collected [u] = [] :=
    List.filter_eq_nil_iff.mpr (List.forall_mem_singleton.mpr skipped)
  rw [collected, List.filter_append, ← collected, ← collected, none, List.append_nil]

theorem spsCount_grouped (groups : c.groups = grouped allComplete units) :
    c.spsCount = (ofType units .sps).length := by
  have kept : c.groups.filter (fun g => g.type = .sps) =
      ((typesOf units).filter (· = .sps)).map (groupOf allComplete units) := by
    rw [groups, grouped, List.filter_map]
    rfl
  rw [spsCount, kept, List.filter_eq, (typesOf_nodup units).count]
  by_cases known : .sps ∈ typesOf units
  · rw [if_pos known, List.replicate_one, List.map_singleton, List.flatMap_singleton]
    exact List.length_map _
  · rw [if_neg known, ofType_of_not_mem known]
    rfl

/-- All units can be added if those that are collected are short and tell a format, should a
sequence parameter set be among them. -/
theorem Draft.foldlM_add_iff (framable : ∀ u ∈ units, u.Framable) :
    units.foldlM (Draft.add allComplete) {} = .ok draft ↔
      (∀ u ∈ collected units, u.size < 2 ^ 16) ∧
        ∃ format, Told (collected units) format ∧
          Draft.of allComplete (collected units) format = draft := by
  induction units using List.reverseRecOn generalizing draft with
  | nil =>
    have told : Told (collected []) none := rfl
    rw [told.exists_iff, List.foldlM_nil]
    simp only [pure, Except.pure, Except.ok.injEq, collected, List.filter_nil, List.not_mem_nil,
      false_imp_iff, implies_true, true_and]
    rfl
  | append_singleton units u ih =>
    obtain ⟨others, last⟩ := List.forall_mem_append.mp framable
    have size := (List.forall_mem_singleton.mp last).size
    rw [List.foldlM_append, bind_ok_iff]
    simp only [ih others, List.foldlM_cons, List.foldlM_nil, bind_pure]
    by_cases kept : isCollected u.header.type = true
    · rw [collected_concat_kept kept]
      rw [List.forall_mem_append, List.forall_mem_singleton]
      constructor
      · rintro ⟨_, ⟨short, format, told, rfl⟩, added⟩
        obtain ⟨fits, later⟩ := (Draft.add_of_iff told kept size).mp added
        exact ⟨⟨short, fits⟩, later⟩
      · rintro ⟨⟨short, fits⟩, later⟩
        -- What all units tell is known here, but the draft before the last one is what is needed.
        obtain ⟨other, whole, -⟩ := id later
        obtain ⟨format, told⟩ := whole.of_concat
        have added := (Draft.add_of_iff told kept size).mpr ⟨fits, later⟩
        exact ⟨_, ⟨short, format, told, rfl⟩, added⟩
    · rw [collected_concat_skipped kept]
      simp only [Draft.add, if_neg kept, Except.ok.injEq, exists_eq_right]

theorem collect_ok_iff (allComplete : Bool) (framable : ∀ u ∈ units, u.Framable) :
    (do
      let draft ← units.foldlM (Draft.add allComplete) {}
      draft.config.checkSpsCount
      return draft.config) = .ok c ↔
    (∀ u ∈ collected units, u.size < 2 ^ 16) ∧
    (1 ≤ (ofType (collected units) .sps).length ∧
      (ofType (collected units) .sps).length ≤ maxSpsCount) ∧
    ∃ f, FirstFormat (collected units) f ∧
      { formatOf f with groups := grouped allComplete (collected units) } = c := by
  simp only [bind_ok_iff, Draft.foldlM_add_iff framable, checkSpsCount_ok_iff, pure, Except.pure,
    Except.ok.injEq]
  generalize collected units = units
  constructor
  · rintro ⟨_, ⟨short, format, told, rfl⟩, _, counted, rfl⟩
    rw [spsCount_grouped rfl] at counted
    refine ⟨short, counted, ?_⟩
    cases format with
    | none =>
      -- Without a sequence parameter set the draft is complete, but its count is refused.
      rw [told] at counted
      exact absurd counted.1 (Nat.not_succ_le_zero 0)
    | some f => exact ⟨f, told, rfl⟩
  · rintro ⟨short, counted, f, first, rfl⟩
    refine ⟨_, ⟨short, some f, first, rfl⟩, (), ?_, rfl⟩
    rw [spsCount_grouped rfl]
    exact counted

theorem grouped_types (allComplete : Bool) (units : List NalUnit) :
    (grouped allComplete units).map UnitGroup.type = typesOf units := by
  rw [grouped, List.map_map]
  exact List.map_id _

theorem grouped_partitions (allComplete : Bool) (units : List NalUnit) :
    Partitions allComplete units (grouped allComplete units) where
  distinct := by
    rw [grouped_types]
    exact typesOf_nodup units
  order := grouped_types allComplete units
  stable := List.forall_mem_map.mpr fun _ _ => rfl
  exhaustive := by
    rw [grouped_units]
    exact (arranged_perm units).map NalUnit.bytes
  complete := List.forall_mem_map.mpr fun _ _ => rfl

/-- A stream has a record if and only if up to 16 sequence parameter sets are among the collected
units, the first of them has a format with a size that fits, and every unit has a length that fits.
The groups of the record partition these units, and its other fields are those of that format. -/
theorem ofStream_partitions (bytes : List UInt8) (allComplete : Bool) :
    let units := collected (NalWalk.of bytes).units
    ((∃ c, ofStream bytes allComplete = .ok c) ↔
      (1 ≤ (ofType units .sps).length ∧ (ofType units .sps).length ≤ 16) ∧
      (∃ f, FirstFormat units f) ∧ ∀ u ∈ units, u.size ≤ 65535) ∧
    ∀ c, ofStream bytes allComplete = .ok c →
      Partitions allComplete units c.groups ∧
      ∃ f, FirstFormat units f ∧ { c with groups := [] } = formatOf f := by
  intro units
  have framable := fun u (member : u ∈ (NalWalk.of bytes).units) => NalWalk.framable_of_mem member
  have record_iff (c : DecoderConfig) := collect_ok_iff (c := c) allComplete framable
  constructor
  · constructor
    · rintro ⟨c, built⟩
      obtain ⟨short, counted, f, first, -⟩ := (record_iff c).mp built
      exact ⟨counted, ⟨f, first⟩, fun u member => Nat.le_of_lt_succ (short u member)⟩
    · rintro ⟨counted, ⟨f, first⟩, short⟩
      have fits : ∀ u ∈ units, u.size < 2 ^ 16 := fun u member =>
        Nat.lt_succ_of_le (short u member)
      exact ⟨_, (record_iff _).mpr ⟨fits, counted, f, first, rfl⟩⟩
  · intro c built
    obtain ⟨-, -, f, first, rfl⟩ := (record_iff c).mp built
    exact ⟨grouped_partitions allComplete units, f, first, rfl⟩

end EvcStream.DecoderConfig
