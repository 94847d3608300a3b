import EvcStream.Proofs.DecoderConfig.Partition
/-!
# Records of streams

The record of a stream holds the units that are collected from it, grouped by type. Their lengths
and the picture size have been checked by then, so only two things can keep the record from being
written: a bit depth of 16, which takes four bits, and a group of more units than two bytes count.
-/
namespace EvcStream.DecoderConfig

theorem mem_of_isCollected {type : NalUnitType} (kept : isCollected type = true) :
    type ∈ [NalUnitType.sps, .pps, .aps, .sei] := by
  cases type with
  | sps | pps | aps | sei => decide
  | _ => cases kept

/-- The format fields hold what a sequence parameter set can put there, or nothing. -/
structure Headed (c : DecoderConfig) : Prop where
  version : c.version = 1
  ranged : c.Ranged
  chromaFormatIdc : c.chromaFormatIdc ≤ 3
  lengthSizeMinusOne : c.lengthSizeMinusOne ≤ 3

theorem headed_start : Headed {} :=
  ⟨rfl, ⟨by decide, by decide, by decide, by decide, by decide, by decide⟩, by decide, by decide⟩

theorem Headed.of_groups {c : DecoderConfig} (headed : c.Headed) (groups : List UnitGroup) :
    Headed { c with groups } :=
  ⟨headed.version, ⟨headed.ranged.profileIdc, headed.ranged.levelIdc, headed.ranged.toolsetIdcHigh,
    headed.ranged.toolsetIdcLow, headed.ranged.pictureWidth, headed.ranged.pictureHeight⟩,
    headed.chromaFormatIdc, headed.lengthSizeMinusOne⟩

variable {units : List NalUnit} {bytes : List UInt8} {allComplete : Bool} {c : DecoderConfig}
  {draft : Draft} {f : SequenceFormat}

theorem FirstFormat.headed (h : FirstFormat units f) : Headed (formatOf f) := by
  have valid := h.wellFormed
  exact ⟨rfl, ⟨valid.profileIdc, valid.levelIdc, valid.toolsetIdcHigh, valid.toolsetIdcLow,
    h.width, h.height⟩, valid.chromaFormatIdc, Nat.le_refl 3⟩

namespace Draft

structure Holds (allComplete : Bool) (units : List NalUnit) (draft : Draft) : Prop where
  headed : draft.config.Headed
  groups : draft.config.groups = grouped allComplete units
  lengths : ∀ u ∈ units, u.bytes.length < 2 ^ 16

theorem holds_of_added (framable : ∀ u ∈ units, u.Framable)
    (added : units.foldlM (Draft.add allComplete) {} = .ok draft) :
    draft.Holds allComplete (collected units) := by
  obtain ⟨short, format, told, rfl⟩ := (foldlM_add_iff framable).mp added
  refine ⟨?_, rfl, short⟩
  cases format with
  | none => exact headed_start.of_groups _
  | some f => exact FirstFormat.headed told |>.of_groups _

end Draft

/-- What a record holds that has been collected from a stream. -/
structure CollectedFrom (bytes : List UInt8) (allComplete : Bool) (c : DecoderConfig) : Prop where
  headed : c.Headed
  groups : c.groups = grouped allComplete (collected (NalWalk.of bytes).units)
  lengths : ∀ u ∈ collected (NalWalk.of bytes).units, u.bytes.length < 2 ^ 16
  spsCount : 1 ≤ c.spsCount ∧ c.spsCount ≤ maxSpsCount

theorem ofStream_ok (built : ofStream bytes allComplete = .ok c) :
    CollectedFrom bytes allComplete c := by
  obtain ⟨draft, added, built⟩ := bind_ok built
  obtain ⟨done, counted, rest⟩ := bind_ok built
  cases rest
  have holds := Draft.holds_of_added (fun u member => NalWalk.framable_of_mem member) added
  exact ⟨holds.headed, holds.groups, holds.lengths, (checkSpsCount_ok_iff done).mp counted⟩

namespace CollectedFrom

theorem groups_length (h : CollectedFrom bytes allComplete c) : c.groups.length < 2 ^ 8 := by
  have few : typesOf (collected (NalWalk.of bytes).units) ⊆ [.sps, .pps, .aps, .sei] := by
    intro type member
    obtain ⟨u, found, rfl⟩ := mem_typesOf.mp member
    exact mem_of_isCollected (List.mem_filter.mp found).2
  have small := (typesOf_nodup _).length_le_of_subset few
  rw [h.groups, grouped, List.length_map]
  exact Nat.lt_of_le_of_lt small (by decide)

theorem unit_lengths (h : CollectedFrom bytes allComplete c) :
    ∀ g ∈ c.groups, ∀ unit ∈ g.units, unit.length < 2 ^ 16 := by
  rw [h.groups, grouped, List.forall_mem_map]
  intro type _
  rw [groupOf, List.forall_mem_map]
  intro u member
  exact h.lengths u (mem_ofType.mp member).1

/-- Only the depths and the counts of the groups are left to check. -/
theorem writable (h : CollectedFrom bytes allComplete c) (luma : c.bitDepthLumaMinus8 ≤ 7)
    (chroma : c.bitDepthChromaMinus8 ≤ 7) (counts : ∀ g ∈ c.groups, g.units.length < 2 ^ 16) :
    c.Writable :=
  ⟨h.spsCount, ⟨h.headed.chromaFormatIdc, luma, chroma, h.headed.lengthSizeMinusOne⟩,
    h.groups_length, fun g member => ⟨counts g member, h.unit_lengths g member⟩⟩

theorem decode_code (h : CollectedFrom bytes allComplete c) (writable : c.Writable) :
    decode c.code = .ok c := by
  have read := (read_spells h.headed.version h.headed.ranged writable).read []
  rw [List.append_nil] at read
  rw [decode, read]

theorem encode_deep (h : CollectedFrom bytes allComplete c)
    (deep : 7 < c.bitDepthLumaMinus8 ∨ 7 < c.bitDepthChromaMinus8) :
    c.encode = .error (.record .bitWidth) := by
  have wide : ¬ c.FitsBits := by
    rintro ⟨-, luma, chroma, -⟩
    omega
  unfold encode checkSpsCount checkBits
  rw [if_pos h.spsCount, if_neg wide]
  rfl

theorem encode_long (h : CollectedFrom bytes allComplete c) (luma : c.bitDepthLumaMinus8 ≤ 7)
    (chroma : c.bitDepthChromaMinus8 ≤ 7) (countable : ∀ g ∈ c.groups, g.units.length < 2 ^ 32)
    (long : ∃ g ∈ c.groups, 2 ^ 16 ≤ g.units.length) :
    ∃ g ∈ c.groups, 2 ^ 16 ≤ g.units.length ∧
      c.encode = .error (.record (.doesNotFit "numNalus" g.units.length)) := by
  have bits : c.FitsBits := ⟨h.headed.chromaFormatIdc, luma, chroma, h.headed.lengthSizeMinusOne⟩
  cases groups : c.groups.mapM UnitGroup.encode with
  | ok written =>
    obtain ⟨g, member, large⟩ := long
    obtain ⟨bytes, encoded⟩ := mapM_ok groups g member
    have lengths : ∀ unit ∈ g.units, unit.length < 2 ^ 32 := fun unit found =>
      Nat.lt_trans (h.unit_lengths g member unit found) (by decide)
    have writable := UnitGroup.writable_of_encode ⟨countable g member, lengths⟩ encoded
    exact absurd writable.count (Nat.not_lt.mpr large)
  | error error =>
    obtain ⟨g, member, failed⟩ := mapM_error groups
    have large : 2 ^ 16 ≤ g.units.length := by
      apply Nat.le_of_not_lt
      intro small
      rw [UnitGroup.encode_eq ⟨small, h.unit_lengths g member⟩] at failed
      cases failed
    rw [UnitGroup.encode, fit_of_le large (countable g member)] at failed
    cases failed
    refine ⟨g, member, large, ?_⟩
    unfold encode checkSpsCount checkBits
    rw [if_pos h.spsCount, if_pos bits, fit_of_lt (by decide) h.groups_length, groups]
    rfl

end CollectedFrom

/-- The record of a stream is written and read back if both depths take three bits and no group
has more units than two bytes count. It is refused if a depth takes more, and else if a group has
more units, up to the numbers that are counted at all. -/
theorem encode_ofStream (built : ofStream bytes allComplete = .ok c) :
    (c.bitDepthLumaMinus8 ≤ 7 → c.bitDepthChromaMinus8 ≤ 7 →
      (∀ g ∈ c.groups, g.units.length < 2 ^ 16) →
      ∃ written, c.encode = .ok written ∧ decode written = .ok c) ∧
    (7 < c.bitDepthLumaMinus8 ∨ 7 < c.bitDepthChromaMinus8 →
      c.encode = .error (.record .bitWidth)) ∧
    (c.bitDepthLumaMinus8 ≤ 7 → c.bitDepthChromaMinus8 ≤ 7 →
      (∀ g ∈ c.groups, g.units.length < 2 ^ 32) → (∃ g ∈ c.groups, 2 ^ 16 ≤ g.units.length) →
      ∃ g ∈ c.groups, 2 ^ 16 ≤ g.units.length ∧
        c.encode = .error (.record (.doesNotFit "numNalus" g.units.length))) := by
  have h := ofStream_ok built
  refine ⟨?_, h.encode_deep, h.encode_long⟩
  intro luma chroma counts
  have writable := h.writable luma chroma counts
  exact ⟨c.code, encode_eq writable, h.decode_code writable⟩

/-- The second sequence parameter set goes to the first, in front of the message between them. -/
theorem encode_ofStream_regrouped :
    let sps : List UInt8 := [50, 0, 128, 0, 0, 0, 0, 0, 0, 0, 0, 0, 32, 32, 129, 7, 0, 7, 16]
    let bytes : List UInt8 :=
      [0, 0, 0, 19] ++ sps ++ [0, 0, 0, 2, 58, 0] ++ [0, 0, 0, 19] ++ sps ++
        [0, 0, 0, 4, 52, 0, 251, 4]
    let c : DecoderConfig :=
      { chromaFormatIdc := 1
        pictureWidth := 64
        pictureHeight := 64
        groups := [{ isComplete := true, type := .sps, units := [sps, sps] },
          { isComplete := false, type := .sei, units := [[58, 0]] },
          { isComplete := true, type := .pps, units := [[52, 0, 251, 4]] }] }
    ofStream bytes true = .ok c ∧ ∃ written, c.encode = .ok written ∧ decode written = .ok c := by
  intro sps bytes c
  have built : ofStream bytes true = .ok c := ok_of_toOption (by decide +kernel)
  have counts : ∀ g ∈ c.groups, g.units.length < 2 ^ 16 := by decide
  exact ⟨built, (encode_ofStream built).1 (by decide) (by decide) counts⟩

theorem foldlM_unplaced (units : List NalUnit) (draft : Draft) :
    (units.map NalUnit.unplaced).foldlM (Draft.add allComplete) draft =
      units.foldlM (Draft.add allComplete) draft :=
  List.foldlM_map

theorem ofStream_framed (framable : ∀ u ∈ units, u.Framable) :
    ofStream (units.flatMap NalUnit.framed) allComplete = (do
      let draft ← units.foldlM (Draft.add allComplete) {}
      draft.config.checkSpsCount
      return draft.config) := by
  have met := (NalWalk.startingAt_framed framable 0).2
  rw [ofStream, NalWalk.of, ← foldlM_unplaced, met, foldlM_unplaced]

/-- A sequence parameter set and as many copies of a unit of another type. -/
def crowd (first other : NalUnit) (count : Nat) : List NalUnit :=
  first :: List.replicate count other

section
variable {first other : NalUnit} {sps : SequenceParameterSet} (count : Nat)

theorem forall_mem_crowd {p : NalUnit → Prop} (both : ∀ u ∈ [first, other], p u) :
    ∀ u ∈ crowd first other count, p u := by
  intro u member
  apply both
  rcases List.mem_cons.mp member with rfl | copy
  · exact List.mem_cons_self
  · exact List.eq_of_mem_replicate copy ▸ List.mem_cons_of_mem first List.mem_cons_self

theorem framed_crowd {front back : List UInt8} (framed : first.framed = front)
    (copies : other.framed = back) :
    (crowd first other count).flatMap NalUnit.framed =
      front ++ (List.replicate count back).flatten := by
  rw [crowd, List.flatMap_cons, List.flatMap_def, List.map_replicate, framed, copies]

theorem ofType_crowd (sequence : first.header.type = .sps) (differs : other.header.type ≠ .sps) :
    ofType (crowd first other count) .sps = [first] ∧
      ofType (crowd first other count) other.header.type = List.replicate count other := by
  have front : crowd first other count = [first] ++ List.replicate count other := rfl
  have copies : ∀ u ∈ List.replicate count other, u.header.type = other.header.type :=
    fun u member => List.eq_of_mem_replicate member ▸ rfl
  rw [front, ofType_append, ofType_append]
  constructor
  · have none : ∀ u ∈ List.replicate count other, u.header.type ≠ .sps := fun u member =>
      List.eq_of_mem_replicate member ▸ differs
    rw [ofType_of_all (List.forall_mem_singleton.mpr sequence), ofType_of_none none,
      List.append_nil]
  · have none : ∀ u ∈ [first], u.header.type ≠ other.header.type := by
      rw [List.forall_mem_singleton, sequence]
      exact differs.symm
    rw [ofType_of_none none, ofType_of_all copies, List.nil_append]

theorem typesOf_crowd (sequence : first.header.type = .sps) (differs : other.header.type ≠ .sps)
    (nonzero : count ≠ 0) : typesOf (crowd first other count) = [.sps, other.header.type] := by
  obtain ⟨more, rfl⟩ := Nat.exists_eq_succ_of_ne_zero nonzero
  have kept : ∀ type ∈ List.replicate (more + 1) other.header.type, (!type == .sps) = true := by
    intro type member
    rw [List.eq_of_mem_replicate member]
    simpa using differs
  have repeated : ∀ type ∈ List.replicate more other.header.type,
      ¬ (!type == other.header.type) = true := by
    intro type member
    simp [List.eq_of_mem_replicate member]
  rw [typesOf, crowd, List.map_cons, List.map_replicate, sequence, List.eraseDups_cons,
    List.filter_eq_self.mpr kept, List.replicate_succ, List.eraseDups_cons,
    List.filter_eq_nil_iff.mpr repeated, List.eraseDups_nil]

theorem grouped_crowd (allComplete : Bool) (sequence : first.header.type = .sps)
    (differs : other.header.type ≠ .sps) (nonzero : count ≠ 0) :
    grouped allComplete (crowd first other count) =
      [{ isComplete := allComplete, type := .sps, units := [first.bytes] },
        { isComplete := allComplete && isParameterSet other.header.type
          type := other.header.type
          units := List.replicate count other.bytes }] := by
  obtain ⟨one, copies⟩ := ofType_crowd count sequence differs
  rw [grouped, typesOf_crowd count sequence differs nonzero, List.map_cons, List.map_singleton,
    groupOf, groupOf, one, copies, List.map_singleton, List.map_replicate]
  simp [isParameterSet]

/-- A sequence parameter set that can be described, and a unit of another type to collect. -/
structure Crowdable (first other : NalUnit) (sps : SequenceParameterSet) : Prop where
  sequence : first.header.type = .sps
  differs : other.header.type ≠ .sps
  kept : isCollected other.header.type = true
  read : ParameterStore.readSequence first = .ok sps
  width : sps.format.pictureWidth < 2 ^ 16
  height : sps.format.pictureHeight < 2 ^ 16
  framable : ∀ u ∈ [first, other], u.Framable
  short : ∀ u ∈ [first, other], u.bytes.length < 2 ^ 16

theorem Crowdable.ofStream_crowd (h : Crowdable first other sps) (allComplete : Bool) :
    ofStream ((crowd first other count).flatMap NalUnit.framed) allComplete =
      .ok { formatOf sps.format with
        groups := grouped allComplete (crowd first other count) } := by
  have framable := forall_mem_crowd count h.framable
  have both : ∀ u ∈ [first, other], isCollected u.header.type = true :=
    List.forall_mem_cons.mpr ⟨by rw [h.sequence]; rfl, List.forall_mem_singleton.mpr h.kept⟩
  have every : collected (crowd first other count) = crowd first other count :=
    List.filter_eq_self.mpr (forall_mem_crowd count both)
  have sequences := (ofType_crowd count h.sequence h.differs).1
  rw [ofStream_framed framable, collect_ok_iff allComplete framable, every, sequences]
  have one : 1 ≤ [first].length ∧ [first].length ≤ maxSpsCount := by
    rw [List.length_singleton]
    decide
  refine ⟨forall_mem_crowd count h.short, one, sps.format, ⟨?_, h.width, h.height⟩, rfl⟩
  exact ⟨first, sps, by rw [sequences, List.head?_cons], h.read, rfl⟩

/-- With more copies than two bytes count, it is not written. -/
theorem Crowdable.encode_ne (h : Crowdable first other sps) (luma : sps.format.bitDepthLumaMinus8 ≤ 7)
    (chroma : sps.format.bitDepthChromaMinus8 ≤ 7) (many : 2 ^ 16 ≤ count)
    (countable : count < 2 ^ 32) (allComplete : Bool) (written : List UInt8) :
    { formatOf sps.format with
      groups := grouped allComplete (crowd first other count) }.encode ≠ .ok written := by
  have nonzero : count ≠ 0 := Nat.ne_of_gt (Nat.lt_of_lt_of_le (by decide) many)
  have groups := grouped_crowd count allComplete h.sequence h.differs nonzero
  have counts : ∀ g ∈ grouped allComplete (crowd first other count), g.units.length < 2 ^ 32 := by
    rw [groups]
    refine List.forall_mem_cons.mpr ⟨?_, List.forall_mem_singleton.mpr ?_⟩
    · exact Nat.lt_trans (Nat.lt_succ_self 1) (by decide)
    · rwa [List.length_replicate]
  have crowded : ∃ g ∈ grouped allComplete (crowd first other count),
      2 ^ 16 ≤ g.units.length := by
    rw [groups]
    refine ⟨_, List.mem_cons_of_mem _ List.mem_cons_self, ?_⟩
    rwa [List.length_replicate]
  have collected := ofStream_ok (h.ofStream_crowd count allComplete)
  obtain ⟨g, -, -, failed⟩ := collected.encode_long luma chroma counts crowded
  rw [failed]
  intro refused
  cases refused

end

/-- The parameter set of a small picture with the smallest bit depths. -/
def plainSequence : SequenceParameterSet :=
  { format := { chromaFormatIdc := 1, pictureWidth := 64, pictureHeight := 64 } }

def plainSequenceUnit : NalUnit :=
  { header := .plain .sps 0
    bytes := [50, 0, 128, 0, 0, 0, 0, 0, 0, 0, 0, 0, 32, 32, 129, 7, 0, 7, 16] }

theorem crowdable_plain {other : NalUnit} (differs : other.header.type ≠ .sps)
    (kept : isCollected other.header.type = true) (framable : other.Framable)
    (short : other.bytes.length < 2 ^ 16) : Crowdable plainSequenceUnit other plainSequence where
  sequence := rfl
  differs := differs
  kept := kept
  read := ok_of_toOption (by decide +kernel)
  width := by decide
  height := by decide
  framable := List.forall_mem_cons.mpr
    ⟨⟨ok_of_toOption (by decide), by decide⟩, List.forall_mem_singleton.mpr framable⟩
  short := List.forall_mem_cons.mpr ⟨by decide, List.forall_mem_singleton.mpr short⟩

/-- A depth of 16 takes a fourth bit, and 65536 messages take a third byte to count. -/
theorem encode_ofStream_refused :
    let deep : List UInt8 :=
      [0, 0, 0, 20, 50, 0, 128, 0, 0, 0, 0, 0, 0, 0, 0, 0, 32, 32, 129, 4, 76, 0, 28, 64]
    let crowded : List UInt8 :=
      [0, 0, 0, 19, 50, 0, 128, 0, 0, 0, 0, 0, 0, 0, 0, 0, 32, 32, 129, 7, 0, 7, 16] ++
        (List.replicate (2 ^ 16) [0, 0, 0, 2, 58, 0]).flatten
    (∃ c, ofStream deep true = .ok c ∧ c.encode = .error (.record .bitWidth)) ∧
      ∃ c, ofStream crowded true = .ok c ∧ c.bitDepthLumaMinus8 = 0 ∧ c.bitDepthChromaMinus8 = 0 ∧
        ∀ written, c.encode ≠ .ok written := by
  intro deep crowded
  constructor
  · refine ⟨{ formatOf plainSequence.format with bitDepthLumaMinus8 := 8, groups := [
      { isComplete := true
        type := .sps
        units := [[50, 0, 128, 0, 0, 0, 0, 0, 0, 0, 0, 0, 32, 32, 129, 4, 76, 0, 28, 64]] }] },
      ?_, rfl⟩
    exact ok_of_toOption (by decide +kernel)
  · let message : NalUnit := { header := .plain .sei 0, bytes := [58, 0] }
    have framed : (crowd plainSequenceUnit message (2 ^ 16)).flatMap NalUnit.framed = crowded :=
      framed_crowd _ (by decide) (by decide)
    have small : Crowdable plainSequenceUnit message plainSequence :=
      crowdable_plain (by decide) rfl ⟨ok_of_toOption (by decide), by decide⟩ (by decide)
    have built := small.ofStream_crowd (2 ^ 16) true
    rw [framed] at built
    refine ⟨_, built, rfl, rfl, ?_⟩
    exact small.encode_ne (2 ^ 16) (Nat.zero_le 7) (Nat.zero_le 7) (Nat.le_refl _) (by decide) true

end EvcStream.DecoderConfig
