import EvcStream.Proofs.Coding.RoundTrip
import Mathlib.Tactic.MkIffOfInductiveProp
/-!
# Round trips of usability information

Usability information makes the round trip if its parts fit the widths they are coded in. Two
fields depend on another one: an aspect ratio has a width and height under the extended index only,
and the low delay flag is there only with a hypothetical reference decoder. What is decoded has
these properties and was read from its own code.
-/
namespace EvcStream

open Decoder (Exact)
open ExpGolomb (Codable)

@[mk_iff]
structure DeliverySchedule.WellFormed (s : DeliverySchedule) : Prop where
  bitRateValueMinus1 : Codable s.bitRateValueMinus1
  cpbSizeValueMinus1 : Codable s.cpbSizeValueMinus1

instance DeliverySchedule.decidableWellFormed (s : DeliverySchedule) : Decidable s.WellFormed :=
  decidable_of_iff' _ (DeliverySchedule.wellFormed_iff s)

theorem DeliverySchedule.roundTrip {s : DeliverySchedule} (valid : s.WellFormed) :
    RoundTrip 127 decode s.encode s := by
  unfold decode encode
  simp only [Coded.append_assoc]
  exact RoundTrip.mono (by decide) <|
    .bind (.ue valid.bitRateValueMinus1) <|
    .bind (.ue valid.cpbSizeValueMinus1) <|
    .last (.flag s.constantBitRate)

theorem DeliverySchedule.decode_exact : Exact decode encode WellFormed := by
  refine .bind .ue fun _ rate => ?_
  refine .bind .ue fun _ size => ?_
  refine .bind .flag fun _ _ => ?_
  exact .done rfl ⟨rate, size⟩

@[mk_iff]
structure HrdParameters.WellFormed (h : HrdParameters) : Prop where
  bitRateScale : h.bitRateScale < 2 ^ 4
  cpbSizeScale : h.cpbSizeScale < 2 ^ 4
  schedule : h.schedule.WellFormed
  alternatives_length : h.alternatives.length ≤ maxSchedules - 1
  alternatives : ∀ s ∈ h.alternatives, s.WellFormed
  initialCpbRemovalDelayLengthMinus1 : h.initialCpbRemovalDelayLengthMinus1 < 2 ^ 5
  cpbRemovalDelayLengthMinus1 : h.cpbRemovalDelayLengthMinus1 < 2 ^ 5
  dpbOutputDelayLengthMinus1 : h.dpbOutputDelayLengthMinus1 < 2 ^ 5
  timeOffsetLength : h.timeOffsetLength < 2 ^ 5

instance HrdParameters.decidableWellFormed (h : HrdParameters) : Decidable h.WellFormed :=
  decidable_of_iff' _ (HrdParameters.wellFormed_iff h)

theorem HrdParameters.roundTrip {h : HrdParameters} (valid : h.WellFormed) :
    RoundTrip 4155 decode h.encode h := by
  unfold decode encode
  simp only [Coded.append_assoc]
  exact RoundTrip.mono (by decide) <|
    .bind (.ueMax valid.alternatives_length) <|
    .bind (.u valid.bitRateScale) <|
    .bind (.u valid.cpbSizeScale) <|
    .bind (DeliverySchedule.roundTrip valid.schedule) <|
    .bind (.times rfl valid.alternatives_length fun s member =>
      DeliverySchedule.roundTrip (valid.alternatives s member)) <|
    .bind (.u valid.initialCpbRemovalDelayLengthMinus1) <|
    .bind (.u valid.cpbRemovalDelayLengthMinus1) <|
    .bind (.u valid.dpbOutputDelayLengthMinus1) <|
    .last (.u valid.timeOffsetLength)

theorem HrdParameters.decode_exact : Exact decode encode WellFormed := by
  refine .bind (.ueMax _) fun count few => ?_
  refine .bind (.u 4) fun _ rate => ?_
  refine .bind (.u 4) fun _ size => ?_
  refine .bind DeliverySchedule.decode_exact fun _ schedule => ?_
  refine .bind (.times count DeliverySchedule.decode_exact) fun alternatives ⟨counted, valid⟩ => ?_
  refine .bind (.u 5) fun _ initial => ?_
  refine .bind (.u 5) fun _ removal => ?_
  refine .bind (.u 5) fun _ output => ?_
  refine .bind (.u 5) fun _ offset => ?_
  refine .done ?_ ?_
  · rw [encode, counted]
  · exact ⟨rate, size, schedule, counted ▸ few, valid, initial, removal, output, offset⟩

@[mk_iff]
structure AspectRatio.WellFormed (a : AspectRatio) : Prop where
  idc : a.idc < 2 ^ 8
  extended : a.idc = extended → a.width < 2 ^ 16 ∧ a.height < 2 ^ 16
  indexed : a.idc ≠ AspectRatio.extended → a.width = 0 ∧ a.height = 0

instance AspectRatio.decidableWellFormed (a : AspectRatio) : Decidable a.WellFormed :=
  decidable_of_iff' _ (AspectRatio.wellFormed_iff a)

theorem AspectRatio.roundTrip {a : AspectRatio} (valid : a.WellFormed) :
    RoundTrip 40 decode a.encode a := by
  refine RoundTrip.mono (by decide) <|
    .bind (.u valid.idc) <|
    .ite
      (fun extended => .bind (.u (valid.extended extended).1) <|
        .last (.u (valid.extended extended).2))
      (fun indexed => .of_eq (.pure _) ?_)
  obtain ⟨idc, width, height⟩ := a
  obtain ⟨rfl, rfl⟩ : width = 0 ∧ height = 0 := valid.indexed indexed
  rfl

theorem AspectRatio.decode_exact : Exact decode encode WellFormed := by
  refine .bind (.u 8) fun idc bounded => ?_
  refine .ite (fun extended => ?_) (fun indexed => ?_)
  · refine .bind (.u 16) fun _ width => ?_
    refine .bind (.u 16) fun _ height => ?_
    refine .done ?_ ?_
    · rw [encode, if_pos extended, Coded.append_assoc]
    · exact ⟨bounded, fun _ => ⟨width, height⟩, fun other => absurd extended other⟩
  · refine .done ?_ ?_
    · rw [encode, if_neg indexed, Coded.append_empty]
    · exact ⟨bounded, fun extended => absurd extended indexed, fun _ => ⟨rfl, rfl⟩⟩

@[mk_iff]
structure ColourDescription.WellFormed (c : ColourDescription) : Prop where
  primaries : c.primaries < 2 ^ 8
  transfer : c.transfer < 2 ^ 8
  matrix : c.matrix < 2 ^ 8

instance ColourDescription.decidableWellFormed (c : ColourDescription) :
    Decidable c.WellFormed :=
  decidable_of_iff' _ (ColourDescription.wellFormed_iff c)

theorem ColourDescription.roundTrip {c : ColourDescription} (valid : c.WellFormed) :
    RoundTrip 24 decode c.encode c := by
  unfold decode encode
  simp only [Coded.append_assoc]
  exact RoundTrip.mono (by decide) <|
    .bind (.u valid.primaries) <|
    .bind (.u valid.transfer) <|
    .last (.u valid.matrix)

theorem ColourDescription.decode_exact : Exact decode encode WellFormed := by
  refine .bind (.u 8) fun _ primaries => ?_
  refine .bind (.u 8) fun _ transfer => ?_
  refine .bind (.u 8) fun _ matrix => ?_
  exact .done rfl ⟨primaries, transfer, matrix⟩

@[mk_iff]
structure VideoSignal.WellFormed (s : VideoSignal) : Prop where
  format : s.format < 2 ^ 3
  colour : ∀ c ∈ s.colour, c.WellFormed

instance VideoSignal.decidableWellFormed (s : VideoSignal) : Decidable s.WellFormed :=
  decidable_of_iff' _ (VideoSignal.wellFormed_iff s)

theorem VideoSignal.roundTrip {s : VideoSignal} (valid : s.WellFormed) :
    RoundTrip 29 decode s.encode s := by
  unfold decode encode
  simp only [Coded.append_assoc]
  exact RoundTrip.mono (by decide) <|
    .bind (.u valid.format) <|
    .bind (.flag s.fullRange) <|
    .last (.flagged fun c present => ColourDescription.roundTrip (valid.colour c present))

theorem VideoSignal.decode_exact : Exact decode encode WellFormed := by
  refine .bind (.u 3) fun _ format => ?_
  refine .bind .flag fun _ _ => ?_
  refine .bind (.flagged ColourDescription.decode_exact) fun _ colour => ?_
  exact .done rfl ⟨format, colour⟩

@[mk_iff]
structure ChromaLocation.WellFormed (c : ChromaLocation) : Prop where
  topField : c.topField ≤ 5
  bottomField : c.bottomField ≤ 5

instance ChromaLocation.decidableWellFormed (c : ChromaLocation) : Decidable c.WellFormed :=
  decidable_of_iff' _ (ChromaLocation.wellFormed_iff c)

theorem ChromaLocation.roundTrip {c : ChromaLocation} (valid : c.WellFormed) :
    RoundTrip 126 decode c.encode c :=
  RoundTrip.mono (by decide) <| .bind (.ueMax valid.topField) <| .last (.ueMax valid.bottomField)

theorem ChromaLocation.decode_exact : Exact decode encode WellFormed := by
  refine .bind (.ueMax 5) fun _ top => ?_
  refine .bind (.ueMax 5) fun _ bottom => ?_
  exact .done rfl ⟨top, bottom⟩

@[mk_iff]
structure Timing.WellFormed (t : Timing) : Prop where
  unitsInTick : t.unitsInTick < 2 ^ 32
  timeScale : t.timeScale < 2 ^ 32

instance Timing.decidableWellFormed (t : Timing) : Decidable t.WellFormed :=
  decidable_of_iff' _ (Timing.wellFormed_iff t)

theorem Timing.roundTrip {t : Timing} (valid : t.WellFormed) :
    RoundTrip 65 decode t.encode t := by
  unfold decode encode
  simp only [Coded.append_assoc]
  exact RoundTrip.mono (by decide) <|
    .bind (.u valid.unitsInTick) <|
    .bind (.u valid.timeScale) <|
    .last (.flag t.fixedPictureRate)

theorem Timing.decode_exact : Exact decode encode WellFormed := by
  refine .bind (.u 32) fun _ units => ?_
  refine .bind (.u 32) fun _ scale => ?_
  refine .bind .flag fun _ _ => ?_
  exact .done rfl ⟨units, scale⟩

@[mk_iff]
structure BitstreamRestriction.WellFormed (b : BitstreamRestriction) : Prop where
  maxBytesPerPictureDenom : Codable b.maxBytesPerPictureDenom
  maxBitsPerMbDenom : b.maxBitsPerMbDenom ≤ 16
  log2MaxMvLengthHorizontal : b.log2MaxMvLengthHorizontal ≤ 16
  log2MaxMvLengthVertical : b.log2MaxMvLengthVertical ≤ 16
  reorderedPictures : Codable b.reorderedPictures
  maxDecPictureBuffering : Codable b.maxDecPictureBuffering

instance BitstreamRestriction.decidableWellFormed (b : BitstreamRestriction) :
    Decidable b.WellFormed :=
  decidable_of_iff' _ (BitstreamRestriction.wellFormed_iff b)

theorem BitstreamRestriction.roundTrip {b : BitstreamRestriction} (valid : b.WellFormed) :
    RoundTrip 379 decode b.encode b := by
  unfold decode encode
  simp only [Coded.append_assoc]
  exact RoundTrip.mono (by decide) <|
    .bind (.flag b.motionVectorsOverPictureBoundaries) <|
    .bind (.ue valid.maxBytesPerPictureDenom) <|
    .bind (.ueMax valid.maxBitsPerMbDenom) <|
    .bind (.ueMax valid.log2MaxMvLengthHorizontal) <|
    .bind (.ueMax valid.log2MaxMvLengthVertical) <|
    .bind (.ue valid.reorderedPictures) <|
    .last (.ue valid.maxDecPictureBuffering)

theorem BitstreamRestriction.decode_exact : Exact decode encode WellFormed := by
  refine .bind .flag fun _ _ => ?_
  refine .bind .ue fun _ bytes => ?_
  refine .bind (.ueMax 16) fun _ bits => ?_
  refine .bind (.ueMax 16) fun _ horizontal => ?_
  refine .bind (.ueMax 16) fun _ vertical => ?_
  refine .bind .ue fun _ reordered => ?_
  refine .bind .ue fun _ buffered => ?_
  exact .done rfl ⟨bytes, bits, horizontal, vertical, reordered, buffered⟩

@[mk_iff]
structure VuiParameters.WellFormed (v : VuiParameters) : Prop where
  aspectRatio : ∀ a ∈ v.aspectRatio, a.WellFormed
  videoSignal : ∀ s ∈ v.videoSignal, s.WellFormed
  chromaLocation : ∀ c ∈ v.chromaLocation, c.WellFormed
  timing : ∀ t ∈ v.timing, t.WellFormed
  nalHrd : ∀ h ∈ v.nalHrd, h.WellFormed
  vclHrd : ∀ h ∈ v.vclHrd, h.WellFormed
  lowDelayHrd : v.hasHrd = false → v.lowDelayHrd = false
  restriction : ∀ b ∈ v.restriction, b.WellFormed

instance VuiParameters.decidableWellFormed (v : VuiParameters) : Decidable v.WellFormed :=
  decidable_of_iff' _ (VuiParameters.wellFormed_iff v)

theorem VuiParameters.roundTrip {v : VuiParameters} (valid : v.WellFormed) :
    RoundTrip 8965 decode v.encode v := by
  have lowDelay : RoundTrip 1 (if v.hasHrd then Decoder.flag else pure false)
      (if v.hasHrd then Coded.flag v.lowDelayHrd else Coded.empty) v.lowDelayHrd :=
    .guarded (fun _ => .flag v.lowDelayHrd)
      (fun without => valid.lowDelayHrd (eq_false_of_ne_true without))
  unfold decode encode
  simp only [Coded.append_assoc]
  exact RoundTrip.mono (by decide) <|
    .bind (.flagged fun a present => AspectRatio.roundTrip (valid.aspectRatio a present)) <|
    .bind (.flagged fun appropriate _ => .flag appropriate) <|
    .bind (.flagged fun s present => VideoSignal.roundTrip (valid.videoSignal s present)) <|
    .bind (.flagged fun c present => ChromaLocation.roundTrip (valid.chromaLocation c present)) <|
    .bind (.flag v.neutralChroma) <|
    .bind (.flag v.fieldSequence) <|
    .bind (.flagged fun t present => Timing.roundTrip (valid.timing t present)) <|
    .bind (.flagged fun h present => HrdParameters.roundTrip (valid.nalHrd h present)) <|
    .bind (.flagged fun h present => HrdParameters.roundTrip (valid.vclHrd h present)) <|
    .bind_ite lowDelay <|
    .bind (.flag v.pictureStructure) <|
    .last (.flagged fun b present =>
      BitstreamRestriction.roundTrip (valid.restriction b present))

theorem VuiParameters.decode_exact : Exact decode encode WellFormed := by
  refine .bind (.flagged AspectRatio.decode_exact) fun _ aspectRatio => ?_
  refine .bind (.flagged .flag) fun _ _ => ?_
  refine .bind (.flagged VideoSignal.decode_exact) fun _ signal => ?_
  refine .bind (.flagged ChromaLocation.decode_exact) fun _ location => ?_
  refine .bind .flag fun _ _ => ?_
  refine .bind .flag fun _ _ => ?_
  refine .bind (.flagged Timing.decode_exact) fun _ timing => ?_
  refine .bind (.flagged HrdParameters.decode_exact) fun nalHrd nal => ?_
  refine .bind (.flagged HrdParameters.decode_exact) fun vclHrd vcl => ?_
  refine .bind_ite (.guarded .flag) fun lowDelay ⟨_, absent⟩ => ?_
  refine .bind .flag fun _ _ => ?_
  refine .bind (.flagged BitstreamRestriction.decode_exact) fun _ restriction => ?_
  refine .done rfl ?_
  refine ⟨aspectRatio, signal, location, timing, nal, vcl, ?_, restriction⟩
  intro without
  exact absent (ne_true_of_eq_false without)

end EvcStream
