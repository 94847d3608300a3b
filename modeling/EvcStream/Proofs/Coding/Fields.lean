import EvcStream.Picture
import EvcStream.Proofs.Bits.Moving
/-!
# Decoders made of fields

The decoders of all coded structures are put together from the kinds of fields that there are, and
give up by themselves only at a reference picture that is out of range. What holds of the fields
and of any two parts in a row so holds of every structure: it is decided by the bits it reads, and
any fewer of them run out.
-/
namespace EvcStream

def Fault.isCoding : Fault → Bool
  | bits _ | refPicOutOfRange _ => true
  | _ => false

namespace Decoder

/-- The part is a field, a row of such parts, or nothing but a value or a fault of the coding. -/
inductive Fielded : {α : Type} → Decoder α → Prop where
  | pure {α : Type} (value : α) : Fielded (Pure.pure value)
  | throw {α : Type} {fault : Fault} (coding : fault.isCoding = true) :
      Fielded (MonadExcept.throw fault : Decoder α)
  | flag : Fielded Decoder.flag
  | u (width : Nat) : Fielded (Decoder.u width)
  | ue : Fielded Decoder.ue
  | ueMax (high : Nat) : Fielded (Decoder.ueMax high)
  | se : Fielded Decoder.se
  | bind {α β : Type} {part : Decoder α} {next : α → Decoder β} (first : Fielded part)
      (later : ∀ a, Fielded (next a)) : Fielded (part >>= next)

namespace Fielded

variable {α β : Type} {part other : Decoder α}

theorem map {f : α → β} (first : Fielded part) : Fielded (f <$> part) :=
  bind first fun a => pure (f a)

theorem ite {condition : Prop} [Decidable condition] (first : Fielded part)
    (second : Fielded other) : Fielded (if condition then part else other) := by
  by_cases holds : condition
  · rwa [if_pos holds]
  · rwa [if_neg holds]

theorem bind_ite {condition : Prop} [Decidable condition] {next : α → Decoder β}
    (first : Fielded (if condition then part else other)) (later : ∀ a, Fielded (next a)) :
    Fielded (if condition then part >>= next else other >>= next) := by
  rw [← apply_ite (· >>= next)]
  exact bind first later

theorem optional (coded : Bool) (first : Fielded part) : Fielded (Decoder.optional coded part) :=
  ite (map first) (pure none)

theorem flagged (first : Fielded part) : Fielded (Decoder.flagged part) :=
  bind flag fun coded => optional coded first

theorem times (count : Nat) (first : Fielded part) : Fielded (Decoder.times count part) := by
  induction count with
  | zero => exact pure []
  | succ count ih =>
    refine bind first fun a => ?_
    refine bind ih fun others => ?_
    exact pure (a :: others)

end Fielded
end Decoder

open Decoder (Fielded)

theorem RefPicList.decodeStep_fielded : Fielded RefPicList.decodeStep := by
  refine .bind .ue fun _ => ?_
  refine .ite (.pure _) ?_
  refine .bind .flag fun _ => ?_
  exact .ite (.pure _) (.pure _)

theorem RefPicList.decodeFrom_fielded (count : Nat) (previous : Int) :
    Fielded (decodeFrom count previous) := by
  induction count generalizing previous with
  | zero => exact .pure []
  | succ count ih =>
    refine .bind decodeStep_fielded fun step => ?_
    refine .ite ?_ (.throw rfl)
    refine .bind (ih (previous + step)) fun others => ?_
    exact .pure _

theorem RefPicList.decode_fielded : Fielded RefPicList.decode := by
  refine .bind (.ueMax _) fun count => ?_
  refine .bind (decodeFrom_fielded count 0) fun distances => ?_
  exact .pure _

theorem RefPicLists.decode_fielded : Fielded RefPicLists.decode := by
  refine .bind (.ueMax _) fun count => ?_
  refine .bind (.times count RefPicList.decode_fielded) fun lists => ?_
  exact .pure _

theorem ListedReferences.decode_fielded : Fielded ListedReferences.decode := by
  refine .bind .ue fun _ => ?_
  refine .bind .flag fun _ => ?_
  refine .bind .flag fun _ => ?_
  refine .bind RefPicLists.decode_fielded fun _ => ?_
  refine .bind (.optional _ RefPicLists.decode_fielded) fun _ => ?_
  exact .pure _

theorem ReferenceStructure.decode_fielded (isListed : Bool) :
    Fielded (ReferenceStructure.decode isListed) :=
  .ite (.map ListedReferences.decode_fielded) (.map .ue)

theorem QpTable.decodePoint_fielded : Fielded QpTable.decodePoint := by
  refine .bind (.u 6) fun _ => ?_
  refine .bind .se fun _ => ?_
  exact .pure _

theorem QpTable.decode_fielded : Fielded QpTable.decode := by
  refine .bind (.ueMax _) fun _ => ?_
  refine .bind (.times _ decodePoint_fielded) fun _ => ?_
  exact .pure _

theorem ChromaQpTables.decode_fielded : Fielded ChromaQpTables.decode := by
  refine .bind .flag fun _ => ?_
  refine .bind .flag fun _ => ?_
  refine .bind QpTable.decode_fielded fun _ => ?_
  refine .bind (.optional _ QpTable.decode_fielded) fun _ => ?_
  exact .pure _

theorem DeliverySchedule.decode_fielded : Fielded DeliverySchedule.decode := by
  refine .bind .ue fun _ => ?_
  refine .bind .ue fun _ => ?_
  refine .bind .flag fun _ => ?_
  exact .pure _

theorem HrdParameters.decode_fielded : Fielded HrdParameters.decode := by
  refine .bind (.ueMax _) fun count => ?_
  refine .bind (.u 4) fun _ => ?_
  refine .bind (.u 4) fun _ => ?_
  refine .bind DeliverySchedule.decode_fielded fun _ => ?_
  refine .bind (.times count DeliverySchedule.decode_fielded) fun _ => ?_
  refine .bind (.u 5) fun _ => ?_
  refine .bind (.u 5) fun _ => ?_
  refine .bind (.u 5) fun _ => ?_
  refine .bind (.u 5) fun _ => ?_
  exact .pure _

theorem AspectRatio.decode_fielded : Fielded AspectRatio.decode := by
  refine .bind (.u 8) fun _ => ?_
  refine .ite ?_ (.pure _)
  refine .bind (.u 16) fun _ => ?_
  refine .bind (.u 16) fun _ => ?_
  exact .pure _

theorem ColourDescription.decode_fielded : Fielded ColourDescription.decode := by
  refine .bind (.u 8) fun _ => ?_
  refine .bind (.u 8) fun _ => ?_
  refine .bind (.u 8) fun _ => ?_
  exact .pure _

theorem VideoSignal.decode_fielded : Fielded VideoSignal.decode := by
  refine .bind (.u 3) fun _ => ?_
  refine .bind .flag fun _ => ?_
  refine .bind (.flagged ColourDescription.decode_fielded) fun _ => ?_
  exact .pure _

theorem ChromaLocation.decode_fielded : Fielded ChromaLocation.decode := by
  refine .bind (.ueMax 5) fun _ => ?_
  refine .bind (.ueMax 5) fun _ => ?_
  exact .pure _

theorem Timing.decode_fielded : Fielded Timing.decode := by
  refine .bind (.u 32) fun _ => ?_
  refine .bind (.u 32) fun _ => ?_
  refine .bind .flag fun _ => ?_
  exact .pure _

theorem BitstreamRestriction.decode_fielded : Fielded BitstreamRestriction.decode := by
  refine .bind .flag fun _ => ?_
  refine .bind .ue fun _ => ?_
  refine .bind (.ueMax 16) fun _ => ?_
  refine .bind (.ueMax 16) fun _ => ?_
  refine .bind (.ueMax 16) fun _ => ?_
  refine .bind .ue fun _ => ?_
  refine .bind .ue fun _ => ?_
  exact .pure _

theorem VuiParameters.decode_fielded : Fielded VuiParameters.decode := by
  have lowDelay (coded : Bool) : Fielded (if coded then Decoder.flag else Pure.pure false) :=
    .ite .flag (.pure false)
  refine .bind (.flagged AspectRatio.decode_fielded) fun _ => ?_
  refine .bind (.flagged .flag) fun _ => ?_
  refine .bind (.flagged VideoSignal.decode_fielded) fun _ => ?_
  refine .bind (.flagged ChromaLocation.decode_fielded) fun _ => ?_
  refine .bind .flag fun _ => ?_
  refine .bind .flag fun _ => ?_
  refine .bind (.flagged Timing.decode_fielded) fun _ => ?_
  refine .bind (.flagged HrdParameters.decode_fielded) fun nal => ?_
  refine .bind (.flagged HrdParameters.decode_fielded) fun vcl => ?_
  refine .bind_ite (lowDelay (nal.isSome || vcl.isSome)) fun _ => ?_
  refine .bind .flag fun _ => ?_
  refine .bind (.flagged BitstreamRestriction.decode_fielded) fun _ => ?_
  exact .pure _

theorem SequenceFormat.decode_fielded : Fielded SequenceFormat.decode := by
  refine .bind (.ueMax _) fun _ => ?_
  refine .bind (.u 8) fun _ => ?_
  refine .bind (.u 8) fun _ => ?_
  refine .bind (.u 32) fun _ => ?_
  refine .bind (.u 32) fun _ => ?_
  refine .bind (.ueMax 3) fun _ => ?_
  refine .bind .ue fun _ => ?_
  refine .bind .ue fun _ => ?_
  refine .bind (.ueMax 8) fun _ => ?_
  refine .bind (.ueMax 8) fun _ => ?_
  exact .pure _

theorem BlockPartition.decode_fielded : Fielded BlockPartition.decode := by
  refine .bind .ue fun _ => ?_
  refine .bind .ue fun _ => ?_
  refine .bind .ue fun _ => ?_
  refine .bind .ue fun _ => ?_
  refine .bind .ue fun _ => ?_
  exact .pure _

theorem SplitOrder.decode_fielded : Fielded SplitOrder.decode := by
  refine .bind .ue fun _ => ?_
  refine .bind .ue fun _ => ?_
  exact .pure _

theorem MotionTools.decode_fielded : Fielded MotionTools.decode := by
  refine .bind .flag fun _ => ?_
  refine .ite ?_ (.pure _)
  refine .bind .flag fun _ => ?_
  refine .bind .flag fun _ => ?_
  refine .bind .flag fun _ => ?_
  refine .bind .flag fun _ => ?_
  refine .bind .flag fun _ => ?_
  exact .pure _

theorem IntraTools.decode_fielded : Fielded IntraTools.decode := by
  refine .bind (.flagged .ue) fun _ => ?_
  exact .pure _

theorem LoopTools.decode_fielded : Fielded LoopTools.decode := by
  refine .bind .flag fun _ => ?_
  refine .bind .flag fun _ => ?_
  refine .bind .flag fun _ => ?_
  exact .pure _

theorem SubGop.decode_fielded : Fielded SubGop.decode := by
  refine .bind (.ueMax _) fun _ => ?_
  refine .ite ?_ (.pure _)
  refine .bind .ue fun _ => ?_
  exact .pure _

theorem PictureCropping.decode_fielded : Fielded PictureCropping.decode := by
  refine .bind .ue fun _ => ?_
  refine .bind .ue fun _ => ?_
  refine .bind .ue fun _ => ?_
  refine .bind .ue fun _ => ?_
  exact .pure _

theorem SequenceParameterSet.decode_fielded : Fielded SequenceParameterSet.decode := by
  refine .bind SequenceFormat.decode_fielded fun _ => ?_
  refine .bind (.flagged BlockPartition.decode_fielded) fun _ => ?_
  refine .bind (.flagged SplitOrder.decode_fielded) fun _ => ?_
  refine .bind MotionTools.decode_fielded fun _ => ?_
  refine .bind (.flagged IntraTools.decode_fielded) fun _ => ?_
  refine .bind (.flagged .flag) fun _ => ?_
  refine .bind (.flagged .flag) fun _ => ?_
  refine .bind LoopTools.decode_fielded fun _ => ?_
  refine .bind .flag fun listsReferences => ?_
  refine .bind .flag fun _ => ?_
  refine .bind .flag fun _ => ?_
  refine .bind .flag fun _ => ?_
  refine .bind (.optional _ (.ueMax _)) fun _ => ?_
  refine .bind_ite (.ite SubGop.decode_fielded (.pure _)) fun _ => ?_
  refine .bind (ReferenceStructure.decode_fielded listsReferences) fun _ => ?_
  refine .bind (.flagged PictureCropping.decode_fielded) fun _ => ?_
  refine .bind_ite (.ite (.pure _) (.flagged ChromaQpTables.decode_fielded)) fun _ => ?_
  refine .bind (.flagged VuiParameters.decode_fielded) fun _ => ?_
  exact .pure _

theorem TileGrid.decode_fielded : Fielded TileGrid.decode := by
  refine .bind (.ueMax _) fun _ => ?_
  refine .bind (.ueMax _) fun _ => ?_
  exact .pure _

theorem TileSpacing.decode_fielded (grid : TileGrid) :
    Fielded (TileSpacing.decode grid) := by
  refine .bind (.times _ .ue) fun _ => ?_
  refine .bind (.times _ .ue) fun _ => ?_
  exact .pure _

theorem Tiling.decode_fielded (grid : TileGrid) :
    Fielded (Tiling.decode grid) := by
  refine .bind .flag fun _ => ?_
  refine .bind (.optional _ (TileSpacing.decode_fielded grid)) fun _ => ?_
  refine .bind .flag fun _ => ?_
  refine .bind .ue fun _ => ?_
  exact .pure _

theorem PictureParameterSet.decodeWith_fielded (id spsId : Nat) :
    Fielded (PictureParameterSet.decodeWith id spsId) := by
  have tileIds (grid : TileGrid) (length : Nat) : Fielded (decodeTileIds grid length) :=
    .times _ (.times _ (.u length))
  refine .bind .ue fun _ => ?_
  refine .bind .ue fun _ => ?_
  refine .bind .ue fun _ => ?_
  refine .bind .flag fun _ => ?_
  refine .bind .flag fun _ => ?_
  refine .bind_ite (.ite (.pure _) TileGrid.decode_fielded) fun grid => ?_
  refine .bind (.optional _ (Tiling.decode_fielded grid)) fun _ => ?_
  refine .bind (.ueMax 31) fun length => ?_
  refine .bind (.flagged (tileIds grid (length + 1))) fun _ => ?_
  refine .bind (.flagged (.u 5)) fun _ => ?_
  refine .bind .flag fun _ => ?_
  refine .bind .flag fun _ => ?_
  refine .bind (.flagged .ue) fun _ => ?_
  exact .pure _

namespace SliceLoopFilter

theorem decodeLuma_fielded (chromaFormatIdc : Nat) : Fielded (decodeLuma chromaFormatIdc) := by
  refine .bind .flag fun _ => ?_
  refine .ite ?_ (.pure _)
  refine .bind (.u 5) fun _ => ?_
  refine .bind .flag fun _ => ?_
  refine .bind (.u 2) fun _ => ?_
  refine .ite ?_ (.pure _)
  refine .bind (.u 5) fun _ => ?_
  exact .pure _

theorem decodeChroma_fielded (enabled : Bool) : Fielded (decodeChroma enabled) := by
  refine .ite ?_ (.pure _)
  refine .bind (.u 5) fun _ => ?_
  refine .bind .flag fun _ => ?_
  exact .pure _

theorem decode_fielded (chromaFormatIdc : Nat) : Fielded (decode chromaFormatIdc) := by
  refine .bind (decodeLuma_fielded chromaFormatIdc) fun _ => ?_
  refine .ite ?_ (.pure _)
  refine .bind_ite (.ite (.pure _) (.u 2)) fun _ => ?_
  refine .bind (decodeChroma_fielded _) fun _ => ?_
  refine .bind (decodeChroma_fielded _) fun _ => ?_
  exact .pure _

end SliceLoopFilter

theorem SliceType.decode_fielded : Fielded SliceType.decode := by
  refine .bind (.ueMax 2) fun code => ?_
  split <;> exact .pure _

theorem TileSpan.decode_fielded (pps : PictureParameterSet) : Fielded (TileSpan.decode pps) := by
  refine .bind_ite (.ite .flag (.pure _)) fun _ => ?_
  refine .ite ?_ ?_
  · refine .bind (.ueMax _) fun remainingMinus1 => ?_
    refine .bind (.times (remainingMinus1 + 1) .ue) fun _ => ?_
    exact .pure _
  · refine .bind (.u _) fun last => ?_
    exact .pure _

theorem SliceHeader.decodeWith_fielded (isIdr : Bool) (ppsId : Nat)
    (pps : PictureParameterSet) (sps : SequenceParameterSet) :
    Fielded (SliceHeader.decodeWith isIdr ppsId pps sps) := by
  refine .bind_ite (.ite (.pure _) .flag) fun _ => ?_
  refine .bind_ite (.ite (.pure _) (.u _)) fun _ => ?_
  refine .bind_ite (.ite (.pure _) (TileSpan.decode_fielded pps)) fun _ => ?_
  refine .bind SliceType.decode_fielded fun _ => ?_
  refine .bind_ite (.ite .flag (.pure _)) fun _ => ?_
  refine .bind_ite (.ite .flag (.pure _)) fun _ => ?_
  refine .bind_ite (.ite (SliceLoopFilter.decode_fielded _) (.pure _)) fun _ => ?_
  refine .bind_ite (.ite (.u _) (.pure _)) fun _ => ?_
  exact .pure _

def ReadError.RanOut (error : ReadError) : Prop :=
  ∃ requested available, error = .notEnoughBits requested available

def Fault.RanOut (fault : Fault) : Prop := ∃ error : ReadError, fault = .bits error ∧ error.RanOut

section
variable {ε α β : Type}

/-- The part ends with such an error wherever these bits break off, at their very start too. -/
def BreaksOff (ranOut : ε → Prop) (part : EStateM ε BitReader α) (bits : Bits) : Prop :=
  ∀ front behind r, bits = front ++ behind → behind ≠ [] → r.unread = front →
    ∃ error s, part r = .error error s ∧ ranOut error

/-- What the part delivers is decided by the bits it has read, and by all of them. -/
def Delimited (ranOut : ε → Prop) (part : EStateM ε BitReader α) : Prop :=
  ∀ r value s, part r = .ok value s →
    ∃ bits, Consumes r s bits ∧ Reads part bits value ∧ BreaksOff ranOut part bits

variable {ranOut : ε → Prop} {first part other : EStateM ε BitReader α}

theorem BreaksOff.nil : BreaksOff ranOut part [] := by
  intro front behind r split missing
  exact absurd (List.append_eq_nil_iff.mp split.symm).2 missing

theorem BreaksOff.bind {next : α → EStateM ε BitReader β} {a : α} {front back : Bits}
    (reads : Reads first front a) (early : BreaksOff ranOut first front)
    (late : BreaksOff ranOut (next a) back) :
    BreaksOff ranOut (first >>= next) (front ++ back) := by
  intro given missing r split some starts
  rcases List.append_eq_append_iff.mp split with ⟨more, rfl, rest⟩ | ⟨lost, rfl, rfl⟩
  · -- The first part is complete.
    obtain ⟨s, read, behind⟩ := reads r more starts
    obtain ⟨error, t, failed, out⟩ := late more missing s rest some behind
    exact ⟨error, t, (bind_run_of_ok read).trans failed, out⟩
  · by_cases complete : lost = []
    · subst complete
      rw [List.append_nil] at reads
      obtain ⟨s, read, behind⟩ := reads r [] (by rw [starts, List.append_nil])
      obtain ⟨error, t, failed, out⟩ := late [] back s rfl some behind
      exact ⟨error, t, (bind_run_of_ok read).trans failed, out⟩
    · obtain ⟨error, s, failed, out⟩ := early given lost r rfl complete starts
      exact ⟨error, s, bind_run_of_error failed, out⟩

namespace Delimited

theorem pure (value : α) : Delimited ranOut (Pure.pure value) := by
  intro r delivered s read
  cases read
  exact ⟨[], Consumes.refl r, Reads.pure value, BreaksOff.nil⟩

theorem throw (error : ε) : Delimited ranOut (MonadExcept.throw error : EStateM ε BitReader α) := by
  intro r value s read
  cases read

theorem bind {next : α → EStateM ε BitReader β} (h : Delimited ranOut first)
    (k : ∀ a, Delimited ranOut (next a)) : Delimited ranOut (first >>= next) := by
  intro r value s delivered
  obtain ⟨a, t, read, later⟩ := bind_run_ok delivered
  obtain ⟨front, consumed, reads, early⟩ := h r a t read
  obtain ⟨back, onward, rest, late⟩ := k a t value s later
  exact ⟨front ++ back, consumed.trans onward, reads.bind rest, .bind reads early late⟩

theorem ite {condition : Prop} [Decidable condition] (h : Delimited ranOut part)
    (k : Delimited ranOut other) : Delimited ranOut (if condition then part else other) := by
  by_cases holds : condition
  · rwa [if_pos holds]
  · rwa [if_neg holds]

end Delimited
end

namespace BitReader

theorem bits_delimited (count : Nat) : Delimited ReadError.RanOut (bits count) := by
  intro r value s read
  obtain ⟨front, rfl, narrow, rfl, consumed⟩ := bits_ok read
  refine ⟨front, consumed, reads_bits front narrow, ?_⟩
  intro given missing q split some starts
  have few : q.left < front.length := by
    have more := List.length_pos_iff.mpr some
    rw [← unread_length, starts, split, List.length_append]
    omega
  exact ⟨_, q, bits_out narrow few, _, _, rfl⟩

theorem bit_delimited : Delimited ReadError.RanOut bit :=
  .bind (bits_delimited 1) fun _ => .pure _

theorem zeros_delimited (budget : Nat) : Delimited ReadError.RanOut (zeros budget) := by
  induction budget with
  | zero => exact .throw _
  | succ budget ih =>
    refine .bind bit_delimited fun one => ?_
    refine .ite (.pure 0) ?_
    refine .bind ih fun count => ?_
    exact .pure (count + 1)

theorem ue_delimited : Delimited ReadError.RanOut ue := by
  refine .bind (zeros_delimited 32) fun count => ?_
  refine .bind (bits_delimited count) fun _ => ?_
  exact .ite (.pure _) (.throw _)

theorem ueMax_delimited (high : Nat) : Delimited ReadError.RanOut (ueMax high) := by
  refine .bind ue_delimited fun value => ?_
  exact .ite (.pure value) (.throw _)

theorem se_delimited : Delimited ReadError.RanOut se := .bind ue_delimited fun _ => .pure _

end BitReader

namespace Decoder

theorem ofRead_delimited {α : Type} {read : ReadM α} (h : Delimited ReadError.RanOut read) :
    Delimited Fault.RanOut (ofRead read) := by
  intro r value s delivered
  unfold ofRead at delivered
  split at delivered
  · next found =>
    cases delivered
    obtain ⟨bits, consumed, reads, breaks⟩ := h r value s found
    refine ⟨bits, consumed, ?_, ?_⟩
    · intro q rest starts
      obtain ⟨t, done, behind⟩ := reads q rest starts
      exact ⟨t, by rw [ofRead, done], behind⟩
    · intro front missing q split some starts
      obtain ⟨error, t, failed, out⟩ := breaks front missing q split some starts
      exact ⟨.bits error, t, by rw [ofRead, failed], error, rfl, out⟩
  · cases delivered

theorem Fielded.delimited {α : Type} {part : Decoder α} (fielded : Fielded part) :
    Delimited Fault.RanOut part := by
  induction fielded with
  | pure value => exact .pure value
  | throw coding => exact .throw _
  | flag => exact ofRead_delimited BitReader.bit_delimited
  | u width => exact ofRead_delimited (BitReader.bits_delimited width)
  | ue => exact ofRead_delimited BitReader.ue_delimited
  | ueMax high => exact ofRead_delimited (BitReader.ueMax_delimited high)
  | se => exact ofRead_delimited BitReader.se_delimited
  | bind _ _ first later => exact .bind first later

end Decoder

theorem PictureParameterSet.decode_delimited (isKnown : Nat → Bool) :
    Delimited Fault.RanOut (PictureParameterSet.decode isKnown) := by
  refine .bind (Decoder.Fielded.ueMax _).delimited fun id => ?_
  refine .bind (Decoder.Fielded.ueMax _).delimited fun spsId => ?_
  exact .ite (decodeWith_fielded id spsId).delimited (.throw _)

theorem SliceHeader.decode_delimited (isIdr : Bool)
    (find : Nat → Except Fault (PictureParameterSet × SequenceParameterSet)) :
    Delimited Fault.RanOut (SliceHeader.decode isIdr find) := by
  refine .bind (Decoder.Fielded.ueMax _).delimited fun ppsId => ?_
  cases find ppsId with
  | error fault => exact .throw fault
  | ok sets => exact (decodeWith_fielded isIdr ppsId sets.1 sets.2).delimited

end EvcStream
