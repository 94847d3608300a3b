import EvcStream.Proofs.AccessUnit.Effects
import EvcStream.Proofs.AccessUnit.Journal
import EvcStream.Proofs.Slice.Header
import EvcStream.Proofs.Store.History
/-!
# Referential integrity of the store

Sets are replaced under their ids, but never taken away. So whatever a set or a slice header names
by id stays there, and every set is within the bounds that were checked as it was read. An assembler
therefore never misses a parameter set that a slice has just been read with, and the count in a
slice header never exceeds the bound that its width gives.
-/
namespace EvcStream

structure RefPicLists.Sized (l : RefPicLists) : Prop where
  length : l.lists.length = l.count
  count : l.count ≤ 32
  pictures : ∀ list ∈ l.lists, list.distances.length ≤ 21

def ReferenceStructure.directions : ReferenceStructure → List RefPicLists
  | .implied _ => []
  | .listed references => references.forward :: references.backward.toList

def HrdParameters.scheduleCount (h : HrdParameters) : Nat := h.alternatives.length + 1

def VuiParameters.hrds (v : VuiParameters) : List HrdParameters :=
  v.nalHrd.toList ++ v.vclHrd.toList

structure SequenceParameterSet.Limited (s : SequenceParameterSet) : Prop where
  id : s.format.id < 16
  chromaFormatIdc : s.format.chromaFormatIdc ≤ 3
  bitDepthLumaMinus8 : s.format.bitDepthLumaMinus8 ≤ 8
  bitDepthChromaMinus8 : s.format.bitDepthChromaMinus8 ≤ 8
  log2MaxOrderLsbMinus4 : ∀ width ∈ s.log2MaxOrderLsbMinus4, width ≤ 12
  log2SubGopLength : s.subGop.log2Length ≤ 5
  references : ∀ lists ∈ s.references.directions, lists.Sized
  schedules : ∀ v ∈ s.vui, ∀ h ∈ v.hrds, h.scheduleCount ≤ 32

theorem RefPicLists.WellFormed.sized {l : RefPicLists} (valid : l.WellFormed) : l.Sized := by
  constructor
  · exact valid.length
  · exact valid.count
  · intro list member
    exact (valid.lists list member).length

theorem HrdParameters.WellFormed.scheduleCount_le {h : HrdParameters} (valid : h.WellFormed) :
    h.scheduleCount ≤ 32 := Nat.succ_le_succ valid.alternatives_length

theorem SequenceParameterSet.WellFormed.limited {s : SequenceParameterSet}
    (valid : s.WellFormed) : s.Limited where
  id := Nat.lt_succ_of_le valid.format.id
  chromaFormatIdc := valid.format.chromaFormatIdc
  bitDepthLumaMinus8 := valid.format.bitDepthLumaMinus8
  bitDepthChromaMinus8 := valid.format.bitDepthChromaMinus8
  log2MaxOrderLsbMinus4 := valid.log2MaxOrderLsbMinus4
  log2SubGopLength := valid.bounded.subGop
  references := by
    intro lists member
    have references := valid.references
    cases structured : s.references with
    | implied pictures =>
      rw [structured] at member
      cases member
    | listed r =>
      rw [structured] at member references
      have valid : r.WellFormed := references
      rcases List.mem_cons.mp member with rfl | second
      · exact valid.forward.sized
      · exact (valid.backward lists (Option.mem_toList.mp second)).sized
  schedules := by
    intro v shown h member
    have valid := valid.vui v shown
    rcases List.mem_append.mp member with nal | vcl
    · exact (valid.nalHrd h (Option.mem_toList.mp nal)).scheduleCount_le
    · exact (valid.vclHrd h (Option.mem_toList.mp vcl)).scheduleCount_le

namespace ParameterStore

/-- Every table is keyed by the ids of what it holds, the sets are within bounds, and what is named
by id is there. -/
structure Integral (store : ParameterStore) : Prop where
  sequences : ∀ id sps, store.sequences.find? id = some sps → sps.format.id = id ∧ sps.Limited
  pictures : ∀ id pps, store.pictures.find? id = some pps →
    pps.id = id ∧ id < 64 ∧ (store.sequences.find? pps.spsId).isSome
  slices : ∀ id header, store.slices.find? id = some header →
    header.ppsId = id ∧ (store.pictures.find? id).isSome

variable {store next : ParameterStore} {u : NalUnit}

theorem isSome_find?_insert {α : Type} {table : IdTable α} {id : Nat} (added : Nat) (value : α)
    (present : (table.find? id).isSome) : ((table.insert added value).find? id).isSome := by
  rw [IdTable.find?_insert]
  by_cases same : id = added
  · rw [if_pos same]
    rfl
  · rwa [if_neg same]

theorem addSequence_integral {sps : SequenceParameterSet} (integral : store.Integral)
    (added : store.addSequence u = .ok (sps, next)) : next.Integral := by
  obtain ⟨read, rfl⟩ := stored_of_ok added
  obtain ⟨-, s, read⟩ := NalUnit.require_read_ok read
  have limited := (SequenceParameterSet.decode_exact _ _ _ read).1.limited
  constructor
  · intro id stored found
    rw [IdTable.find?_insert] at found
    split at found
    · next same =>
      cases found
      exact ⟨same.symm, limited⟩
    · exact integral.sequences id stored found
  · intro id pps found
    obtain ⟨keyed, bounded, present⟩ := integral.pictures id pps found
    exact ⟨keyed, bounded, isSome_find?_insert sps.format.id sps present⟩
  · exact integral.slices

theorem addPicture_integral {pps : PictureParameterSet} (integral : store.Integral)
    (added : store.addPicture u = .ok (pps, next)) : next.Integral := by
  obtain ⟨read, rfl⟩ := stored_of_ok added
  obtain ⟨-, s, read⟩ := NalUnit.require_read_ok read
  obtain ⟨valid, known⟩ := (PictureParameterSet.decode_exact _ _ _ _ read).1
  constructor
  · exact integral.sequences
  · intro id stored found
    rw [IdTable.find?_insert] at found
    split at found
    · next same =>
      cases found
      exact ⟨same.symm, same ▸ Nat.lt_succ_of_le valid.id, known⟩
    · exact integral.pictures id stored found
  · intro id header found
    obtain ⟨keyed, present⟩ := integral.slices id header found
    exact ⟨keyed, isSome_find?_insert pps.id pps present⟩

theorem addSlice_integral {header : SliceHeader} (integral : store.Integral)
    (added : store.addSlice u = .ok (header, next)) : next.Integral := by
  obtain ⟨read, rfl⟩ := stored_of_ok added
  obtain ⟨-, s, read⟩ := NalUnit.require_read_ok read
  obtain ⟨pps, sps, found, -⟩ := SliceHeader.decode_ok read
  have picture := (resolve_ok found).1
  constructor
  · exact integral.sequences
  · exact integral.pictures
  · intro id stored found
    rw [IdTable.find?_insert] at found
    split at found
    · next same =>
      cases found
      refine ⟨same.symm, ?_⟩
      rw [same, picture]
      rfl
    · exact integral.slices id stored found

theorem Reachable.integral (reachable : store.Reachable) : store.Integral := by
  induction reachable with
  | empty => exact ⟨fun _ _ found => (nomatch found), fun _ _ found => (nomatch found),
      fun _ _ found => (nomatch found)⟩
  | addSequence _ added integral => exact addSequence_integral integral added
  | addPicture _ added integral => exact addPicture_integral integral added
  | addSlice _ added integral => exact addSlice_integral integral added

theorem run_reachable (calls : List Call) (reachable : store.Reachable) :
    (run calls store).2.Reachable := by
  induction calls generalizing store with
  | nil => exact reachable
  | cons call later ih =>
    unfold run
    cases answered : store.answer call with
    | error fault => exact ih reachable
    | ok result =>
      obtain ⟨entry, next⟩ := result
      apply ih
      rcases answer_ok answered with ⟨u, sps, -, -, added⟩ | ⟨u, pps, -, -, added⟩ |
        ⟨u, header, -, -, added⟩
      · exact .addSequence reachable added
      · exact .addPicture reachable added
      · exact .addSlice reachable added

end ParameterStore

/-- Whether the fault lies with what has been stored, and not with the unit at hand. -/
def Fault.accusesStore : Fault → Bool
  | lostSps _ _ | lostParameterSets _ | orderLsbTooLarge _ _ => true
  | _ => false

variable {fault : Fault}

theorem Fault.accusesStore_of_isCoding (coding : fault.isCoding = true) :
    fault.accusesStore = false := by
  cases fault with
  | bits error => rfl
  | refPicOutOfRange delta => rfl
  | _ => cases coding

theorem NalUnitHeader.decode_error {bytes : List UInt8} (refused : decode bytes = .error fault) :
    fault.accusesStore = false := by
  unfold decode at refused
  by_cases short : bytes.length < size
  · rw [if_pos short] at refused
    cases refused
    rfl
  · rw [if_neg short] at refused
    dsimp only at refused
    split at refused
    · cases refused
      rfl
    · split at refused
      · cases refused
        rfl
      · cases refused

namespace NalUnit

variable {bytes : List UInt8} {start : Nat}

theorem length_error (refused : length bytes = .error fault) : fault.accusesStore = false := by
  unfold length at refused
  split at refused
  · cases refused
    rfl
  · dsimp only at refused
    split at refused
    · cases refused
      rfl
    · cases refused

theorem split_error (refused : split start bytes = .error fault) : fault.accusesStore = false := by
  unfold split at refused
  split at refused
  · next missing =>
    cases refused
    exact length_error missing
  · split at refused
    · cases refused
      rfl
    · split at refused
      · next invalid =>
        cases refused
        exact NalUnitHeader.decode_error invalid
      · cases refused

theorem ofFramed_error (refused : ofFramed bytes = .error fault) : fault.accusesStore = false := by
  rcases Fault.bind_error refused with cutting | ⟨found, -, more⟩
  · exact split_error cutting
  · dsimp only at more
    split at more
    · cases more
    · cases more
      rfl

end NalUnit

namespace PictureOrder

variable {order : PictureOrder}

theorem checked_error {count : Int} (refused : checked count = .error fault) :
    fault.accusesStore = false := by
  unfold checked at refused
  split at refused
  · cases refused
  · cases refused
    rfl

theorem highPart_error {previous lsb bound : Int}
    (refused : highPart previous lsb bound = .error fault) : fault.accusesStore = false := by
  unfold highPart at refused
  dsimp only at refused
  split at refused
  · exact checked_error refused
  · split at refused
    · exact checked_error refused
    · cases refused

/-- Counts that are as wide as announced do not exceed their bound. -/
theorem deriveCoded_error {isIdr : Bool} {width lsb : Nat} (short : width < 31)
    (narrow : lsb < 2 ^ width) (refused : order.deriveCoded isIdr width lsb = .error fault) :
    fault.accusesStore = false := by
  have within : (lsb : Int) < signed32 (2 ^ width) := by
    rw [signed32_two_pow short]
    exact_mod_cast narrow
  unfold deriveCoded at refused
  rw [if_pos within] at refused
  rcases Fault.bind_ite_error refused with high | ⟨high, -, low⟩
  · cases isIdr with
    | true => cases high
    | false => exact highPart_error high
  · rcases Fault.bind_error low with count | ⟨count, -, last⟩
    · exact checked_error count
    · cases last

theorem deriveImplied_error {isIdr : Bool} {log2Length temporalId : Nat}
    (refused : order.deriveImplied isIdr log2Length temporalId = .error fault) :
    fault.accusesStore = false := by
  unfold deriveImplied at refused
  split at refused
  · cases refused
  split at refused
  · rcases Fault.bind_error refused with anchor | ⟨anchor, -, last⟩
    · exact checked_error anchor
    · cases last
  split at refused
  · dsimp only at refused
    rcases Fault.bind_ite_error refused with anchor | ⟨previous, -, count⟩
    · split at anchor
      · exact checked_error anchor
      · cases anchor
    · rcases Fault.bind_error count with outside | ⟨count, -, last⟩
      · exact checked_error outside
      · cases last
  · cases refused
    rfl

theorem advance_error {type : NalUnitType} {temporalId : Nat} {sps : SequenceParameterSet}
    {header : SliceHeader} (short : sps.orderLsbWidth < 31)
    (narrow : header.orderLsb < 2 ^ sps.orderLsbWidth)
    (refused : order.advance type temporalId sps header = .error fault) :
    fault.accusesStore = false := by
  unfold advance at refused
  split at refused
  · split at refused
    · exact deriveCoded_error short narrow refused
    · exact deriveImplied_error refused
  · cases refused
    rfl

end PictureOrder

namespace ParameterStore

variable {store : ParameterStore} {u : NalUnit}

theorem Integral.resolve_error (integral : store.Integral) {ppsId : Nat}
    (missing : store.resolve ppsId = .error fault) : fault = .unknownPps ppsId := by
  rcases ParameterStore.resolve_error missing with ⟨unknown, -⟩ | ⟨pps, -, picture, lost⟩
  · exact unknown
  · have present := (integral.pictures ppsId pps picture).2.2
    rw [lost] at present
    cases present

theorem Integral.readSlice_error (integral : store.Integral)
    (refused : store.readSlice u = .error fault) : fault.accusesStore = false := by
  rcases ParameterStore.readSlice_error refused with type | coding | ⟨ppsId, missing⟩
  · rw [type]
    rfl
  · exact Fault.accusesStore_of_isCoding coding
  · rw [integral.resolve_error missing]
    rfl

/-- A slice that has been read has its parameter sets, and its count is as wide as they say. -/
theorem readSlice_ok {header : SliceHeader} (read : store.readSlice u = .ok header) :
    ∃ pps sps, store.resolve header.ppsId = .ok (pps, sps) ∧
      header.orderLsb < 2 ^ sps.orderLsbWidth := by
  obtain ⟨-, s, read⟩ := NalUnit.require_read_ok read
  obtain ⟨pps, sps, found, valid, -⟩ := SliceHeader.decode_ok read
  refine ⟨pps, sps, found, ?_⟩
  by_cases coded : (!decide (u.header.type = .idr) && sps.countsInSlices) = true
  · exact valid.orderLsb coded
  · rw [valid.noOrder (eq_false_of_ne_true coded)]
    exact Nat.two_pow_pos _

end ParameterStore

namespace Assembler

variable {a b : Assembler} {u : NalUnit}

theorem orderAfter_error {header : SliceHeader} (integral : a.store.Integral)
    (read : a.store.readSlice u = .ok header) (refused : a.orderAfter u header = .error fault) :
    fault.accusesStore = false := by
  obtain ⟨pps, sps, found, narrow⟩ := ParameterStore.readSlice_ok read
  have limited := (integral.sequences pps.spsId sps (ParameterStore.resolve_ok found).2).2
  have short : sps.orderLsbWidth < 31 := by
    unfold SequenceParameterSet.orderLsbWidth
    cases coded : sps.log2MaxOrderLsbMinus4 with
    | none => decide
    | some width =>
      have := limited.log2MaxOrderLsbMinus4 width coded
      rw [Option.getD_some]
      omega
  unfold orderAfter at refused
  rw [found] at refused
  exact PictureOrder.advance_error short narrow refused

theorem interpret_error (integral : a.store.Integral)
    (refused : interpret u a = .error fault b) : fault.accusesStore = false := by
  by_cases sps : u.header.type = .sps
  · rw [interpret_sps sps] at refused
    split at refused
    · next failed =>
      cases refused
      rcases ParameterStore.readSequence_error failed with type | coding
      · rw [type]
        rfl
      · exact Fault.accusesStore_of_isCoding coding
    · cases refused
  by_cases pps : u.header.type = .pps
  · rw [interpret_pps pps] at refused
    split at refused
    · next failed =>
      cases refused
      rcases ParameterStore.readPicture_error failed with type | coding | ⟨id, spsId, unknown, -⟩
      · rw [type]
        rfl
      · exact Fault.accusesStore_of_isCoding coding
      · rw [unknown]
        rfl
    · cases refused
  by_cases slice : u.header.type = .idr ∨ u.header.type = .nonIdr
  · rw [interpret_slice slice] at refused
    split at refused
    · next failed =>
      cases refused
      exact integral.readSlice_error failed
    next header read =>
    split at refused
    · next failed =>
      cases refused
      exact orderAfter_error integral read failed
    · cases refused
  · rw [interpret_other sps pps slice] at refused
    cases refused

theorem push_error {framed : List UInt8} (integral : a.store.Integral)
    (refused : push framed a = .error fault b) : fault.accusesStore = false := by
  rw [push_eq] at refused
  split at refused
  · next invalid =>
    cases refused
    exact NalUnit.ofFramed_error invalid
  next u framing =>
  split at refused
  · next failed =>
    cases refused
    exact interpret_error integral failed
  next order c read =>
  unfold finish at refused
  split at refused
  · next large =>
    cases refused
    rw [UnitBuffer.append_error large]
    rfl
  · cases refused

def behind : List Call → Assembler → Assembler
  | [], a => a
  | .take :: later, a => behind later a.takeOpen.2
  | .push framed :: later, a =>
    match push framed a with
    | .ok _ b | .error _ b => behind later b

theorem behind_reachable (calls : List Call) (reachable : a.store.Reachable) :
    (behind calls a).store.Reachable := by
  induction calls generalizing a with
  | nil => exact reachable
  | cons call later ih =>
    cases call with
    | take =>
      apply ih
      rw [(takeOpen_frame a).store]
      exact reachable
    | push framed =>
      unfold behind
      cases pushed : push framed a with
      | ok unit b => exact ih ((push_ok_effect pushed).reachable reachable)
      | error fault b => exact ih ((push_fault_effect pushed).reachable reachable)

/-- Whatever units an empty store is offered, its tables keep their keys, bounds and references.
And whatever an assembler is offered, it never finds that a set is gone which it has accepted, nor
that the count in a slice header is too large for its width. -/
theorem references_hold :
    (∀ calls : List ParameterStore.Call, (ParameterStore.run calls {}).2.Integral) ∧
    ∀ (capacity : Nat) (calls : List Call) (framed : List UInt8) (b : Assembler),
      let a := behind calls (ofCapacity capacity)
      a.store.Integral ∧
      (∀ pps sps, push framed a ≠ .error (.lostSps pps sps) b) ∧
      (∀ pps, push framed a ≠ .error (.lostParameterSets pps) b) ∧
      ∀ lsb bound, push framed a ≠ .error (.orderLsbTooLarge lsb bound) b := by
  constructor
  · intro calls
    exact (ParameterStore.run_reachable calls .empty).integral
  · intro capacity calls framed b
    have integral : (behind calls (ofCapacity capacity)).store.Integral :=
      (behind_reachable calls .empty).integral
    refine ⟨integral, ?_, ?_, ?_⟩
    · intro pps sps refused
      cases push_error integral refused
    · intro pps refused
      cases push_error integral refused
    · intro lsb bound refused
      cases push_error integral refused

end Assembler
end EvcStream
