import EvcStream.Proofs.AccessUnit.Push
import EvcStream.Proofs.PictureOrder
import EvcStream.Proofs.Store.Reachable
/-!
# What a unit changes, and where a picture ends

The effect of each kind of unit on the store, the picture order and the profile, and when a slice
that begins a new picture ends the access unit before it.
-/
namespace EvcStream.Assembler

/-- The changes that one unit may make to the store and the order. -/
inductive Effect (framed : List UInt8) (a b : Assembler) : Prop
  | none (store : b.store = a.store) (order : b.order = a.order)
  | sequence {u : NalUnit} {sps : SequenceParameterSet}
      (framing : NalUnit.ofFramed framed = .ok u)
      (added : a.store.addSequence u = .ok (sps, b.store)) (order : b.order = a.order)
  | picture {u : NalUnit} {pps : PictureParameterSet}
      (framing : NalUnit.ofFramed framed = .ok u)
      (added : a.store.addPicture u = .ok (pps, b.store)) (order : b.order = a.order)
  | slice {u : NalUnit} {header : SliceHeader}
      (framing : NalUnit.ofFramed framed = .ok u)
      (added : a.store.addSlice u = .ok (header, b.store))
      (order : b.order = a.order ∨ a.orderAfter u header = .ok b.order)

variable {a b c : Assembler} {framed : List UInt8} {u : NalUnit}

theorem Effect.of_same (h : Effect framed a b) (store : c.store = b.store)
    (order : c.order = b.order) : Effect framed a c := by
  cases h with
  | none same kept => exact .none (store.trans same) (order.trans kept)
  | sequence framing added kept => exact .sequence framing (store ▸ added) (order.trans kept)
  | picture framing added kept => exact .picture framing (store ▸ added) (order.trans kept)
  | slice framing added moved => exact .slice framing (store ▸ added) (order ▸ moved)

theorem interpret_effect (framing : NalUnit.ofFramed framed = .ok u) (a : Assembler) :
    match interpret u a with
    | .ok _ b | .error _ b => Effect framed a b := by
  by_cases sps : u.header.type = .sps
  · rw [interpret_sps sps]
    cases read : ParameterStore.readSequence u with
    | error fault => exact .none rfl rfl
    | ok sps =>
      have added : a.store.addSequence u = .ok (sps,
          { a.store with sequences := a.store.sequences.insert sps.format.id sps }) := by
        rw [ParameterStore.addSequence, read]
        rfl
      exact .sequence framing added rfl
  by_cases pps : u.header.type = .pps
  · rw [interpret_pps pps]
    cases read : a.store.readPicture u with
    | error fault => exact .none rfl rfl
    | ok pps =>
      have added : a.store.addPicture u = .ok (pps,
          { a.store with pictures := a.store.pictures.insert pps.id pps }) := by
        rw [ParameterStore.addPicture, read]
        rfl
      exact .picture framing added rfl
  by_cases slice : u.header.type = .idr ∨ u.header.type = .nonIdr
  · rw [interpret_slice slice]
    cases read : a.store.readSlice u with
    | error fault => exact .none rfl rfl
    | ok header =>
      have added : a.store.addSlice u = .ok (header, (a.keepSlice header).store) := by
        rw [ParameterStore.addSlice, read]
        rfl
      dsimp only
      cases moved : a.orderAfter u header with
      | error fault => exact .slice framing added (Or.inl rfl)
      | ok order => exact .slice framing added (Or.inr moved)
  · rw [interpret_other sps pps slice]
    exact .none rfl rfl

theorem orderAfter_ok {header : SliceHeader} {order : PictureOrder}
    (moved : a.orderAfter u header = .ok order) :
    ∃ pps sps, a.store.resolve header.ppsId = .ok (pps, sps) ∧
      a.order.advance u.header.type u.header.temporalId sps header = .ok order := by
  unfold orderAfter at moved
  split at moved
  next pps sps found => exact ⟨pps, sps, found, moved⟩
  · cases moved

theorem push_interpreted {unit : Option AccessUnit} (pushed : push framed a = .ok unit b) :
    ∃ u count c, NalUnit.ofFramed framed = .ok u ∧ Interpreted u a count c ∧
      b.store = c.store ∧ b.profile = c.profile ∧ b.lastSpsId = c.lastSpsId := by
  obtain ⟨u, count, c, buffer, framing, read, -, result⟩ := push_ok pushed
  have assembler : b = _ := congrArg Prod.snd result
  have rest := closed_frame (c.collected u count buffer) u.header.type
  rw [← assembler] at rest
  exact ⟨u, count, c, framing, interpret_ok read, rest.store, rest.profile, rest.lastSpsId⟩

/-- Collecting and closing leave store and order as they are after reading. -/
theorem push_effect (framed : List UInt8) (a : Assembler) :
    match push framed a with
    | .ok _ b | .error _ b => Effect framed a b := by
  rw [push_eq]
  cases framing : NalUnit.ofFramed framed with
  | error fault => exact .none rfl rfl
  | ok u =>
    have effect := interpret_effect framing a
    dsimp only
    cases read : interpret u a with
    | error fault c =>
      rw [read] at effect
      exact effect
    | ok count c =>
      rw [read] at effect
      dsimp only [finish]
      cases c.buffer.append u.framed with
      | error fault => exact effect
      | ok buffer =>
        have rest := closed_frame (c.collected u count buffer) u.header.type
        exact effect.of_same rest.store rest.order

theorem push_ok_effect {unit : Option AccessUnit} (pushed : push framed a = .ok unit b) :
    Effect framed a b := by
  have effect := push_effect framed a
  rwa [pushed] at effect

theorem push_fault_effect {fault : Fault} (pushed : push framed a = .error fault b) :
    Effect framed a b := by
  have effect := push_effect framed a
  rwa [pushed] at effect

theorem pushAll_invariant {invariant : Assembler → Prop} {units : List (List UInt8)}
    (step : ∀ framed ∈ units, ∀ a b, Effect framed a b → invariant a → invariant b)
    (start : invariant a) : invariant (pushAll units a).2 := by
  induction units generalizing a with
  | nil => exact start
  | cons framed later ih =>
    have others := fun framed member => step framed (List.mem_cons_of_mem _ member)
    have first := step framed List.mem_cons_self
    unfold pushAll
    cases pushed : push framed a with
    | ok unit b => exact ih others (first a b (push_ok_effect pushed) start)
    | error fault b => exact ih others (first a b (push_fault_effect pushed) start)

theorem Effect.reachable (h : Effect framed a b) (reachable : a.store.Reachable) :
    b.store.Reachable := by
  cases h with
  | none store order => rwa [store]
  | sequence framing added order => exact .addSequence reachable added
  | picture framing added order => exact .addPicture reachable added
  | slice framing added order => exact .addSlice reachable added

variable {a b : Assembler} {framed : List UInt8} {u : NalUnit} {unit : Option AccessUnit}

theorem closed_isSome (type : NalUnitType) (nonempty : a.buffer.bytes ≠ []) :
    (a.closed type).1.isSome = endsAccessUnit a.profile type a.order := by
  unfold closed
  by_cases ends : endsAccessUnit a.profile type a.order = true
  · rw [if_pos ends, ends, takeOpen_of_nonempty nonempty]
    rfl
  · rw [if_neg ends, eq_false_of_ne_true ends]
    rfl

/-- A slice is read against the store, moves the order on, and closes the access unit if it ends
it. -/
theorem push_slice (framing : NalUnit.ofFramed framed = .ok u) (type : u.header.type = .nonIdr)
    (pushed : push framed a = .ok unit b) :
    ∃ header pps sps, a.store.readSlice u = .ok header ∧
      a.store.resolve header.ppsId = .ok (pps, sps) ∧
      a.order.advance .nonIdr u.header.temporalId sps header = .ok b.order ∧
      unit.isSome = endsAccessUnit a.profile .nonIdr b.order := by
  obtain ⟨v, count, c, buffer, cutting, read, appended, result⟩ := push_ok pushed
  obtain rfl : u = v := Except.ok.inj (framing.symm.trans cutting)
  rw [interpret_slice (Or.inr type)] at read
  split at read
  · cases read
  next header parsed =>
  split at read
  · cases read
  next order moved =>
  cases read
  obtain ⟨pps, sps, found, advanced⟩ := orderAfter_ok moved
  have nonempty : buffer.bytes ≠ [] := by
    rw [UnitBuffer.append_bytes appended]
    exact List.append_ne_nil_of_right_ne_nil _ (NalUnit.ofFramed_nonempty framing)
  have after : b.order = order := (congrArg (·.2.order) result).trans (closed_frame _ _).order
  have taken := (congrArg (·.1.isSome) result).trans (closed_isSome u.header.type nonempty)
  rw [type] at advanced taken
  refine ⟨header, pps, sps, parsed, found, ?_, ?_⟩
  · rw [after]
    exact advanced
  · rw [after]
    exact taken

/-- Where the counts are coded, the access unit ends exactly where the count moves. Where they are
implied, it ends at every slice but those of layer 0. -/
theorem push_closes_iff (main : a.profile = .main) (framing : NalUnit.ofFramed framed = .ok u)
    (type : u.header.type = .nonIdr) (pushed : push framed a = .ok unit b) :
    ∃ header pps sps, a.store.readSlice u = .ok header ∧
      a.store.resolve header.ppsId = .ok (pps, sps) ∧
      (sps.countsInSlices = true → (unit.isSome = true ↔ b.order.count ≠ a.order.count)) ∧
      (sps.countsInSlices = false → (unit.isSome = true ↔ u.header.temporalId ≠ 0)) := by
  obtain ⟨header, pps, sps, read, found, moved, closes⟩ := push_slice framing type pushed
  have ends : unit.isSome = true ↔ b.order.count ≠ b.order.previous := by
    rw [closes, main]
    exact bne_iff_ne
  refine ⟨header, pps, sps, read, found, ?_, ?_⟩
  · intro counts
    rw [ends, PictureOrder.deriveCoded_previous (PictureOrder.advance_coded moved counts)]
  · intro implied
    have derived := PictureOrder.advance_implied moved implied
    rw [ends]
    by_cases anchor : u.header.temporalId = 0
    · rw [anchor] at derived
      have same := (PictureOrder.deriveImplied_anchor derived).2
      exact ⟨fun differ => absurd same.symm differ, fun inner => absurd anchor inner⟩
    · have before := PictureOrder.deriveImplied_inner anchor derived
      exact ⟨fun _ => anchor, fun _ => Int.ne_of_lt before⟩

/-- A main profile stream with implied counts and sub-GOPs of four pictures, up to the IDR slice. -/
def fourPictureStream : List (List UInt8) :=
  [[0, 0, 0, 16, 50, 0, 128, 128, 0, 0, 0, 0, 0, 0, 0, 0, 124, 0, 14, 64],
    [0, 0, 0, 4, 52, 0, 251, 4], [0, 0, 0, 3, 4, 0, 180]]

def fourPictureStart : Assembler := (pushAll fourPictureStream (ofCapacity 4)).2

/-- A slice of layer 0 behind the IDR slice. -/
theorem push_closes_iff_anchor :
    let framed := [0, 0, 0, 3, 2, 0, 184]
    ∃ u unit b, fourPictureStart.profile = .main ∧ NalUnit.ofFramed framed = .ok u ∧
      u.header.type = .nonIdr ∧ push framed fourPictureStart = .ok unit b ∧
      ∃ header pps sps, fourPictureStart.store.readSlice u = .ok header ∧
        fourPictureStart.store.resolve header.ppsId = .ok (pps, sps) ∧
        (sps.countsInSlices = true →
          (unit.isSome = true ↔ b.order.count ≠ fourPictureStart.order.count)) ∧
        (sps.countsInSlices = false → (unit.isSome = true ↔ u.header.temporalId ≠ 0)) := by
  intro framed
  let u : NalUnit :=
    { header := { type := .nonIdr, temporalId := 0, reserved := 0, extension := false }
      bytes := [2, 0, 184] }
  have main : fourPictureStart.profile = .main := by decide +kernel
  have framing : NalUnit.ofFramed framed = .ok u := Fault.ok_of_toOption (by decide +kernel)
  have type : u.header.type = .nonIdr := rfl
  have taken : accepted id [framed] fourPictureStart = [framed] := by decide +kernel
  cases pushed : push framed fourPictureStart with
  | error fault b =>
    simp only [accepted, id_eq, pushed] at taken
    cases taken
  | ok unit b =>
    exact ⟨u, unit, b, main, framing, type, rfl, push_closes_iff main framing type pushed⟩

/-- Behind the IDR slice, a slice of layer 0 moves the count and closes nothing. Of two slices of
one picture of layer 1, each closes an access unit. -/
theorem implied_counts_misplace_ends :
    let anchor := [[0, 0, 0, 3, 2, 0, 184]]
    let inner := [[0, 0, 0, 3, 2, 64, 184]]
    let picture := (pushAll inner fourPictureStart).2
    fourPictureStart.profile = .main ∧
      (accepted id anchor fourPictureStart = anchor ∧
        (pushAll anchor fourPictureStart).1 = [] ∧ fourPictureStart.order.count = 0 ∧
        (pushAll anchor fourPictureStart).2.order.count = 4) ∧
      (accepted id inner picture = inner ∧ (pushAll inner picture).1.length = 1 ∧
        picture.order.count = 2 ∧ (pushAll inner picture).2.order.count = 2) := by
  decide +kernel

def ImpliesOrder (framed : List UInt8) : Prop :=
  ∀ u sps, NalUnit.ofFramed framed = .ok u → ParameterStore.readSequence u = .ok sps →
    sps.countsInSlices = false

/-- All counts are implied, and the last one has not passed its anchor. -/
structure OrderImplied (a : Assembler) : Prop where
  reachable : a.store.Reachable
  implied : ∀ id sps, a.store.sequences.find? id = some sps → sps.countsInSlices = false
  behind : a.order.count ≤ a.order.previous

theorem Effect.orderImplied (effect : Effect framed a b) (unit : ImpliesOrder framed)
    (h : OrderImplied a) : OrderImplied b := by
  have reachable := effect.reachable h.reachable
  cases effect with
  | none store order => exact ⟨reachable, store ▸ h.implied, order ▸ h.behind⟩
  | sequence framing added order =>
    obtain ⟨read, stored⟩ := ParameterStore.stored_of_ok added
    refine ⟨reachable, ?_, order ▸ h.behind⟩
    intro id sps found
    rw [← stored, IdTable.find?_insert] at found
    split at found
    · cases found
      exact unit _ _ framing read
    · exact h.implied id sps found
  | picture framing added order =>
    obtain ⟨-, stored⟩ := ParameterStore.stored_of_ok added
    refine ⟨reachable, ?_, order ▸ h.behind⟩
    rw [← stored]
    exact h.implied
  | slice framing added order =>
    obtain ⟨-, stored⟩ := ParameterStore.stored_of_ok added
    refine ⟨reachable, ?_, ?_⟩
    · rw [← stored]
      exact h.implied
    · rcases order with same | moved
      · exact same ▸ h.behind
      · obtain ⟨pps, sps, found, advanced⟩ := orderAfter_ok moved
        have implied := h.implied _ _ (ParameterStore.resolve_ok found).2
        exact PictureOrder.deriveImplied_le (PictureOrder.advance_implied advanced implied)

theorem pushAll_orderImplied {units : List (List UInt8)} (capacity : Nat)
    (implied : ∀ framed ∈ units, ImpliesOrder framed) :
    OrderImplied (pushAll units (ofCapacity capacity)).2 := by
  have start : OrderImplied (ofCapacity capacity) :=
    ⟨.empty, fun _ _ found => (nomatch found), Int.le_refl 0⟩
  exact pushAll_invariant
    (fun framed member _ _ effect => effect.orderImplied (implied framed member)) start

/-- Wherever all counts are implied, a slice of layer 0 starts a new picture and closes nothing. -/
theorem anchor_closes_nothing {units : List (List UInt8)} {capacity : Nat}
    (implied : ∀ framed ∈ units, ImpliesOrder framed)
    (run : a = (pushAll units (ofCapacity capacity)).2) (main : a.profile = .main)
    (framing : NalUnit.ofFramed framed = .ok u) (type : u.header.type = .nonIdr)
    (anchor : u.header.temporalId = 0) (pushed : push framed a = .ok unit b) :
    a.order.count < b.order.count ∧ unit = none := by
  have invariant : OrderImplied a := run ▸ pushAll_orderImplied capacity implied
  obtain ⟨header, pps, sps, -, found, moved, closes⟩ := push_slice framing type pushed
  have known := (ParameterStore.resolve_ok found).2
  have derived := PictureOrder.advance_implied moved (invariant.implied _ _ known)
  rw [anchor] at derived
  obtain ⟨count, same⟩ := PictureOrder.deriveImplied_anchor derived
  have longer := PictureOrder.signed32_pos (invariant.reachable.bounded.sequences _ _ known).subGop
  have behind := invariant.behind
  refine ⟨by omega, ?_⟩
  rw [main, endsAccessUnit, same, bne_self_eq_false] at closes
  exact Option.isNone_iff_eq_none.mp (Option.isSome_eq_false_iff.mp closes)

end EvcStream.Assembler
