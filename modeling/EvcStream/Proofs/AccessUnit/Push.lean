import EvcStream.Proofs.AccessUnit.Capacity
import EvcStream.Proofs.Nal
/-!
# Pushing units

A push interprets its unit, appends it to the open access unit and closes this if the unit ends it.
What a push does depends on the core of an assembler only, and a run of pushes gives the access
units that the single pushes give.
-/
namespace EvcStream
namespace Assembler

namespace Step

variable {α β : Type} (a : Assembler)

@[simp] theorem pure_apply (value : α) : (pure value : Step α) a = .ok value a := rfl

@[simp] theorem get_bind (next : Assembler → Step β) : (get >>= next) a = next a a := rfl

@[simp] theorem modify_bind (change : Assembler → Assembler) (next : Unit → Step β) :
    (modify change >>= next) a = next () (change a) := rfl

@[simp] theorem ofExcept_bind (result : Except Fault α) (next : α → Step β) :
    (ofExcept result >>= next) a =
      match result with
      | .error fault => .error fault a
      | .ok value => next value a := by
  cases result <;> rfl

end Step

variable {u : NalUnit} {a b : Assembler}

def orderAfter (a : Assembler) (u : NalUnit) (header : SliceHeader) : Except Fault PictureOrder :=
  match a.store.resolve header.ppsId with
  | .ok (_, sps) => a.order.advance u.header.type u.header.temporalId sps header
  | .error _ => .error (.lostParameterSets header.ppsId)

def keepSlice (a : Assembler) (header : SliceHeader) : Assembler :=
  { a with store := { a.store with slices := a.store.slices.insert header.ppsId header } }

theorem interpret_sps (type : u.header.type = .sps) (a : Assembler) :
    interpret u a =
      match ParameterStore.readSequence u with
      | .error fault => .error fault a
      | .ok sps => .ok none { a with
          store := { a.store with sequences := a.store.sequences.insert sps.format.id sps }
          profile := sps.profile
          lastSpsId := some sps.format.id } := by
  unfold interpret
  rw [type]
  simp only [Step.get_bind, Step.ofExcept_bind, ParameterStore.addSequence]
  cases ParameterStore.readSequence u <;> rfl

theorem interpret_pps (type : u.header.type = .pps) (a : Assembler) :
    interpret u a =
      match a.store.readPicture u with
      | .error fault => .error fault a
      | .ok pps => .ok none { a with
          store := { a.store with pictures := a.store.pictures.insert pps.id pps } } := by
  unfold interpret
  rw [type]
  simp only [Step.get_bind, Step.ofExcept_bind, ParameterStore.addPicture]
  cases a.store.readPicture u <;> rfl

theorem nextOrder_keepSlice (a : Assembler) (u : NalUnit) (header : SliceHeader) :
    (a.keepSlice header).nextOrder u header.ppsId = a.orderAfter u header := by
  have same : (a.keepSlice header).store.resolve header.ppsId =
      a.store.resolve header.ppsId := rfl
  unfold nextOrder orderAfter
  rw [same]
  simp only [keepSlice, IdTable.find?_insert, if_true]
  cases a.store.resolve header.ppsId <;> rfl

theorem interpret_slice (type : u.header.type = .idr ∨ u.header.type = .nonIdr) (a : Assembler) :
    interpret u a =
      match a.store.readSlice u with
      | .error fault => .error fault a
      | .ok header =>
        match a.orderAfter u header with
        | .error fault => .error fault (a.keepSlice header)
        | .ok order => .ok (some order.count) { a.keepSlice header with order } := by
  have added : a.store.addSlice u = (a.store.readSlice u).map fun header =>
      (header, { a.store with slices := a.store.slices.insert header.ppsId header }) := by
    unfold ParameterStore.addSlice
    cases a.store.readSlice u <;> rfl
  unfold interpret
  rcases type with type | type
  all_goals
    rw [type]
    simp only [Step.get_bind, Step.ofExcept_bind, Step.modify_bind, Step.pure_apply, added]
    cases a.store.readSlice u with
    | error fault => rfl
    | ok header =>
      dsimp only [Except.map]
      rw [← nextOrder_keepSlice]
      unfold keepSlice
      split
      · next failed => rw [failed]
      · next derived => rw [derived]

theorem interpret_other (sps : u.header.type ≠ .sps) (pps : u.header.type ≠ .pps)
    (slice : ¬ (u.header.type = .idr ∨ u.header.type = .nonIdr)) (a : Assembler) :
    interpret u a = .ok none a := by
  cases type : u.header.type
  case sps => exact absurd type sps
  case pps => exact absurd type pps
  case idr => exact absurd (Or.inl type) slice
  case nonIdr => exact absurd (Or.inr type) slice
  all_goals
    unfold interpret
    rw [type]
    rfl

/-- The open access unit, which only collecting and closing change. -/
structure SameOpen (a b : Assembler) : Prop where
  buffer : b.buffer = a.buffer
  types : b.types = a.types
  isKeyFrame : b.isKeyFrame = a.isKeyFrame
  lastOrder : b.lastOrder = a.lastOrder

def core (a : Assembler) : Assembler := { a with store := { a.store with slices := {} } }

theorem SameOpen.refl (a : Assembler) : SameOpen a a := ⟨rfl, rfl, rfl, rfl⟩

theorem SameOpen.of_core (h : b.core = a.core) : SameOpen a b := by
  simp only [core, Assembler.mk.injEq] at h
  obtain ⟨-, -, -, -, buffer, types, isKeyFrame, lastOrder⟩ := h
  exact ⟨buffer, types, isKeyFrame, lastOrder⟩

theorem SameOpen.trans {a b c : Assembler} (h : SameOpen a b) (k : SameOpen b c) :
    SameOpen a c :=
  ⟨k.buffer.trans h.buffer, k.types.trans h.types, k.isKeyFrame.trans h.isKeyFrame,
    k.lastOrder.trans h.lastOrder⟩

def opened (a : Assembler) : AccessUnit :=
  { bytes := a.buffer.bytes, order := a.lastOrder, isKeyFrame := a.isKeyFrame, types := a.types }

def emptied (a : Assembler) : Assembler :=
  { a with buffer := a.buffer.clear, types := [], isKeyFrame := false, lastOrder := none }

theorem takeOpen_of_nonempty (nonempty : a.buffer.bytes ≠ []) :
    a.takeOpen = (some a.opened, a.emptied) := by
  have kept : ¬ a.buffer.bytes.isEmpty = true := mt List.isEmpty_iff.mp nonempty
  rw [takeOpen, if_neg kept]
  rfl

theorem takeOpen_of_empty (empty : a.buffer.bytes = []) : a.takeOpen = (none, a) := by
  rw [takeOpen, if_pos (List.isEmpty_iff.mpr empty)]

theorem SameOpen.opened_eq {a b : Assembler} (same : SameOpen a b) : b.opened = a.opened := by
  rw [opened, opened, same.buffer, same.types, same.isKeyFrame, same.lastOrder]

theorem SameOpen.takeOpen_eq {a b : Assembler} (h : SameOpen a b) :
    b.takeOpen.1 = a.takeOpen.1 := by
  by_cases empty : a.buffer.bytes = []
  · rw [takeOpen_of_empty empty, takeOpen_of_empty (h.buffer ▸ empty)]
  · rw [takeOpen_of_nonempty empty, takeOpen_of_nonempty (h.buffer ▸ empty), h.opened_eq]

/-- Reading a unit leaves the open access unit alone, and a fault leaves the rest alone as well. -/
theorem interpret_frame (u : NalUnit) (a : Assembler) :
    match interpret u a with
    | .ok _ b => SameOpen a b
    | .error _ b => b.core = a.core := by
  by_cases sps : u.header.type = .sps
  · rw [interpret_sps sps]
    cases ParameterStore.readSequence u with
    | error fault => rfl
    | ok sps => exact ⟨rfl, rfl, rfl, rfl⟩
  by_cases pps : u.header.type = .pps
  · rw [interpret_pps pps]
    cases a.store.readPicture u with
    | error fault => rfl
    | ok pps => exact ⟨rfl, rfl, rfl, rfl⟩
  by_cases slice : u.header.type = .idr ∨ u.header.type = .nonIdr
  · rw [interpret_slice slice]
    cases a.store.readSlice u with
    | error fault => rfl
    | ok header =>
      -- The only fault behind a change: the slice header has been stored by now.
      dsimp only
      cases a.orderAfter u header with
      | error fault => rfl
      | ok order => exact ⟨rfl, rfl, rfl, rfl⟩
  · rw [interpret_other sps pps slice]
    exact SameOpen.refl a

theorem interpret_open {order : Option Int} (h : interpret u a = .ok order b) : SameOpen a b := by
  have frame := interpret_frame u a
  rwa [h] at frame

theorem interpret_fault {fault : Fault} (h : interpret u a = .error fault b) :
    b.core = a.core := by
  have frame := interpret_frame u a
  rwa [h] at frame

def collected (a : Assembler) (u : NalUnit) (order : Option Int) (buffer : UnitBuffer) :
    Assembler :=
  { a with
    buffer
    types := a.types ++ [u.header.type]
    isKeyFrame := a.isKeyFrame || u.header.type = .idr
    lastOrder := order <|> a.lastOrder }

def closed (a : Assembler) (type : NalUnitType) : Option AccessUnit × Assembler :=
  if endsAccessUnit a.profile type a.order then a.takeOpen else (none, a)

/-- All but the open access unit, which is what closing leaves alone. -/
structure SameRest (a b : Assembler) : Prop where
  store : b.store = a.store
  order : b.order = a.order
  profile : b.profile = a.profile
  lastSpsId : b.lastSpsId = a.lastSpsId
  capacity : b.buffer.capacity = a.buffer.capacity

theorem SameRest.lastSps_eq (same : SameRest a b) : b.lastSps = a.lastSps := by
  rw [lastSps, lastSps, same.store, same.lastSpsId]

theorem takeOpen_frame (a : Assembler) : SameRest a a.takeOpen.2 := by
  by_cases empty : a.buffer.bytes = []
  · rw [takeOpen_of_empty empty]
    exact ⟨rfl, rfl, rfl, rfl, rfl⟩
  · rw [takeOpen_of_nonempty empty]
    exact ⟨rfl, rfl, rfl, rfl, rfl⟩

theorem closed_frame (a : Assembler) (type : NalUnitType) : SameRest a (a.closed type).2 := by
  unfold closed
  split
  · exact takeOpen_frame a
  · exact ⟨rfl, rfl, rfl, rfl, rfl⟩

theorem close_eq (a : Assembler) (type : NalUnitType) :
    close type a = .ok (a.closed type).1 (a.closed type).2 := by
  unfold close closed
  rw [Step.get_bind]
  by_cases ends : endsAccessUnit a.profile type a.order
  · rw [if_pos ends, if_pos ends]
    rfl
  · rw [if_neg ends, if_neg ends]
    rfl

def finish (a : Assembler) (u : NalUnit) (order : Option Int) :
    EStateM.Result Fault Assembler (Option AccessUnit) :=
  match a.buffer.append u.framed with
  | .error fault => .error fault a
  | .ok buffer =>
    .ok ((a.collected u order buffer).closed u.header.type).1
      ((a.collected u order buffer).closed u.header.type).2

theorem push_eq (framed : List UInt8) (a : Assembler) :
    push framed a =
      match NalUnit.ofFramed framed with
      | .error fault => .error fault a
      | .ok u =>
        match interpret u a with
        | .error fault b => .error fault b
        | .ok order b => b.finish u order := by
  unfold push
  rw [Step.ofExcept_bind]
  cases NalUnit.ofFramed framed with
  | error fault => rfl
  | ok u =>
    dsimp only
    rw [bind_run]
    cases interpret u a with
    | error fault b => rfl
    | ok order b =>
      dsimp only
      rw [bind_run, collect, Step.get_bind, Step.ofExcept_bind, finish]
      cases b.buffer.append u.framed with
      | error fault => rfl
      | ok buffer => exact close_eq (b.collected u order buffer) u.header.type

theorem push_ok {framed : List UInt8} {unit : Option AccessUnit}
    (h : push framed a = .ok unit b) :
    ∃ u order c buffer, NalUnit.ofFramed framed = .ok u ∧ interpret u a = .ok order c ∧
      c.buffer.append framed = .ok buffer ∧
      (unit, b) = (c.collected u order buffer).closed u.header.type := by
  rw [push_eq] at h
  split at h
  · cases h
  · next u cutting =>
    split at h
    · cases h
    · next order c read =>
      unfold finish at h
      split at h
      · cases h
      · next buffer appended =>
        cases h
        rw [(NalUnit.ofFramed_ok cutting).2] at appended
        exact ⟨u, order, c, buffer, cutting, read, appended, rfl⟩

/-- Where a unit may be refused: before it leaves a trace, or as its bytes do not fit. -/
theorem push_fault {framed : List UInt8} {fault : Fault} (h : push framed a = .error fault b) :
    b.core = a.core ∨ SameOpen a b ∧ a.buffer.append framed = .error fault := by
  rw [push_eq] at h
  split at h
  · cases h
    exact Or.inl rfl
  · next u cutting =>
    split at h
    · next read =>
      cases h
      exact Or.inl (interpret_fault read)
    · next order c read =>
      unfold finish at h
      split at h
      · next refused =>
        cases h
        have same := interpret_open read
        rw [(NalUnit.ofFramed_ok cutting).2, same.buffer] at refused
        exact Or.inr ⟨same, refused⟩
      · cases h

theorem push_fault_open {framed : List UInt8} {fault : Fault}
    (h : push framed a = .error fault b) : SameOpen a b := by
  rcases push_fault h with same | ⟨same, -⟩
  · exact SameOpen.of_core same
  · exact same

theorem takeOpen_bytes (a : Assembler) :
    a.takeOpen.1.toList.flatMap AccessUnit.bytes ++ a.takeOpen.2.buffer.bytes =
      a.buffer.bytes := by
  by_cases empty : a.buffer.bytes = []
  · rw [takeOpen_of_empty empty]
    rfl
  · rw [takeOpen_of_nonempty empty]
    simp [opened, emptied, UnitBuffer.clear]

theorem takeOpen_all (a : Assembler) :
    a.takeOpen.1.toList.flatMap AccessUnit.bytes = a.buffer.bytes := by
  have kept := takeOpen_bytes a
  have nothing : a.takeOpen.2.buffer.bytes = [] := by
    by_cases empty : a.buffer.bytes = []
    · rwa [takeOpen_of_empty empty]
    · rw [takeOpen_of_nonempty empty]
      rfl
  rwa [nothing, List.append_nil] at kept

theorem closed_bytes (a : Assembler) (type : NalUnitType) :
    (a.closed type).1.toList.flatMap AccessUnit.bytes ++ (a.closed type).2.buffer.bytes =
      a.buffer.bytes := by
  unfold closed
  split
  · exact takeOpen_bytes a
  · rfl

theorem push_bytes {framed : List UInt8} {unit : Option AccessUnit}
    (h : push framed a = .ok unit b) :
    unit.toList.flatMap AccessUnit.bytes ++ b.buffer.bytes = a.buffer.bytes ++ framed := by
  obtain ⟨u, order, c, buffer, -, read, appended, result⟩ := push_ok h
  have whole := closed_bytes (c.collected u order buffer) u.header.type
  rw [← result] at whole
  have bytes := UnitBuffer.append_bytes appended
  rw [(interpret_open read).buffer] at bytes
  exact whole.trans bytes

end Assembler

theorem NalUnitType.isSlice_iff {type : NalUnitType} :
    type.isSlice = true ↔ type = .idr ∨ type = .nonIdr := by
  cases type <;> simp [isSlice]

theorem NalUnitType.ne_of_isSlice {type other : NalUnitType} (slice : type.isSlice = true)
    (noSlice : other.isSlice = false) : type ≠ other := by
  intro same
  rw [same, noSlice] at slice
  cases slice

namespace Assembler

def keepSequence (a : Assembler) (sps : SequenceParameterSet) : Assembler :=
  { a with
    store := { a.store with sequences := a.store.sequences.insert sps.format.id sps }
    profile := sps.profile
    lastSpsId := some sps.format.id }

def keepPicture (a : Assembler) (pps : PictureParameterSet) : Assembler :=
  { a with store := { a.store with pictures := a.store.pictures.insert pps.id pps } }

/-- What reading a unit leads to, if it succeeds: the count of a slice, and the assembler that has
taken over what the unit says. -/
inductive Interpreted (u : NalUnit) (a : Assembler) : Option Int → Assembler → Prop
  | sequence {sps : SequenceParameterSet} (type : u.header.type = .sps)
      (read : ParameterStore.readSequence u = .ok sps) :
      Interpreted u a none (a.keepSequence sps)
  | picture {pps : PictureParameterSet} (type : u.header.type = .pps)
      (read : a.store.readPicture u = .ok pps) : Interpreted u a none (a.keepPicture pps)
  | slice {header : SliceHeader} {order : PictureOrder} (type : u.header.type.isSlice = true)
      (read : a.store.readSlice u = .ok header) (moved : a.orderAfter u header = .ok order) :
      Interpreted u a (some order.count) { a.keepSlice header with order }
  | other (sps : u.header.type ≠ .sps) (pps : u.header.type ≠ .pps)
      (slice : u.header.type.isSlice = false) : Interpreted u a none a

variable {u : NalUnit} {a b : Assembler} {count : Option Int}

theorem interpret_ok (read : interpret u a = .ok count b) : Interpreted u a count b := by
  by_cases type : u.header.type = .sps
  · rw [interpret_sps type] at read
    split at read
    · cases read
    next found =>
    cases read
    exact .sequence type found
  by_cases other : u.header.type = .pps
  · rw [interpret_pps other] at read
    split at read
    · cases read
    next found =>
    cases read
    exact .picture other found
  by_cases slice : u.header.type.isSlice = true
  · rw [interpret_slice (NalUnitType.isSlice_iff.mp slice)] at read
    split at read
    · cases read
    next found =>
    split at read
    · cases read
    next moved =>
    cases read
    exact .slice slice found moved
  · rw [interpret_other type other (mt NalUnitType.isSlice_iff.mpr slice)] at read
    cases read
    exact .other type other (eq_false_of_ne_true slice)

theorem Interpreted.interpret_eq (h : Interpreted u a count b) : interpret u a = .ok count b := by
  cases h with
  | sequence type read =>
    rw [interpret_sps type, read]
    rfl
  | picture type read =>
    rw [interpret_pps type, read]
    rfl
  | slice type read moved =>
    rw [interpret_slice (NalUnitType.isSlice_iff.mp type), read]
    dsimp only
    rw [moved]
  | other sps pps slice =>
    exact interpret_other sps pps (mt NalUnitType.isSlice_iff.mpr (ne_true_of_eq_false slice)) a

/-- Takes in one unit after the other, refused or not. Gives the access units that they end. -/
def pushAll : List (List UInt8) → Assembler → List AccessUnit × Assembler
  | [], a => ([], a)
  | framed :: later, a =>
    match push framed a with
    | .ok unit b => (unit.toList ++ (pushAll later b).1, (pushAll later b).2)
    | .error _ b => pushAll later b

variable {α : Type}

def accepted (bytes : α → List UInt8) : List α → Assembler → List α
  | [], _ => []
  | item :: later, a =>
    match push (bytes item) a with
    | .ok _ b => item :: accepted bytes later b
    | .error _ b => accepted bytes later b

theorem accepted_sublist (bytes : α → List UInt8) (items : List α) (a : Assembler) :
    (accepted bytes items a).Sublist items := by
  induction items generalizing a with
  | nil => exact List.Sublist.refl []
  | cons item later ih =>
    unfold accepted
    split
    · next b _ => exact (ih b).cons_cons item
    · next b _ => exact (ih b).cons item

theorem map_accepted (bytes : α → List UInt8) (items : List α) (a : Assembler) :
    (accepted bytes items a).map bytes = accepted id (items.map bytes) a := by
  induction items generalizing a with
  | nil => rfl
  | cons item later ih =>
    simp only [List.map_cons, accepted, id_eq]
    cases push (bytes item) a with
    | ok unit b => simp only [List.map_cons, ih]
    | error fault b => exact ih b

/-- What goes into a run comes out of it, or is still in the open access unit. -/
theorem pushAll_bytes (units : List (List UInt8)) (a : Assembler) :
    (pushAll units a).1.flatMap AccessUnit.bytes ++ (pushAll units a).2.buffer.bytes =
      a.buffer.bytes ++ (accepted id units a).flatten := by
  induction units generalizing a with
  | nil => simp [pushAll, accepted]
  | cons framed later ih =>
    unfold pushAll accepted
    cases pushed : push framed a with
    | ok unit b =>
      have step := push_bytes pushed
      simp only [id_eq, pushed, List.flatMap_append, List.append_assoc, List.flatten_cons]
      rw [ih b, ← List.append_assoc, step, List.append_assoc]
    | error fault b =>
      simp only [id_eq, pushed]
      rw [ih b, (push_fault_open pushed).buffer]

theorem pushAll_of_accepted_nil {units : List (List UInt8)} {a : Assembler}
    (h : accepted id units a = []) :
    (pushAll units a).1 = [] ∧ SameOpen a (pushAll units a).2 := by
  induction units generalizing a with
  | nil => exact ⟨rfl, SameOpen.refl a⟩
  | cons framed later ih =>
    unfold accepted at h
    unfold pushAll
    cases pushed : push framed a with
    | ok unit b =>
      simp only [id_eq, pushed] at h
      cases h
    | error fault b =>
      simp only [id_eq, pushed] at h ⊢
      obtain ⟨none, same⟩ := ih h
      exact ⟨none, (push_fault_open pushed).trans same⟩

def accessUnits (units : List (List UInt8)) (a : Assembler) : List AccessUnit :=
  (pushAll units a).1 ++ (pushAll units a).2.takeOpen.1.toList

theorem accessUnits_bytes (units : List (List UInt8)) (a : Assembler) :
    (accessUnits units a).flatMap AccessUnit.bytes =
      a.buffer.bytes ++ (accepted id units a).flatten := by
  unfold accessUnits
  rw [List.flatMap_append, takeOpen_all]
  exact pushAll_bytes units a

theorem accessUnits_eq_open_iff {units : List (List UInt8)} {a : Assembler}
    (nonempty : ∀ framed ∈ units, framed ≠ []) :
    accessUnits units a = a.takeOpen.1.toList ↔ accepted id units a = [] := by
  constructor
  · intro same
    -- The bytes of accepted units have nowhere to be.
    have bytes := accessUnits_bytes units a
    rw [same, takeOpen_all] at bytes
    have none : (accepted id units a).flatten = [] := List.self_eq_append_right.mp bytes
    apply List.eq_nil_iff_forall_not_mem.mpr
    intro framed taken
    have member := (accepted_sublist id units a).subset taken
    exact nonempty framed member (List.flatten_eq_nil_iff.mp none framed taken)
  · intro none
    obtain ⟨nothing, same⟩ := pushAll_of_accepted_nil none
    rw [accessUnits, nothing, same.takeOpen_eq]
    rfl

end Assembler
end EvcStream
