import EvcStream.Nal.Compose
/-!
# The parameter store

The store remembers parameter sets so that later units can refer to them by id, and the last slice
header decoded under each picture parameter set. A unit that cannot be decoded leaves it as it was.
-/
namespace EvcStream

structure IdTable (α : Type) where
  entries : List (Nat × α) := []
  deriving DecidableEq, Repr

namespace IdTable

variable {α : Type}

def find? (table : IdTable α) (id : Nat) : Option α := table.entries.lookup id

def contains (table : IdTable α) (id : Nat) : Bool := (table.find? id).isSome

def insert (table : IdTable α) (id : Nat) (value : α) : IdTable α :=
  { entries := (id, value) :: table.entries.filter (fun entry => entry.1 != id) }

@[simp] theorem find?_empty (id : Nat) : find? ({} : IdTable α) id = none := rfl

theorem lookup_filter_ne (entries : List (Nat × α)) {i j : Nat} (h : j ≠ i) :
    (entries.filter (fun entry => entry.1 != i)).lookup j = entries.lookup j := by
  induction entries with
  | nil => rfl
  | cons entry entries ih =>
    obtain ⟨id, value⟩ := entry
    by_cases same : id = i
    · subst same
      have apart : (j == id) = false := by simpa using h
      simp [List.lookup_cons, apart, ih]
    · have kept : (id != i) = true := by simpa using same
      simp only [List.filter_cons, kept, if_true, List.lookup_cons, ih]

theorem find?_insert (table : IdTable α) (i j : Nat) (value : α) :
    (table.insert i value).find? j = if j = i then some value else table.find? j := by
  unfold insert find?
  by_cases same : j = i
  · subst same
    simp
  · have apart : (j == i) = false := by simpa using same
    simp only [List.lookup_cons, apart, if_neg same]
    exact lookup_filter_ne table.entries same

end IdTable

structure ParameterStore where
  sequences : IdTable SequenceParameterSet := {}
  pictures : IdTable PictureParameterSet := {}
  slices : IdTable SliceHeader := {}
  deriving DecidableEq, Repr

def NalUnit.read {α : Type} (u : NalUnit) (decoder : Decoder α) : Except Fault α :=
  match decoder (BitReader.ofBytes u.payload) with
  | .ok value _ => .ok value
  | .error fault _ => .error fault

def NalUnit.requireType (u : NalUnit) (expected : List NalUnitType) : Except Fault Unit :=
  if u.header.type ∈ expected then .ok ()
  else .error (.unexpectedType expected u.header.type)

namespace ParameterStore

def resolve (store : ParameterStore) (ppsId : Nat) :
    Except Fault (PictureParameterSet × SequenceParameterSet) :=
  match store.pictures.find? ppsId with
  | none => .error (.unknownPps ppsId)
  | some pps =>
    match store.sequences.find? pps.spsId with
    | none => .error (.lostSps ppsId pps.spsId)
    | some sps => .ok (pps, sps)

def readSequence (u : NalUnit) : Except Fault SequenceParameterSet := do
  u.requireType [.sps]
  u.read SequenceParameterSet.decode

def readPicture (store : ParameterStore) (u : NalUnit) : Except Fault PictureParameterSet := do
  u.requireType [.pps]
  u.read (PictureParameterSet.decode store.sequences.contains)

def readSlice (store : ParameterStore) (u : NalUnit) : Except Fault SliceHeader := do
  u.requireType [.nonIdr, .idr]
  u.read (SliceHeader.decode (u.header.type = .idr) store.resolve)

def addSequence (store : ParameterStore) (u : NalUnit) :
    Except Fault (SequenceParameterSet × ParameterStore) := do
  let sps ← readSequence u
  return (sps, { store with sequences := store.sequences.insert sps.format.id sps })

def addPicture (store : ParameterStore) (u : NalUnit) :
    Except Fault (PictureParameterSet × ParameterStore) := do
  let pps ← store.readPicture u
  return (pps, { store with pictures := store.pictures.insert pps.id pps })

def addSlice (store : ParameterStore) (u : NalUnit) :
    Except Fault (SliceHeader × ParameterStore) := do
  let header ← store.readSlice u
  return (header, { store with slices := store.slices.insert header.ppsId header })

end ParameterStore
end EvcStream
