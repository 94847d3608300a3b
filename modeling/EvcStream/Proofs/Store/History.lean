import EvcStream.Proofs.Store.Reachable
/-!
# The store as the history of its writes

A caller hands unit after unit to an empty store, each as the kind of unit it takes it for, and
goes on after those that are refused. At any time the store holds, for each kind and id, what the
last accepted call of that kind read under that id. One call writes one entry or nothing, and it
looks at no other entries than those its unit refers to.
-/
namespace EvcStream

def latest {α : Type} (idOf : α → Nat) (id : Nat) (values : List α) : Option α :=
  (values.filter (idOf · = id)).getLast?

theorem latest_append_toList {α : Type} (idOf : α → Nat) (id : Nat) (values : List α)
    (value : Option α) :
    latest idOf id (values ++ value.toList) =
      (value.filter (idOf · = id)).or (latest idOf id values) := by
  unfold latest
  cases value with
  | none => simp
  | some value =>
    by_cases same : idOf value = id
    · simp [Option.filter_some, same]
    · simp [Option.filter_some, same]

theorem IdTable.find?_insert_eq_or {α : Type} (table : IdTable α) (idOf : α → Nat) (value : α)
    (id : Nat) :
    (table.insert (idOf value) value).find? id =
      ((some value).filter (idOf · = id)).or (table.find? id) := by
  rw [IdTable.find?_insert]
  by_cases same : idOf value = id
  · simp [Option.filter_some, same]
  · have apart : ¬ id = idOf value := fun h => same h.symm
    simp [Option.filter_some, same, apart]

namespace IdTable

variable {α : Type}

def erase (table : IdTable α) (id : Nat) : IdTable α :=
  { entries := table.entries.filter (fun entry => entry.1 != id) }

/-- A value that is there already is kept. -/
def insertNew (table : IdTable α) (id : Nat) (value : α) : IdTable α :=
  if table.contains id then table else { entries := (id, value) :: table.entries }

theorem contains_erase (table : IdTable α) (id : Nat) : (table.erase id).contains id = false := by
  unfold erase contains find?
  rw [Option.isSome_eq_false_iff, Option.isNone_iff_eq_none, List.lookup_eq_none_iff]
  intro entry member
  have kept := (List.mem_filter.mp member).2
  simpa [bne_comm] using kept

theorem insertNew_erase (table : IdTable α) (id : Nat) (value : α) :
    (table.erase id).insertNew id value = table.insert id value := by
  rw [insertNew, contains_erase]
  rfl

end IdTable

namespace NalUnit

def namedSequence (u : NalUnit) : Except Fault Nat :=
  u.read do
    let _ ← Decoder.ueMax PictureParameterSet.maxId
    Decoder.ueMax PictureParameterSet.maxSpsId

def namedPicture (u : NalUnit) : Except Fault Nat :=
  u.read (Decoder.ueMax PictureParameterSet.maxId)

end NalUnit

namespace ParameterStore

/-- A unit, and the kind of unit that a caller takes it for. -/
inductive Call where
  | sequence (u : NalUnit)
  | picture (u : NalUnit)
  | slice (u : NalUnit)
  deriving DecidableEq, Repr

inductive Entry where
  | sequence (sps : SequenceParameterSet)
  | picture (pps : PictureParameterSet)
  | slice (header : SliceHeader)
  deriving DecidableEq, Repr

namespace Entry

def sequence? : Entry → Option SequenceParameterSet
  | sequence sps => some sps
  | _ => none

def picture? : Entry → Option PictureParameterSet
  | picture pps => some pps
  | _ => none

def slice? : Entry → Option SliceHeader
  | slice header => some header
  | _ => none

end Entry

def answer (store : ParameterStore) : Call → Except Fault (Entry × ParameterStore)
  | .sequence u => do
    let (sps, next) ← store.addSequence u
    return (.sequence sps, next)
  | .picture u => do
    let (pps, next) ← store.addPicture u
    return (.picture pps, next)
  | .slice u => do
    let (header, next) ← store.addSlice u
    return (.slice header, next)

/-- Makes one call after the other, refused or not. Gives what the accepted ones have read. -/
def run : List Call → ParameterStore → List Entry × ParameterStore
  | [], store => ([], store)
  | call :: later, store =>
    match store.answer call with
    | .error _ => run later store
    | .ok (entry, next) => (entry :: (run later next).1, (run later next).2)

/-- For each kind and id, the store holds the last entry written under it. -/
structure Remembers (store : ParameterStore) (written : List Entry) : Prop where
  sequences : ∀ id, store.sequences.find? id =
    latest (·.format.id) id (written.filterMap Entry.sequence?)
  pictures : ∀ id, store.pictures.find? id =
    latest PictureParameterSet.id id (written.filterMap Entry.picture?)
  slices : ∀ id, store.slices.find? id =
    latest SliceHeader.ppsId id (written.filterMap Entry.slice?)

/-- The entry has gone to the table of its kind under its id, and nothing else has changed. -/
structure Updates (entry : Entry) (store next : ParameterStore) : Prop where
  sequences : ∀ id, next.sequences.find? id =
    (entry.sequence?.filter (·.format.id = id)).or (store.sequences.find? id)
  pictures : ∀ id, next.pictures.find? id =
    (entry.picture?.filter (·.id = id)).or (store.pictures.find? id)
  slices : ∀ id, next.slices.find? id =
    (entry.slice?.filter (·.ppsId = id)).or (store.slices.find? id)

/-- Two stores agree on what a unit refers to: a picture parameter set on whether there is a
sequence parameter set, a slice on both of its parameter sets. -/
def AgreeFor (store other : ParameterStore) : Call → Prop
  | .sequence _ => True
  | .picture u => ∀ id, u.namedSequence = .ok id →
      store.sequences.contains id = other.sequences.contains id
  | .slice u => ∀ id, u.namedPicture = .ok id →
      store.pictures.find? id = other.pictures.find? id ∧
        ∀ pps, store.pictures.find? id = some pps →
          store.sequences.find? pps.spsId = other.sequences.find? pps.spsId

variable {store next other : ParameterStore} {call : Call} {entry : Entry}

theorem answer_ok (answered : store.answer call = .ok (entry, next)) :
    (∃ u sps, call = .sequence u ∧ entry = .sequence sps ∧
      store.addSequence u = .ok (sps, next)) ∨
    (∃ u pps, call = .picture u ∧ entry = .picture pps ∧
      store.addPicture u = .ok (pps, next)) ∨
    (∃ u header, call = .slice u ∧ entry = .slice header ∧
      store.addSlice u = .ok (header, next)) := by
  cases call with
  | sequence u =>
    obtain ⟨⟨sps, behind⟩, added, last⟩ := Fault.bind_ok answered
    cases last
    exact Or.inl ⟨u, sps, rfl, rfl, added⟩
  | picture u =>
    obtain ⟨⟨pps, behind⟩, added, last⟩ := Fault.bind_ok answered
    cases last
    exact Or.inr (Or.inl ⟨u, pps, rfl, rfl, added⟩)
  | slice u =>
    obtain ⟨⟨header, behind⟩, added, last⟩ := Fault.bind_ok answered
    cases last
    exact Or.inr (Or.inr ⟨u, header, rfl, rfl, added⟩)

theorem answer_updates (answered : store.answer call = .ok (entry, next)) :
    Updates entry store next := by
  rcases answer_ok answered with ⟨u, sps, rfl, rfl, added⟩ | ⟨u, pps, rfl, rfl, added⟩ |
    ⟨u, header, rfl, rfl, added⟩
  · obtain ⟨-, rfl⟩ := stored_of_ok added
    constructor
    · intro id
      exact IdTable.find?_insert_eq_or store.sequences (·.format.id) sps id
    · intro id
      rfl
    · intro id
      rfl
  · obtain ⟨-, rfl⟩ := stored_of_ok added
    constructor
    · intro id
      rfl
    · intro id
      exact IdTable.find?_insert_eq_or store.pictures PictureParameterSet.id pps id
    · intro id
      rfl
  · obtain ⟨-, rfl⟩ := stored_of_ok added
    constructor
    · intro id
      rfl
    · intro id
      rfl
    · intro id
      exact IdTable.find?_insert_eq_or store.slices SliceHeader.ppsId header id

theorem filterMap_concat_eq {α : Type} (part : Entry → Option α) (written : List Entry)
    (entry : Entry) :
    (written ++ [entry]).filterMap part = written.filterMap part ++ (part entry).toList := by
  rw [List.filterMap_append]
  cases found : part entry with
  | none => simp [found]
  | some value => simp [found]

theorem Remembers.update {written : List Entry} (remembers : store.Remembers written)
    (updates : Updates entry store next) : next.Remembers (written ++ [entry]) := by
  constructor
  · intro id
    rw [filterMap_concat_eq, latest_append_toList, updates.sequences, remembers.sequences]
  · intro id
    rw [filterMap_concat_eq, latest_append_toList, updates.pictures, remembers.pictures]
  · intro id
    rw [filterMap_concat_eq, latest_append_toList, updates.slices, remembers.slices]

/-- A picture parameter set that is decoded asks only for the set that it names. -/
theorem picture_decode_congr {known shown : Nat → Bool} {u : NalUnit}
    (agree : ∀ id, u.namedSequence = .ok id → known id = shown id) :
    u.read (PictureParameterSet.decode known) = u.read (PictureParameterSet.decode shown) := by
  unfold NalUnit.namedSequence at agree
  unfold NalUnit.read at agree ⊢
  unfold PictureParameterSet.decode
  simp only [bind_run] at agree ⊢
  cases front : Decoder.ueMax PictureParameterSet.maxId (BitReader.ofBytes u.payload) with
  | error fault s => rfl
  | ok id s =>
    dsimp only
    cases named : Decoder.ueMax PictureParameterSet.maxSpsId s with
    | error fault t => rfl
    | ok spsId t =>
      have same : known spsId = shown spsId := by
        apply agree
        rw [front]
        dsimp only
        rw [named]
      dsimp only
      rw [same]

theorem slice_decode_congr {isIdr : Bool} {u : NalUnit}
    {find seek : Nat → Except Fault (PictureParameterSet × SequenceParameterSet)}
    (agree : ∀ id, u.namedPicture = .ok id → find id = seek id) :
    u.read (SliceHeader.decode isIdr find) = u.read (SliceHeader.decode isIdr seek) := by
  unfold NalUnit.namedPicture at agree
  unfold NalUnit.read at agree ⊢
  unfold SliceHeader.decode
  simp only [bind_run]
  cases named : Decoder.ueMax PictureParameterSet.maxId (BitReader.ofBytes u.payload) with
  | error fault s => rfl
  | ok id s =>
    have same : find id = seek id := by
      apply agree
      rw [named]
    dsimp only
    rw [same]

theorem resolve_congr {id : Nat} (picture : store.pictures.find? id = other.pictures.find? id)
    (sequence : ∀ pps, store.pictures.find? id = some pps →
      store.sequences.find? pps.spsId = other.sequences.find? pps.spsId) :
    store.resolve id = other.resolve id := by
  unfold resolve
  rw [← picture]
  cases found : store.pictures.find? id with
  | none => rfl
  | some pps =>
    dsimp only
    rw [sequence pps found]

theorem answer_congr (agree : AgreeFor store other call) :
    (store.answer call).map Prod.fst = (other.answer call).map Prod.fst := by
  cases call with
  | sequence u =>
    dsimp only [answer, addSequence]
    cases readSequence u <;> rfl
  | picture u =>
    have same : store.readPicture u = other.readPicture u := by
      unfold readPicture
      rw [picture_decode_congr agree]
    dsimp only [answer, addPicture]
    rw [same]
    cases other.readPicture u <;> rfl
  | slice u =>
    have same : store.readSlice u = other.readSlice u := by
      unfold readSlice
      rw [slice_decode_congr]
      intro id named
      exact resolve_congr (agree id named).1 (agree id named).2
    dsimp only [answer, addSlice]
    rw [same]
    cases other.readSlice u <;> rfl

/-- Serves a call in place. The unit is read over the store as it is, then the entry that its id
had is taken out, and then the new one is put in. -/
def serve : Call → EStateM Fault ParameterStore Entry
  | .sequence u => do
    let sps ← ofExcept (readSequence u)
    modify fun store => { store with sequences := store.sequences.erase sps.format.id }
    modify fun store => { store with sequences := store.sequences.insertNew sps.format.id sps }
    return .sequence sps
  | .picture u => do
    let pps ← ofExcept (readPicture (← get) u)
    modify fun store => { store with pictures := store.pictures.erase pps.id }
    modify fun store => { store with pictures := store.pictures.insertNew pps.id pps }
    return .picture pps
  | .slice u => do
    let header ← ofExcept (readSlice (← get) u)
    modify fun store => { store with slices := store.slices.erase header.ppsId }
    modify fun store => { store with slices := store.slices.insertNew header.ppsId header }
    return .slice header

/-- In place or not, a call gets the same answer, and nothing is done to a store that refuses. -/
theorem serve_eq (call : Call) (store : ParameterStore) :
    serve call store = match store.answer call with
      | .ok (entry, next) => .ok entry next
      | .error fault => .error fault store := by
  cases call with
  | sequence u =>
    dsimp only [serve, answer, addSequence]
    cases readSequence u with
    | error fault => rfl
    | ok sps =>
      have stored := store.sequences.insertNew_erase sps.format.id sps
      exact congrArg (fun sequences => EStateM.Result.ok (Entry.sequence sps) { store with sequences })
        stored
  | picture u =>
    change (ofExcept (store.readPicture u) >>= _ : EStateM Fault ParameterStore Entry) store = _
    dsimp only [answer, addPicture]
    cases store.readPicture u with
    | error fault => rfl
    | ok pps =>
      have stored := store.pictures.insertNew_erase pps.id pps
      exact congrArg (fun pictures => EStateM.Result.ok (Entry.picture pps) { store with pictures })
        stored
  | slice u =>
    change (ofExcept (store.readSlice u) >>= _ : EStateM Fault ParameterStore Entry) store = _
    dsimp only [answer, addSlice]
    cases store.readSlice u with
    | error fault => rfl
    | ok header =>
      have stored := store.slices.insertNew_erase header.ppsId header
      exact congrArg (fun slices => EStateM.Result.ok (Entry.slice header) { store with slices })
        stored

theorem serve_error {fault : Fault} (failed : serve call store = .error fault next) :
    next = store := by
  rw [serve_eq] at failed
  split at failed <;> cases failed
  rfl

def serveAll : List Call → ParameterStore → List Entry × ParameterStore
  | [], store => ([], store)
  | call :: later, store =>
    match serve call store with
    | .error _ store => serveAll later store
    | .ok entry store => (entry :: (serveAll later store).1, (serveAll later store).2)

theorem serveAll_eq (calls : List Call) (store : ParameterStore) :
    serveAll calls store = run calls store := by
  induction calls generalizing store with
  | nil => rfl
  | cons call later ih =>
    rw [serveAll, run, serve_eq]
    cases store.answer call with
    | error fault => exact ih store
    | ok result => simp only [ih]

theorem run_concat (calls : List Call) (call : Call) (store : ParameterStore) :
    run (calls ++ [call]) store =
      match (run calls store).2.answer call with
      | .error _ => run calls store
      | .ok (entry, next) => ((run calls store).1 ++ [entry], next) := by
  induction calls generalizing store with
  | nil =>
    simp only [List.nil_append, run]
  | cons first later ih =>
    simp only [List.cons_append, run]
    cases store.answer first with
    | error fault => exact ih store
    | ok result =>
      obtain ⟨entry, next⟩ := result
      dsimp only
      rw [ih next]
      cases (run later next).2.answer call <;> rfl

theorem run_remembers (calls : List Call) :
    (run calls {}).2.Remembers (run calls {}).1 := by
  induction calls using List.reverseRecOn with
  | nil => exact ⟨fun _ => rfl, fun _ => rfl, fun _ => rfl⟩
  | append_singleton calls call ih =>
    rw [run_concat]
    cases answered : (run calls {}).2.answer call with
    | error fault => exact ih
    | ok result =>
      obtain ⟨entry, next⟩ := result
      exact ih.update (answer_updates answered)

/-- Behind any run, the store holds the last entry of each kind and id. The next call either is
refused and leaves all of it alone, or changes what its own entry is about. Its answer would be the
same over any store that agrees on what the unit refers to. -/
theorem last_writer_wins (calls : List Call) (call : Call) :
    let (written, store) := run calls {}
    store.Remembers written ∧
    (match store.answer call with
      | .error _ => run (calls ++ [call]) {} = (written, store)
      | .ok (entry, next) =>
        run (calls ++ [call]) {} = (written ++ [entry], next) ∧ Updates entry store next) ∧
    ∀ other : ParameterStore, AgreeFor store other call →
      (store.answer call).map Prod.fst = (other.answer call).map Prod.fst := by
  refine ⟨run_remembers calls, ?_, ?_⟩
  · rw [run_concat]
    cases answered : (run calls {}).2.answer call with
    | error fault => rfl
    | ok result =>
      obtain ⟨entry, next⟩ := result
      exact ⟨rfl, answer_updates answered⟩
  · intro other agree
    exact answer_congr agree

/-- A picture parameter set that comes too early, a sequence parameter set that is replaced, and a
slice under the new one. The other store knows one set more. -/
theorem last_writer_wins_replaced :
    let older : SequenceParameterSet :=
      { format := { id := 3, profileIdc := 1, chromaFormatIdc := 3 }
        motion := { advanced := true, mergeDifference := true }
        loop := { adaptiveLoopFilter := true }
        log2MaxOrderLsbMinus4 := some 12 }
    let newer := { older with format := { older.format with levelIdc := 1 } }
    let pps : PictureParameterSet :=
      { id := 9, spsId := 3, grid := { columnsMinus1 := 1, rowsMinus1 := 1 }
        tiling := some { spacing := none }
        tileIdLengthMinus1 := 31, arbitrarySlices := true }
    let first : NalUnit :=
      { header := .plain .sps 0
        bytes := [50, 0, 32, 8, 0, 0, 0, 0, 0, 0, 0, 0, 1, 60, 136, 36, 27, 196] }
    let second : NalUnit :=
      { header := .plain .sps 0
        bytes := [50, 0, 32, 8, 8, 0, 0, 0, 0, 0, 0, 0, 1, 60, 136, 36, 27, 196] }
    let picture : NalUnit :=
      { header := .plain .pps 0, bytes := [52, 0, 20, 78, 37, 65, 1, 32] }
    let slice : NalUnit :=
      { header := .plain .nonIdr 5
        bytes := [3, 64, 20, 255, 255, 255, 255, 168, 0, 0, 0, 15, 255, 255, 255, 253, 254, 119,
          255, 249, 77, 33] }
    let calls : List Call := [.picture picture, .sequence first, .picture picture, .sequence second]
    let (written, store) := run calls {}
    let other := { store with sequences := store.sequences.insert 4 older }
    written = [.sequence older, .picture pps, .sequence newer] ∧
    store.Remembers written ∧ AgreeFor store other (.slice slice) ∧
    (store.answer (.slice slice)).toOption.isSome ∧
    (store.answer (.slice slice)).map Prod.fst = (other.answer (.slice slice)).map Prod.fst := by
  intro older newer pps first second picture slice calls
  have named : slice.namedPicture = .ok 9 := Fault.ok_of_toOption (by decide +kernel)
  have agree : AgreeFor (run calls {}).2
      { (run calls {}).2 with sequences := (run calls {}).2.sequences.insert 4 older }
      (.slice slice) := by
    intro id found
    obtain rfl : 9 = id := Except.ok.inj (named.symm.trans found)
    refine ⟨rfl, ?_⟩
    intro found stored
    have known : (run calls {}).2.pictures.find? 9 = some pps := by decide +kernel
    obtain rfl : pps = found := Option.some.inj (known.symm.trans stored)
    decide +kernel
  obtain ⟨remembers, -, congr⟩ := last_writer_wins calls (.slice slice)
  refine ⟨by decide +kernel, remembers, agree, by decide +kernel, ?_⟩
  exact congr _ agree

end ParameterStore
end EvcStream
