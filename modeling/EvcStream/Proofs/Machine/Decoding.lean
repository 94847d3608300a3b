import EvcStream.Proofs.Machine.Reading
/-!
# Fields and tables on a machine

The decoders of fields, of lists and of tables, with their arrays and the sizes of these. None is
indexed out of its bounds.
-/
namespace EvcStream.Machine

abbrev Decoder := Run Fault ByteReader

namespace Decoder

variable {α σ : Type}

def ofRead (read : Run ReadError ByteReader α) : Decoder α := fun r => do
  match ← read r with
  | .ok value s => return .ok value s
  | .error error s => return .error (.bits error) s

def flag : Decoder Bool := ofRead ByteReader.bit

def u (width : Nat) : Decoder Nat := ofRead (ByteReader.bits width)

def ue : Decoder Nat := ofRead ByteReader.ue

def ueMax (high : Nat) : Decoder Nat := ofRead (ByteReader.ueMax high)

def se : Decoder Int := ofRead ByteReader.se

def optional (coded : Bool) (part : Decoder α) : Decoder (Option α) :=
  if coded then some <$> part else pure none

def flagged (part : Decoder α) : Decoder (Option α) := do
  optional (← flag) part

def times : Nat → Decoder α → Decoder (List α)
  | 0, _ => pure []
  | count + 1, item => do
    let first ← item
    let others ← times count item
    return first :: others

def steps (step : Nat → σ → Decoder σ) : Nat → Nat → σ → Decoder σ
  | _, 0, state => pure state
  | i, count + 1, state => do
    let state ← step i state
    steps step (i + 1) count state

end Decoder

namespace Does

variable {α : Type} {post : α → Prop}

theorem of_read {read : Run ReadError ByteReader α} {part : ReadM α} (h : Does read part post) :
    Does (Decoder.ofRead read) (EvcStream.Decoder.ofRead part) post := by
  intro r sound
  have ended := h r sound
  unfold Decoder.ofRead EvcStream.Decoder.ofRead
  generalize read r = result, part r.view = outcome at ended ⊢
  cases ended with
  | ok sound related => exact .ok sound related
  | error error s => exact .error (Fault.bits error) s

theorem flag : Does Decoder.flag EvcStream.Decoder.flag := of_read ByteReader.bit_does

theorem u (width : Nat) : Does (Decoder.u width) (EvcStream.Decoder.u width) (· < 2 ^ width) :=
  of_read (ByteReader.bits_does width)

theorem ue : Does Decoder.ue EvcStream.Decoder.ue (· < 2 ^ 32) := of_read ByteReader.ue_does

theorem ueMax (high : Nat) : Does (Decoder.ueMax high) (EvcStream.Decoder.ueMax high) (· ≤ high) :=
  of_read (ByteReader.ueMax_does high)

theorem se : Does Decoder.se EvcStream.Decoder.se := of_read ByteReader.se_does

section
variable {run : Decoder α} {part : EvcStream.Decoder α}

theorem optional (coded : Bool) (h : Does run part post) :
    Does (Decoder.optional coded run) (EvcStream.Decoder.optional coded part) := by
  refine .ite (fun _ => ?_) fun _ => .pure trivial
  exact h.bind fun _ _ => .pure trivial

theorem flagged (h : Does run part post) :
    Does (Decoder.flagged run) (EvcStream.Decoder.flagged part) :=
  flag.bind fun coded _ => h.optional coded

theorem times (count : Nat) (h : Does run part post) :
    Does (Decoder.times count run) (EvcStream.Decoder.times count part) := by
  induction count with
  | zero => exact .pure trivial
  | succ count ih => exact h.bind fun _ _ => ih.bind fun _ _ => .pure trivial

end
end Does

section
variable {α : Type} {items : List α} {i j : Nat}

theorem getD_set_self (inside : i < items.length) (value other : α) :
    (items.set i value).getD i other = value := by
  rw [List.getD_eq_getElem?_getD, List.getElem?_set_self inside, Option.getD_some]

theorem getD_set_ne (apart : j ≠ i) (value other : α) :
    (items.set i value).getD j other = items.getD j other := by
  rw [List.getD_eq_getElem?_getD, List.getElem?_set_ne apart.symm, List.getD_eq_getElem?_getD]

end

/-- The items stand in the first entries of an array of this size. -/
structure Fills {α : Type} (size : Nat) (items slots : List α) : Prop where
  size_eq : slots.length = size
  front : items <+: slots

namespace Fills

variable {α : Type} {size : Nat} {items slots : List α}

theorem empty (size : Nat) (value : α) : Fills size [] (List.replicate size value) :=
  ⟨List.length_replicate, List.nil_prefix⟩

theorem put (filled : Fills size items slots) (room : items.length < size) (value : α) :
    ∃ next, put slots items.length value = .ok next ∧ Fills size (items ++ [value]) next := by
  obtain ⟨sized, rest, rfl⟩ := filled
  cases rest with
  | nil =>
    rw [List.append_nil] at sized
    omega
  | cons old rest =>
    have set : (items ++ old :: rest).set items.length value = items ++ value :: rest := by simp
    refine ⟨_, put_eq (by simp), ?_⟩
    rw [set]
    constructor
    · rwa [List.length_append] at sized ⊢
    · exact ⟨rest, List.append_assoc ..⟩

theorem put_field {β : Type} {field : β → α} {whole : List β}
    (filled : Fills size (whole.map field) slots) (room : whole.length < size) (value : α) :
    ∃ next, Machine.put slots whole.length value = .ok next ∧
      ∀ b, field b = value → Fills size ((whole ++ [b]).map field) next := by
  obtain ⟨next, written, more⟩ := filled.put (by rwa [List.length_map]) value
  rw [List.length_map] at written
  refine ⟨next, written, ?_⟩
  rintro b rfl
  rw [List.map_append]
  exact more

theorem take (filled : Fills size items slots) : slots.take items.length = items :=
  (List.prefix_iff_eq_take.mp filled.front).symm

end Fills

namespace Tracks

variable {σ β : Type} {step : Nat → σ → Decoder σ} {item : EvcStream.Decoder β}
  {holds : List β → σ → Prop} {items : List β} {state : σ} {count bound : Nat}

/-- What is written step after step holds the items that are read one after the other, as long as
there are entries for them. -/
theorem steps_from (next : ∀ items state, items.length < bound → holds items state →
      Tracks (step items.length state) item fun state b => holds (items ++ [b]) state)
    (room : items.length + count ≤ bound) (start : holds items state) :
    Tracks (Decoder.steps step items.length count state) (EvcStream.Decoder.times count item)
      fun state others => others.length = count ∧ holds (items ++ others) state := by
  induction count generalizing items state with
  | zero =>
    refine .pure ⟨rfl, ?_⟩
    rwa [List.append_nil]
  | succ count ih =>
    refine (next items state (by omega) start).bind fun state b one => ?_
    have more : (items ++ [b]).length = items.length + 1 := List.length_append
    have later := ih (by rw [more]; omega) one
    rw [more] at later
    refine later.then_pure fun state others all => ⟨?_, ?_⟩
    · rw [List.length_cons, all.1]
    · have whole := all.2
      rwa [List.append_assoc] at whole

theorem steps (next : ∀ items state, items.length < bound → holds items state →
      Tracks (step items.length state) item fun state b => holds (items ++ [b]) state)
    (room : count ≤ bound) (start : holds [] state) :
    Tracks (Decoder.steps step 0 count state) (EvcStream.Decoder.times count item)
      fun state items => items.length = count ∧ holds items state :=
  steps_from next (by rwa [List.length_nil, Nat.zero_add]) start

theorem steps_bind {γ δ : Type} {next : σ → Decoder γ} {part : EvcStream.Decoder δ}
    {others : γ → δ → Prop} {i : Nat}
    (h : Tracks (step i state >>= fun state => Decoder.steps step (i + 1) count state >>= next) part
      others) : Tracks (Decoder.steps step i (count + 1) state >>= next) part others := by
  rw [Decoder.steps, Run.bind_assoc]
  exact h

/-- Two entries are read into one after the other, or only the first. -/
theorem pair_bind {γ δ : Type} {part : EvcStream.Decoder β} {get : σ → Nat → β} {sized : σ → Prop}
    {next : σ → Decoder γ} {behind : β → Option β → EvcStream.Decoder δ} {others : γ → δ → Prop}
    (entry : ∀ i state, i < 2 → sized state → Tracks (step i state) part fun next b =>
      sized next ∧ get next i = b ∧ ∀ j, j ≠ i → get next j = get state j)
    (shared : Bool) (start : sized state)
    (last : ∀ state, Tracks (next state)
      (behind (get state 0) (if shared then none else some (get state 1))) others) :
    Tracks (Decoder.steps step 0 (if shared then 1 else 2) state >>= next) (do
      let first ← part
      let second ← EvcStream.Decoder.optional (!shared) part
      behind first second) others := by
  cases shared with
  | true =>
    refine steps_bind ((entry 0 state (by decide) start).bind fun state b one => ?_)
    obtain ⟨-, rfl, -⟩ := one
    exact last state
  | false =>
    refine steps_bind ((entry 0 state (by decide) start).bind fun state b one => ?_)
    obtain ⟨sized, rfl, -⟩ := one
    have second : EvcStream.Decoder.optional (!false) part = some <$> part := rfl
    rw [second, bind_map_left]
    refine steps_bind ((entry 1 state (by decide) sized).bind fun after b two => ?_)
    obtain ⟨-, rfl, kept⟩ := two
    have both := last after
    rwa [kept 0 (by decide)] at both

end Tracks

open Machine.Decoder

namespace RefPicList

open EvcStream.RefPicList (maxLength)

def decodeStep : Decoder Int := do
  let magnitude ← ue
  if magnitude = 0 then return 0
  if ← flag then int 64 (-(magnitude : Int)) else return magnitude

def decodeFrom : Nat → Nat → Int → List Int → Decoder (List Int)
  | _, 0, _, slots => pure slots
  | i, count + 1, previous, slots => do
    let step ← decodeStep
    let distance ← int 64 (previous + step)
    if RefPicList.InRange distance then
      let slots ← put slots i distance
      decodeFrom (i + 1) count distance slots
    else Run.fail (.refPicOutOfRange distance)

def decode : Decoder RefPicList := do
  let count ← ueMax maxLength
  let slots ← decodeFrom 0 count 0 (List.replicate maxLength 0)
  return { distances := slots.take count }

theorem decodeStep_does :
    Does decodeStep EvcStream.RefPicList.decodeStep fun step => -2 ^ 32 < step ∧ step < 2 ^ 32 := by
  refine .bind .ue fun magnitude small => ?_
  refine .ite (fun _ => .pure (by decide)) fun _ => ?_
  refine .bind .flag fun _ _ => ?_
  refine .ite (fun _ => ?_) fun _ => .pure (by omega)
  exact .last (int_eq (by omega) (by omega)) (by omega)

theorem decodeFrom_tracks {items slots : List Int} {previous : Int} {count : Nat}
    (inRange : EvcStream.RefPicList.InRange previous) (filled : Fills maxLength items slots)
    (room : items.length + count ≤ maxLength) :
    Tracks (decodeFrom items.length count previous slots)
      (EvcStream.RefPicList.decodeFrom count previous)
      fun slots others => others.length = count ∧ Fills maxLength (items ++ others) slots := by
  induction count generalizing items previous slots with
  | zero =>
    refine .pure ⟨rfl, ?_⟩
    rwa [List.append_nil]
  | succ count ih =>
    refine decodeStep_does.tracks_bind fun step bounds => ?_
    unfold EvcStream.RefPicList.InRange at inRange
    refine .lift (int_eq (by omega) (by omega)) (.ite (fun inRange => ?_) fun _ => .fail _)
    obtain ⟨next, written, filled⟩ := filled.put (by omega) (previous + step)
    have more : (items ++ [previous + step]).length = items.length + 1 := List.length_append
    have later := ih inRange filled (by omega)
    rw [more] at later
    refine .lift written (later.then_pure fun slots others all => ⟨?_, ?_⟩)
    · rw [List.length_cons, all.1]
    · have whole := all.2
      rwa [List.append_assoc] at whole

theorem decode_does : Does decode EvcStream.RefPicList.decode := by
  refine .tracks_bind (.ueMax _) fun count few => ?_
  have first : EvcStream.RefPicList.InRange 0 := by decide
  have room : ([] : List Int).length + count ≤ maxLength := by simpa using few
  refine .bind (decodeFrom_tracks first (Fills.empty maxLength 0) room) ?_
  rintro slots _ ⟨rfl, filled⟩
  exact .pure ⟨congrArg EvcStream.RefPicList.mk filled.take, trivial⟩

end RefPicList

/-- The lists of both directions, with the numbers announced for them. -/
structure ListTables where
  counts : List Nat := [0, 0]
  lists : List (List RefPicList) := [[], []]

namespace ListTables

def readAt (i : Nat) (t : ListTables) : Decoder ListTables := do
  let counts ← put t.counts i (← ueMax RefPicLists.maxCount)
  let count ← item counts i
  let lists ← put t.lists i (← times count RefPicList.decode)
  return { counts, lists }

def get (t : ListTables) (i : Nat) : RefPicLists :=
  { count := t.counts.getD i 0, lists := t.lists.getD i [] }

structure Sized (t : ListTables) : Prop where
  counts : t.counts.length = 2
  lists : t.lists.length = 2

theorem readAt_tracks (i : Nat) (t : ListTables) (inside : i < 2) (sized : t.Sized) :
    Tracks (readAt i t) RefPicLists.decode fun next lists =>
      next.Sized ∧ next.get i = lists ∧ ∀ j, j ≠ i → next.get j = t.get j := by
  have counts : i < t.counts.length := sized.counts ▸ inside
  have lists : i < t.lists.length := sized.lists ▸ inside
  refine (Does.ueMax _).tracks_bind fun count _ => ?_
  refine .lift (put_eq counts) (.lift (item_eq (List.getElem?_set_self counts)) ?_)
  refine (RefPicList.decode_does.times count).tracks_bind fun found _ => ?_
  refine .lift (put_eq lists) (.pure ⟨⟨?_, ?_⟩, ?_, fun j apart => ?_⟩)
  · rw [List.length_set, sized.counts]
  · rw [List.length_set, sized.lists]
  · simp only [get, getD_set_self counts, getD_set_self lists]
  · simp only [get, getD_set_ne apart]

end ListTables

def ListedReferences.decode : Decoder ListedReferences := do
  let maxDecPicBufferingMinus1 ← ue
  let longTerm ← flag
  let shared ← flag
  let t ← steps ListTables.readAt 0 (if shared then 1 else 2) {}
  return {
    maxDecPicBufferingMinus1, longTerm, forward := t.get 0,
    backward := if shared then none else some (t.get 1) }

theorem ListedReferences.decode_does : Does decode EvcStream.ListedReferences.decode := by
  refine .bind .ue fun _ _ => ?_
  refine .bind .flag fun _ _ => ?_
  refine .bind .flag fun shared _ => ?_
  exact Tracks.pair_bind ListTables.readAt_tracks shared ⟨rfl, rfl⟩ fun t => Does.pure trivial

structure QpTables where
  points : List Nat := [0, 0]
  inSteps : List (List Nat) := [[], []]
  outSteps : List (List Int) := [[], []]

namespace QpTables

def pushPoint (i : Nat) (t : QpTables) : Decoder QpTables := do
  let before ← item t.inSteps i
  let inSteps ← put t.inSteps i (before ++ [← u 6])
  let before ← item t.outSteps i
  let outSteps ← put t.outSteps i (before ++ [← se])
  return { t with inSteps, outSteps }

def readAt (i : Nat) (t : QpTables) : Decoder QpTables := do
  let points ← put t.points i (← ueMax (QpTable.maxPoints - 1))
  let count ← word 64 ((← item points i) + 1)
  allocate count
  let inSteps ← put t.inSteps i []
  allocate (4 * count)
  let outSteps ← put t.outSteps i []
  steps (fun _ => pushPoint i) 0 count { points, inSteps, outSteps }

def get (t : QpTables) (i : Nat) : QpTable :=
  { pointsMinus1 := t.points.getD i 0, inSteps := t.inSteps.getD i [],
    outSteps := t.outSteps.getD i [] }

structure Sized (t : QpTables) : Prop where
  points : t.points.length = 2
  inSteps : t.inSteps.length = 2
  outSteps : t.outSteps.length = 2

def write (t : QpTables) (i : Nat) (table : QpTable) : QpTables :=
  { points := t.points.set i table.pointsMinus1, inSteps := t.inSteps.set i table.inSteps,
    outSteps := t.outSteps.set i table.outSteps }

variable {t : QpTables} {i : Nat} {table : QpTable}

theorem Sized.write (sized : t.Sized) (i : Nat) (table : QpTable) : (t.write i table).Sized := by
  constructor
  · exact List.length_set.trans sized.points
  · exact List.length_set.trans sized.inSteps
  · exact List.length_set.trans sized.outSteps

theorem get_write (sized : t.Sized) (inside : i < 2) : (t.write i table).get i = table := by
  simp only [get, write, getD_set_self (sized.points ▸ inside),
    getD_set_self (sized.inSteps ▸ inside), getD_set_self (sized.outSteps ▸ inside)]

theorem get_write_ne {j : Nat} (apart : j ≠ i) : (t.write i table).get j = t.get j := by
  simp only [get, write, getD_set_ne apart]

def ofPoints (pointsMinus1 : Nat) (points : List (Nat × Int)) : QpTable :=
  { pointsMinus1, inSteps := points.map Prod.fst, outSteps := points.map Prod.snd }

theorem pushPoint_tracks {pointsMinus1 : Nat} {points : List (Nat × Int)} (sized : t.Sized)
    (inside : i < 2) :
    Tracks (pushPoint i (t.write i (ofPoints pointsMinus1 points))) QpTable.decodePoint
      fun next point => next = t.write i (ofPoints pointsMinus1 (points ++ [point])) := by
  have sized' := sized.write i (ofPoints pointsMinus1 points)
  have ins : (t.write i (ofPoints pointsMinus1 points)).inSteps[i]? = some (points.map Prod.fst) :=
    List.getElem?_set_self (sized.inSteps ▸ inside)
  have outs : (t.write i (ofPoints pointsMinus1 points)).outSteps[i]? =
      some (points.map Prod.snd) :=
    List.getElem?_set_self (sized.outSteps ▸ inside)
  refine .lift (item_eq ins) ((Does.u 6).tracks_bind fun inStep _ => ?_)
  refine .lift (put_eq (sized'.inSteps ▸ inside)) (.lift (item_eq outs) ?_)
  refine Does.se.tracks_bind fun outStep _ => .lift (put_eq (sized'.outSteps ▸ inside)) (.pure ?_)
  simp [write, ofPoints]

theorem pushPoints_tracks {pointsMinus1 count : Nat} (sized : t.Sized) (inside : i < 2) :
    Tracks (steps (fun _ => pushPoint i) 0 count (t.write i (ofPoints pointsMinus1 [])))
      (EvcStream.Decoder.times count QpTable.decodePoint)
      fun next points => next = t.write i (ofPoints pointsMinus1 points) := by
  have next : ∀ (points : List (Nat × Int)) (s : QpTables), points.length < count →
      s = t.write i (ofPoints pointsMinus1 points) →
      Tracks (pushPoint i s) QpTable.decodePoint fun next point =>
        next = t.write i (ofPoints pointsMinus1 (points ++ [point])) := by
    rintro points _ - rfl
    exact pushPoint_tracks sized inside
  have pushed : Tracks (steps (fun _ => pushPoint i) 0 count (t.write i (ofPoints pointsMinus1 [])))
      (EvcStream.Decoder.times count QpTable.decodePoint) fun next points =>
        points.length = count ∧ next = t.write i (ofPoints pointsMinus1 points) :=
    Tracks.steps next (Nat.le_refl count) rfl
  exact pushed.mono fun _ _ all => all.2

theorem readAt_tracks (i : Nat) (t : QpTables) (inside : i < 2) (sized : t.Sized) :
    Tracks (readAt i t) QpTable.decode fun next table =>
      next.Sized ∧ next.get i = table ∧ ∀ j, j ≠ i → next.get j = t.get j := by
  have points : i < t.points.length := sized.points ▸ inside
  refine (Does.ueMax _).tracks_bind fun pointsMinus1 few => ?_
  unfold QpTable.maxPoints at few
  refine .lift (put_eq points) (.lift (item_eq (List.getElem?_set_self points)) ?_)
  refine .lift (word_eq (by omega)) (.lift (allocate_eq (by unfold maxAllocation; omega)) ?_)
  refine .lift (put_eq (sized.inSteps ▸ inside)) ?_
  refine .lift (allocate_eq (by unfold maxAllocation; omega)) ?_
  refine .lift (put_eq (sized.outSteps ▸ inside)) ?_
  exact (pushPoints_tracks sized inside).then_pure fun _ points same =>
    same ▸ ⟨sized.write _ _, get_write sized inside, fun j apart => get_write_ne apart⟩

end QpTables

def ChromaQpTables.decode : Decoder ChromaQpTables := do
  let shared ← flag
  let globalOffset ← flag
  let t ← steps QpTables.readAt 0 (if shared then 1 else 2) {}
  return { globalOffset, first := t.get 0, second := if shared then none else some (t.get 1) }

theorem ChromaQpTables.decode_does : Does decode EvcStream.ChromaQpTables.decode := by
  refine .bind .flag fun shared _ => ?_
  refine .bind .flag fun _ _ => ?_
  exact Tracks.pair_bind QpTables.readAt_tracks shared ⟨rfl, rfl, rfl⟩ fun t => Does.pure trivial

open EvcStream.HrdParameters (maxSchedules)

structure Schedules where
  bitRates : List Nat := List.replicate maxSchedules 0
  cpbSizes : List Nat := List.replicate maxSchedules 0
  constant : List Bool := List.replicate maxSchedules false

namespace Schedules

def readAt (i : Nat) (t : Schedules) : Decoder Schedules := do
  let bitRates ← put t.bitRates i (← ue)
  let cpbSizes ← put t.cpbSizes i (← ue)
  let constant ← put t.constant i (← flag)
  return { bitRates, cpbSizes, constant }

def list (t : Schedules) (count : Nat) : List DeliverySchedule :=
  ((t.bitRates.take count).zip ((t.cpbSizes.take count).zip (t.constant.take count))).map
    fun (bitRateValueMinus1, cpbSizeValueMinus1, constantBitRate) =>
      { bitRateValueMinus1, cpbSizeValueMinus1, constantBitRate }

structure Holds (schedules : List DeliverySchedule) (t : Schedules) : Prop where
  bitRates : Fills maxSchedules (schedules.map DeliverySchedule.bitRateValueMinus1) t.bitRates
  cpbSizes : Fills maxSchedules (schedules.map DeliverySchedule.cpbSizeValueMinus1) t.cpbSizes
  constant : Fills maxSchedules (schedules.map DeliverySchedule.constantBitRate) t.constant

variable {schedules : List DeliverySchedule} {t : Schedules}

theorem Holds.empty : Holds [] {} :=
  ⟨.empty maxSchedules 0, .empty maxSchedules 0, .empty maxSchedules false⟩

theorem Holds.list_eq (holds : Holds schedules t) : t.list schedules.length = schedules := by
  have rates := holds.bitRates.take
  have sizes := holds.cpbSizes.take
  have constant := holds.constant.take
  rw [List.length_map] at rates sizes constant
  rw [list, rates, sizes, constant, List.zip_map', List.zip_map', List.map_map]
  exact List.map_id schedules

theorem readAt_tracks (schedules : List DeliverySchedule) (t : Schedules)
    (room : schedules.length < maxSchedules) (holds : Holds schedules t) :
    Tracks (readAt schedules.length t) DeliverySchedule.decode fun next schedule =>
      Holds (schedules ++ [schedule]) next := by
  refine Does.ue.tracks_bind fun rate _ => ?_
  obtain ⟨bitRates, written, rates⟩ := holds.bitRates.put_field room rate
  refine .lift written (Does.ue.tracks_bind fun size _ => ?_)
  obtain ⟨cpbSizes, written, sizes⟩ := holds.cpbSizes.put_field room size
  refine .lift written (Does.flag.tracks_bind fun steady _ => ?_)
  obtain ⟨constant, written, flags⟩ := holds.constant.put_field room steady
  exact .lift written (.pure ⟨rates _ rfl, sizes _ rfl, flags _ rfl⟩)

end Schedules

def HrdParameters.decode : Decoder HrdParameters := do
  let count ← ueMax (maxSchedules - 1)
  let bitRateScale ← u 4
  let cpbSizeScale ← u 4
  let t ← steps Schedules.readAt 0 (count + 1) {}
  let initialCpbRemovalDelayLengthMinus1 ← u 5
  let cpbRemovalDelayLengthMinus1 ← u 5
  let dpbOutputDelayLengthMinus1 ← u 5
  let timeOffsetLength ← u 5
  return {
    bitRateScale, cpbSizeScale, schedule := (t.list (count + 1)).headD {},
    alternatives := (t.list (count + 1)).tail, initialCpbRemovalDelayLengthMinus1,
    cpbRemovalDelayLengthMinus1, dpbOutputDelayLengthMinus1, timeOffsetLength }

/-- There is always a schedule, and the array has room for as many as can be announced. -/
theorem HrdParameters.decode_does : Does decode EvcStream.HrdParameters.decode := by
  refine .bind (.ueMax _) fun count few => ?_
  refine .bind (.u 4) fun _ _ => ?_
  refine .bind (.u 4) fun _ _ => ?_
  unfold maxSchedules at few
  have first := Schedules.readAt_tracks [] {} (by decide) .empty
  refine Tracks.steps_bind (first.bind fun t schedule one => ?_)
  have others := Tracks.steps_from Schedules.readAt_tracks
    (Nat.le_trans (Nat.le_of_eq (Nat.add_comm 1 count)) (Nat.succ_le_succ few)) one
  refine Tracks.bind others fun t alternatives all => ?_
  obtain ⟨rfl, holds⟩ := all
  have list : t.list (alternatives.length + 1) = schedule :: alternatives := holds.list_eq
  rw [list]
  refine Does.bind (.u 5) fun _ _ => ?_
  refine .bind (.u 5) fun _ _ => ?_
  refine .bind (.u 5) fun _ _ => ?_
  refine .bind (.u 5) fun _ _ => ?_
  exact .pure trivial

end EvcStream.Machine
