import EvcStream.PictureOrder
import Mathlib.Algebra.Group.Int.Defs
import Mathlib.Algebra.Group.Nat.Defs
/-!
# Operations of a machine

Numbers of a machine have a width, and its arrays, buffers and memory have an end. An operation
that is applied to anything else does not give a result but a panic. What is computed by such
operations is either the answer that the mathematics gives, or nothing at all.
-/
namespace EvcStream.Machine

inductive Panic where
  | overflow
  | shift
  | division
  | index
  | slice
  | buffer
  | allocation
  | endless
  deriving DecidableEq, Repr

abbrev Checked := Except Panic

section
variable {α β : Type}

@[simp] theorem ok_bind (a : α) (next : α → Checked β) :
    ((Except.ok a : Checked α) >>= next) = next a := rfl

@[simp] theorem pure_eq_ok (a : α) : (pure a : Checked α) = .ok a := rfl

end

/-- A result that has to be an unsigned number of this width. -/
def word (width value : Nat) : Checked Nat :=
  if value < 2 ^ width then .ok value else .error .overflow

def minus (value less : Nat) : Checked Nat :=
  if less ≤ value then .ok (value - less) else .error .overflow

def int (width : Nat) (value : Int) : Checked Int :=
  if -2 ^ (width - 1) ≤ value ∧ value < 2 ^ (width - 1) then .ok value else .error .overflow

/-- Shifts bits out at the top of a number of this width. -/
def shl (width value amount : Nat) : Checked Nat :=
  if amount < width then .ok (value * 2 ^ amount % 2 ^ width) else .error .shift

def shr (width value amount : Nat) : Checked Nat :=
  if amount < width then .ok (value / 2 ^ amount) else .error .shift

def shlInt (value : Int) (amount : Nat) : Checked Int :=
  if amount < 32 then .ok (PictureOrder.signed32 (value * 2 ^ amount)) else .error .shift

/-- The remainder that is not negative, where the quotient is a signed number of this width. -/
def rem (width : Nat) (value divisor : Int) : Checked Int :=
  if divisor = 0 then .error .division
  else if value = -2 ^ (width - 1) ∧ divisor = -1 then .error .overflow
  else .ok (value % divisor)

section
variable {width value amount less : Nat} {number divisor : Int}

theorem word_eq (fits : value < 2 ^ width) : word width value = .ok value := if_pos fits

theorem word_ok {result : Nat} (done : word width value = .ok result) : result = value := by
  unfold word at done
  split at done
  · cases done
    rfl
  · cases done

theorem minus_eq (le : less ≤ value) : minus value less = .ok (value - less) := if_pos le

theorem int_eq (low : -2 ^ (width - 1) ≤ number) (high : number < 2 ^ (width - 1)) :
    int width number = .ok number := if_pos ⟨low, high⟩

theorem shl_eq (short : amount < width) :
    shl width value amount = .ok (value * 2 ^ amount % 2 ^ width) := if_pos short

theorem shl_eq_of_lt (short : amount < width) (small : value * 2 ^ amount < 2 ^ width) :
    shl width value amount = .ok (value * 2 ^ amount) := by
  rw [shl_eq short, Nat.mod_eq_of_lt small]

theorem shr_eq (short : amount < width) : shr width value amount = .ok (value / 2 ^ amount) :=
  if_pos short

theorem shlInt_eq (short : amount < 32) :
    shlInt number amount = .ok (PictureOrder.signed32 (number * 2 ^ amount)) := if_pos short

theorem rem_eq (positive : 0 < divisor) : rem width number divisor = .ok (number % divisor) := by
  rw [rem, if_neg (by omega), if_neg (by omega)]

end

variable {α : Type}

/-- The largest size that memory can be asked for. -/
def maxAllocation : Nat := 2 ^ 63 - 1

def allocate (size : Nat) : Checked Unit :=
  if size ≤ maxAllocation then .ok () else .error .allocation

def item (items : List α) (i : Nat) : Checked α :=
  match items[i]? with
  | some value => .ok value
  | none => .error .index

def put (items : List α) (i : Nat) (value : α) : Checked (List α) :=
  if i < items.length then .ok (items.set i value) else .error .index

def slice (bytes : List UInt8) (start stop : Nat) : Checked (List UInt8) :=
  if start ≤ stop ∧ stop ≤ bytes.length then .ok (bytes.extract start stop) else .error .slice

def number (width : Nat) (bytes : List UInt8) : Checked Nat :=
  if width ≤ bytes.length then .ok (BigEndian.decode (bytes.take width)) else .error .slice

def advance (count : Nat) (buffer : List UInt8) : Checked (List UInt8) :=
  if count ≤ buffer.length then .ok (buffer.drop count) else .error .buffer

def splitTo (count : Nat) (buffer : List UInt8) : Checked (List UInt8 × List UInt8) :=
  if count ≤ buffer.length then .ok (buffer.take count, buffer.drop count) else .error .buffer

section
variable {items : List α} {bytes : List UInt8} {i start stop count width : Nat} {value : α}

theorem allocate_eq {size : Nat} (small : size ≤ maxAllocation) : allocate size = .ok () :=
  if_pos small

theorem item_eq (found : items[i]? = some value) : item items i = .ok value := by
  rw [item, found]

theorem put_eq (inside : i < items.length) : put items i value = .ok (items.set i value) :=
  if_pos inside

theorem slice_eq (ordered : start ≤ stop) (inside : stop ≤ bytes.length) :
    slice bytes start stop = .ok (bytes.extract start stop) := if_pos ⟨ordered, inside⟩

theorem slice_behind (inside : start ≤ bytes.length) :
    slice bytes start bytes.length = .ok (bytes.drop start) := by
  rw [slice_eq inside (Nat.le_refl _), List.extract_eq_take_drop, ← List.length_drop,
    List.take_length]

theorem slice_ok {part : List UInt8} (done : slice bytes start stop = .ok part) :
    start ≤ stop ∧ stop ≤ bytes.length := by
  unfold slice at done
  split at done
  · assumption
  · cases done

theorem number_eq (long : width ≤ bytes.length) :
    number width bytes = .ok (BigEndian.decode (bytes.take width)) := if_pos long

theorem advance_eq (inside : count ≤ bytes.length) :
    advance count bytes = .ok (bytes.drop count) := if_pos inside

theorem splitTo_eq (inside : count ≤ bytes.length) :
    splitTo count bytes = .ok (bytes.take count, bytes.drop count) := if_pos inside

end

/-- A computation with a state, which ends with a value, a fault or a panic. -/
def Run (ε σ α : Type) : Type := σ → Checked (EStateM.Result ε σ α)

namespace Run

variable {ε σ β : Type}

instance : Monad (Run ε σ) where
  pure a := fun s => .ok (.ok a s)
  bind run next := fun s => do
    match ← run s with
    | .ok a t => next a t
    | .error fault t => return .error fault t

def lift (result : Checked α) : Run ε σ α := fun s => do return .ok (← result) s

instance : MonadLift Checked (Run ε σ) := ⟨lift⟩

def fail (fault : ε) : Run ε σ α := fun s => .ok (.error fault s)

def ofExcept (result : Checked (Except ε α)) : Run ε σ α := fun s => do
  match ← result with
  | .ok a => return .ok a s
  | .error fault => return .error fault s

def get : Run ε σ σ := fun s => .ok (.ok s s)

def modify (change : σ → σ) : Run ε σ Unit := fun s => .ok (.ok () (change s))

variable {run : Run ε σ α} {next : α → Run ε σ β} {r s : σ} {a : α} {fault : ε}

theorem bind_of_ok (delivered : run r = .ok (.ok a s)) : (run >>= next) r = next a s := by
  change (run r >>= _) = _
  rw [delivered]
  rfl

theorem bind_of_fault (failed : run r = .ok (.error fault s)) :
    (run >>= next) r = .ok (.error fault s) := by
  change (run r >>= _) = _
  rw [failed]
  rfl

theorem bind_assoc {γ : Type} (run : Run ε σ α) (next : α → Run ε σ β) (last : β → Run ε σ γ) :
    (run >>= next) >>= last = run >>= fun a => next a >>= last := by
  funext s
  cases ran : run s with
  | error panic =>
    change ((run s >>= _) >>= _ : Checked _) = run s >>= _
    rw [ran]
    rfl
  | ok result =>
    cases result with
    | ok a t =>
      rw [bind_of_ok ran]
      change ((run >>= next) s >>= _ : Checked _) = _
      rw [bind_of_ok ran]
      rfl
    | error fault t =>
      rw [bind_of_fault ran]
      exact bind_of_fault (bind_of_fault ran)

theorem get_bind (next : σ → Run ε σ β) (s : σ) : (get >>= next) s = next s s := rfl

theorem modify_bind (change : σ → σ) (next : Unit → Run ε σ β) (s : σ) :
    (modify change >>= next) s = next () (change s) := rfl

theorem ofExcept_bind (outcome : Except ε α) (s : σ) :
    (ofExcept (.ok outcome) >>= next) s =
      match outcome with
      | .ok a => next a s
      | .error fault => .ok (.error fault s) := by
  cases outcome <;> rfl

theorem lift_of_ok {result : Checked α} (known : result = .ok a) (s : σ) :
    (liftM result : Run ε σ α) s = .ok (.ok a s) := by
  rw [known]
  rfl

end Run
end EvcStream.Machine
