/-!
# Bit strings, and reading and writing them

Bit strings, most significant bit first, are the common view of everything that reads or writes
coded fields: bytes, big-endian numbers and exp-Golomb code words. A reader takes bits from the
front of some bytes and keeps its place through a failure. A writer hands out whole bytes and keeps
the started byte back; a step that fails writes nothing.
-/
namespace EvcStream

-- Here `^` is the power of the core library also where an algebra brings its own. A numeral in
-- an exponent is written with its type, since a bare one would be read as a power of the algebra.
attribute [scoped instance (2000)] instPowNat

abbrev Bits := List Bool

namespace Bits

def ofNat : Nat → Nat → Bits
  | 0, _ => []
  | width + 1, value => value.testBit width :: ofNat width value

def toNat (bits : Bits) : Nat :=
  bits.foldl (fun value bit => 2 * value + bit.toNat) 0

def ofByte (byte : UInt8) : Bits := ofNat 8 byte.toNat

def ofBytes (bytes : List UInt8) : Bits := bytes.flatMap ofByte

/-- At most eight bits as one byte. Missing low bits are zero. -/
def toByte (bits : Bits) : UInt8 :=
  UInt8.ofNat (toNat (bits ++ List.replicate (8 - bits.length) false))

def toBytes (bits : Bits) : List UInt8 :=
  if bits.isEmpty then [] else toByte (bits.take 8) :: toBytes (bits.drop 8)
termination_by bits.length
decreasing_by
  rename_i nonempty
  cases bits with
  | nil => simp at nonempty
  | cons _ _ => simp only [List.length_drop, List.length_cons]; omega

@[simp] theorem ofNat_length (width value : Nat) : (ofNat width value).length = width := by
  induction width with
  | zero => rfl
  | succ width ih => simp [ofNat, ih]

@[simp] theorem ofByte_length (byte : UInt8) : (ofByte byte).length = 8 := ofNat_length 8 _

@[simp] theorem ofBytes_nil : ofBytes [] = [] := rfl

@[simp] theorem ofBytes_cons (byte : UInt8) (bytes : List UInt8) :
    ofBytes (byte :: bytes) = ofByte byte ++ ofBytes bytes := rfl

@[simp] theorem ofBytes_append (front back : List UInt8) :
    ofBytes (front ++ back) = ofBytes front ++ ofBytes back := by
  simp [ofBytes]

@[simp] theorem ofBytes_length (bytes : List UInt8) :
    (ofBytes bytes).length = 8 * bytes.length := by
  induction bytes with
  | nil => rfl
  | cons byte bytes ih =>
    simp only [ofBytes_cons, List.length_append, ofByte_length, ih, List.length_cons]
    omega

end Bits

namespace BigEndian

def encode : Nat → Nat → List UInt8
  | 0, _ => []
  | width + 1, value => UInt8.ofNat (value / 256 ^ width) :: encode width value

def decode (bytes : List UInt8) : Nat :=
  bytes.foldl (fun value byte => 256 * value + byte.toNat) 0

@[simp] theorem encode_length (width value : Nat) : (encode width value).length = width := by
  induction width with
  | zero => rfl
  | succ width ih => simp [encode, ih]

end BigEndian

/-- Cuts off the first `count` elements, if there are as many. Looks at no more than those. -/
def cut? {α : Type} (count : Nat) (items : List α) : Option (List α × List α) :=
  let (front, back) := items.splitAt count
  if front.length = count then some (front, back) else none

theorem cut?_eq_some_iff {α : Type} {count : Nat} {items front back : List α} :
    cut? count items = some (front, back) ↔ front.length = count ∧ items = front ++ back := by
  simp only [cut?, List.splitAt_eq]
  constructor
  · intro h
    split at h
    · next taken =>
      simp only [Option.some.injEq, Prod.mk.injEq] at h
      obtain ⟨rfl, rfl⟩ := h
      exact ⟨taken, (List.take_append_drop count items).symm⟩
    · cases h
  · rintro ⟨rfl, rfl⟩
    simp

theorem cut?_eq_none_iff {α : Type} {count : Nat} {items : List α} :
    cut? count items = none ↔ items.length < count := by
  simp only [cut?, List.splitAt_eq, List.length_take, ite_eq_right_iff, reduceCtorEq, imp_false]
  omega

namespace ExpGolomb

def codeWord (value : Nat) : Bits :=
  List.replicate (value + 1).log2 false ++ Bits.ofNat ((value + 1).log2 + 1) (value + 1)

/-- Position of a signed value in the order `0, 1, -1, 2, -2, …`. -/
def ofSigned (value : Int) : Nat :=
  if value ≤ 0 then 2 * value.natAbs else 2 * value.natAbs - 1

def toSigned (code : Nat) : Int :=
  if code % 2 = 0 then -((code / 2 : Nat) : Int) else ((code / 2 + 1 : Nat) : Int)

theorem toSigned_ofSigned (value : Int) : toSigned (ofSigned value) = value := by
  unfold toSigned ofSigned
  split <;> split <;> omega

theorem ofSigned_toSigned (code : Nat) : ofSigned (toSigned code) = code := by
  unfold toSigned ofSigned
  split <;> split <;> omega

theorem ofSigned_codable {value : Int} (small : 2 * value.natAbs < 2 ^ (32 : Nat)) :
    ofSigned value + 1 < 2 ^ (32 : Nat) := by
  unfold ofSigned
  split <;> omega

end ExpGolomb

inductive ReadError where
  | tooManyBits (requested : Nat)
  | notEnoughBits (requested available : Nat)
  | invalidExpGolomb
  | outOfBounds (low high value : Int)
  | conversionFailed
  deriving DecidableEq, Repr

def ReadError.message : ReadError → String
  | .tooManyBits requested => s!"more than 32 ({requested}) bits were requested"
  | .notEnoughBits requested available =>
    s!"reader ran out of bits: {requested} requested, {available} left"
  | .invalidExpGolomb => "invalid exp-golomb code"
  | .outOfBounds low high value => s!"value out of bounds: expected {low} - {high}, got {value}"
  | .conversionFailed => "failed to convert read input to target type"

/-- The integers a value may be delivered in: two's complement or plain binary of some width. -/
structure IntFormat where
  signed : Bool
  width : Nat
  deriving DecidableEq, Repr

def IntFormat.Holds (format : IntFormat) (value : Int) : Prop :=
  if format.signed then
    -(2 ^ (format.width - 1) : Int) ≤ value ∧ value < 2 ^ (format.width - 1)
  else 0 ≤ value ∧ value < 2 ^ format.width

instance (format : IntFormat) (value : Int) : Decidable (format.Holds value) := by
  unfold IntFormat.Holds
  split <;> infer_instance

structure BitReader where
  rest : List UInt8
  current : UInt8 := 0
  available : Nat := 0
  position : Nat := 0
  deriving DecidableEq, Repr

abbrev ReadM := EStateM ReadError BitReader

namespace BitReader

def ofBytes (bytes : List UInt8) : BitReader := { rest := bytes }

def left (r : BitReader) : Nat := 8 * r.rest.length + r.available

def unread (r : BitReader) : Bits :=
  Bits.ofNat r.available r.current.toNat ++ Bits.ofBytes r.rest

/-- Shifts `need` more bits into `value`, fetching a byte whenever the current one is used up.
Gives the value with what is then left of the bytes, or `none` if they run out. -/
def gather (need value : Nat) (current : UInt8) (available : Nat) :
    List UInt8 → Option (Nat × UInt8 × Nat × List UInt8)
  | [] =>
    if need ≤ available then
      some (value * 2 ^ need + current.toNat / 2 ^ (available - need) % 2 ^ need,
        current, available - need, [])
    else none
  | next :: rest =>
    if need ≤ available then
      some (value * 2 ^ need + current.toNat / 2 ^ (available - need) % 2 ^ need,
        current, available - need, next :: rest)
    else
      gather (need - available) (value * 2 ^ available + current.toNat % 2 ^ available)
        next 8 rest

def bits (count : Nat) : ReadM Nat := fun r =>
  if 32 < count then .error (.tooManyBits count) r
  else if count = 0 then .ok 0 r
  else if r.left < count then .error (.notEnoughBits count r.left) r
  else match gather count 0 r.current r.available r.rest with
    | none => .error (.notEnoughBits 8 0) r
    | some (value, current, available, rest) =>
      .ok value { rest, current, available, position := r.position + count }

def bit : ReadM Bool := do
  return (← bits 1) == 1

def deliver (format : IntFormat) (value : Int) : ReadM Int :=
  if format.Holds value then pure value else throw .conversionFailed

def bitsAs (format : IntFormat) (count : Nat) : ReadM Int := do
  deliver format (← bits count)

/-- Skips bits in pieces of up to 32. -/
def skip (count : Nat) : ReadM Unit :=
  if count = 0 then pure ()
  else do
    let _ ← bits (min count 32)
    skip (count - min count 32)
termination_by count

/-- Counts the zeros in front of the next one bit, and reads past it. The last zero of the
budget already fails. -/
def zeros : Nat → ReadM Nat
  | 0 => throw .invalidExpGolomb
  | budget + 1 => do
    if ← bit then return 0
    return (← zeros budget) + 1

def ue : ReadM Nat := do
  let count ← zeros 32
  let value := 2 ^ count - 1 + (← bits count)
  if value < 2 ^ (32 : Nat) then return value else throw .invalidExpGolomb

def ueAs (format : IntFormat) : ReadM Int := do
  deliver format (← ue)

def ueBounded (low high : Nat) : ReadM Nat := do
  let value ← ue
  if low ≤ value ∧ value ≤ high then return value else throw (.outOfBounds low high value)

def ueMax (high : Nat) : ReadM Nat := ueBounded 0 high

def ueBoundedAs (format : IntFormat) (low high : Nat) : ReadM Int := do
  deliver format (← ueBounded low high)

def se : ReadM Int := do
  return ExpGolomb.toSigned (← ue)

def seAs (format : IntFormat) : ReadM Int := do
  deliver format (← se)

def seBounded (low high : Int) : ReadM Int := do
  let value ← se
  if low ≤ value ∧ value ≤ high then return value else throw (.outOfBounds low high value)

def seBoundedAs (format : IntFormat) (low high : Int) : ReadM Int := do
  deliver format (← seBounded low high)

end BitReader

inductive WriteError where
  | bitCount
  | overflow
  | unitTooShort (size : Nat)
  | unitTooLarge (size : Nat)
  deriving DecidableEq, Repr

def WriteError.message : WriteError → String
  | .bitCount => "invalid bit count"
  | .overflow => "value increment caused value overflow"
  | .unitTooShort size => s!"NAL unit of {size} bytes is shorter than its header"
  | .unitTooLarge size => s!"NAL unit of {size} bytes does not fit a 32-bit length prefix"

structure BitWriter where
  out : List UInt8 := []
  pending : Bits := []
  deriving DecidableEq, Repr

namespace BitWriter

def hasPending (w : BitWriter) : Bool := !w.pending.isEmpty

def written (w : BitWriter) : Bits := Bits.ofBytes w.out ++ w.pending

def push (w : BitWriter) (bit : Bool) : BitWriter :=
  let pending := w.pending ++ [bit]
  if pending.length = 8 then { out := w.out ++ [Bits.toByte pending] }
  else { w with pending }

def append (w : BitWriter) (bits : Bits) : BitWriter := bits.foldl push w

def flush (w : BitWriter) : BitWriter :=
  if w.hasPending then { out := w.out ++ [Bits.toByte w.pending] } else w

def field (count value : Nat) (w : BitWriter) : Except WriteError BitWriter :=
  if 32 < count then .error .bitCount else .ok (w.append (Bits.ofNat count value))

def ue (value : Nat) (w : BitWriter) : Except WriteError BitWriter :=
  if value + 1 < 2 ^ (32 : Nat) then .ok (w.append (ExpGolomb.codeWord value)) else .error .overflow

def se (value : Int) (w : BitWriter) : Except WriteError BitWriter :=
  if 2 * value.natAbs < 2 ^ (32 : Nat) then ue (ExpGolomb.ofSigned value) w else .error .overflow

def aligned (bytes : List UInt8) (w : BitWriter) : BitWriter :=
  let w := w.flush
  { w with out := w.out ++ bytes }

def finish (w : BitWriter) : List UInt8 := w.flush.out

end BitWriter
end EvcStream
