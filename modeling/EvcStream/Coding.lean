import EvcStream.Bits
/-!
# Unit types, faults and coded fields

What can be wrong with a stream, and the fields that coded structures are made of. A decoder reads
its fields one after the other and stops at the first fault; an encoder does the same with what it
writes.
-/
namespace EvcStream

inductive NalUnitType where
  | nonIdr
  | idr
  | reservedVcl (index : Fin 22)
  | sps
  | pps
  | aps
  | fillerData
  | sei
  | reservedNonVcl (index : Fin 27)
  | unspecified (index : Fin 7)
  deriving DecidableEq, Repr

namespace NalUnitType

def code : NalUnitType → Nat
  | nonIdr => 0
  | idr => 1
  | reservedVcl index => 2 + index
  | sps => 24
  | pps => 25
  | aps => 26
  | fillerData => 27
  | sei => 28
  | reservedNonVcl index => 29 + index
  | unspecified index => 56 + index

def ofCode (code : Nat) (bound : code < 63) : NalUnitType :=
  if code = 0 then nonIdr
  else if code = 1 then idr
  else if _ : code < 24 then reservedVcl ⟨code - 2, by omega⟩
  else if code = 24 then sps
  else if code = 25 then pps
  else if code = 26 then aps
  else if code = 27 then fillerData
  else if code = 28 then sei
  else if _ : code < 56 then reservedNonVcl ⟨code - 29, by omega⟩
  else unspecified ⟨code - 56, by omega⟩

def ofCode? (code : Nat) : Option NalUnitType :=
  if bound : code < 63 then some (ofCode code bound) else none

theorem code_lt (type : NalUnitType) : type.code < 63 := by
  cases type <;> simp only [code] <;> omega

@[simp] theorem code_ofCode (n : Nat) (bound : n < 63) : (ofCode n bound).code = n := by
  unfold ofCode
  repeat' split
  all_goals simp only [code]
  all_goals omega

theorem code_injective {s t : NalUnitType} (h : s.code = t.code) : s = t := by
  cases s <;> cases t <;> simp only [code, reservedVcl.injEq, reservedNonVcl.injEq,
    unspecified.injEq, Fin.ext_iff] at h ⊢ <;> omega

@[simp] theorem ofCode_code (type : NalUnitType) : ofCode type.code type.code_lt = type :=
  code_injective (code_ofCode type.code type.code_lt)

@[simp] theorem ofCode?_code (type : NalUnitType) : ofCode? type.code = some type := by
  simp [ofCode?, type.code_lt]

def isVcl (type : NalUnitType) : Bool := type.code ≤ 23

def isSlice : NalUnitType → Bool
  | nonIdr | idr => true
  | _ => false

def twoDigits (n : Nat) : String := if n < 10 then s!"0{n}" else toString n

def name : NalUnitType → String
  | nonIdr => "NoIdr"
  | idr => "Idr"
  | reservedVcl index => "ReservedVcl" ++ twoDigits (2 + index)
  | sps => "Sps"
  | pps => "Pps"
  | aps => "Aps"
  | fillerData => "Fd"
  | sei => "Sei"
  | reservedNonVcl index => "ReservedNonVcl" ++ twoDigits (29 + index)
  | unspecified index => "Unspecified" ++ twoDigits (56 + index)

end NalUnitType

inductive Fault where
  | bits (error : ReadError)
  | lengthMissing (got : Nat)
  | lengthZero
  | unitExceedsData (size available : Nat)
  | unitExceedsLimit (size limit : Nat)
  | trailingBytes (count : Nat)
  | headerMissing (got : Nat)
  | forbiddenBit
  | typeZero
  | unexpectedType (expected : List NalUnitType) (got : NalUnitType)
  | refPicOutOfRange (delta : Int)
  | unknownSps (pps sps : Nat)
  | unknownPps (pps : Nat)
  | lostSps (pps sps : Nat)
  | lostParameterSets (pps : Nat)
  | noPictureOrder (type : NalUnitType)
  | orderLsbTooLarge (lsb : Nat) (bound : Int)
  | orderOverflow
  | temporalIdTooLarge (temporalId : Nat) (length : Int)
  | accessUnitTooLarge
  | unsupportedProfile (idc : Nat)
  | unsupportedChromaFormat (idc : Nat)
  deriving DecidableEq, Repr

namespace Fault

/-- Whether the stream is well formed but cannot be consumed. -/
def isUnsupported : Fault → Bool
  | unsupportedProfile _ | unsupportedChromaFormat _ => true
  | _ => false

def nameList (types : List NalUnitType) : String :=
  "[" ++ ", ".intercalate (types.map NalUnitType.name) ++ "]"

def detail : Fault → String
  | bits error => error.message
  | lengthMissing got => s!"NAL unit length prefix needs 4 bytes, got {got}"
  | lengthZero => "NAL unit length is 0"
  | unitExceedsData size available =>
    s!"NAL unit of size {size} exceeds the {available} remaining bytes"
  | unitExceedsLimit size limit =>
    s!"NAL unit of {size} bytes exceeds the {limit} bytes limit"
  | trailingBytes count => s!"{count} trailing bytes after NAL unit"
  | headerMissing got => s!"NAL unit header needs 2 bytes, got {got}"
  | forbiddenBit => "forbidden_zero_bit is set"
  | typeZero => "nal_unit_type_plus1 is 0"
  | unexpectedType expected got =>
    "Invalid NALU type, expected " ++ nameList expected ++ ", got " ++ got.name
  | refPicOutOfRange delta => s!"reference picture delta {delta} out of range"
  | unknownSps pps sps =>
    s!"Broken stream: PPS {pps} references SPS {sps} that has not been successfully parsed"
  | unknownPps pps =>
    s!"Broken stream: slice references PPS {pps} that has not been successfully parsed"
  | lostSps pps sps =>
    s!"Broken stream: PPS {pps} references SPS {sps} that is no longer available"
  | lostParameterSets pps => s!"parameter sets for PPS {pps} are gone"
  | noPictureOrder type => "cannot derive a picture order count for " ++ type.name
  | orderLsbTooLarge lsb bound => s!"slice_pic_order_cnt_lsb {lsb} exceeds {bound}"
  | orderOverflow => "picture order count overflow"
  | temporalIdTooLarge temporalId length =>
    s!"temporal id {temporalId} does not fit a sub-GOP of length {length}"
  | accessUnitTooLarge => "access unit too large"
  | unsupportedProfile idc => s!"profile_idc {idc}"
  | unsupportedChromaFormat idc => s!"chroma_format_idc {idc}"

def message (fault : Fault) : String :=
  (if fault.isUnsupported then "unsupported stream: " else "invalid data: ") ++ fault.detail

end Fault

abbrev Decoder := EStateM Fault BitReader

namespace Decoder

def ofRead {α : Type} (read : ReadM α) : Decoder α := fun r =>
  match read r with
  | .ok value r => .ok value r
  | .error error r => .error (.bits error) r

def flag : Decoder Bool := ofRead BitReader.bit

def u (width : Nat) : Decoder Nat := ofRead (BitReader.bits width)

def ue : Decoder Nat := ofRead BitReader.ue

def ueMax (high : Nat) : Decoder Nat := ofRead (BitReader.ueMax high)

def se : Decoder Int := ofRead BitReader.se

def optional {α : Type} (coded : Bool) (part : Decoder α) : Decoder (Option α) :=
  if coded then some <$> part else pure none

def flagged {α : Type} (part : Decoder α) : Decoder (Option α) := do
  optional (← flag) part

def times {α : Type} : Nat → Decoder α → Decoder (List α)
  | 0, _ => pure []
  | count + 1, item => do
    let first ← item
    let others ← times count item
    return first :: others

end Decoder

inductive EncodeError where
  | unsupported
  | write (error : WriteError)
  deriving DecidableEq, Repr

def EncodeError.message : EncodeError → String
  | .unsupported => "tried to synthesize unsupported settings"
  | .write error => error.message

abbrev Coded := Except EncodeError Bits

namespace Coded

def empty : Coded := .ok []

def append (front back : Coded) : Coded :=
  match front, back with
  | .ok x, .ok y => .ok (x ++ y)
  | .ok _, .error error => .error error
  | .error error, _ => .error error

instance : Append Coded := ⟨append⟩

def flag (value : Bool) : Coded := .ok [value]

def u (width value : Nat) : Coded :=
  if 32 < width then .error (.write .bitCount) else .ok (Bits.ofNat width value)

def ue (value : Nat) : Coded :=
  if value + 1 < 2 ^ (32 : Nat) then .ok (ExpGolomb.codeWord value) else .error (.write .overflow)

def se (value : Int) : Coded :=
  if 2 * value.natAbs < 2 ^ (32 : Nat) then ue (ExpGolomb.ofSigned value)
  else .error (.write .overflow)

def require (condition : Prop) [Decidable condition] (rest : Coded) : Coded :=
  if condition then rest else .error .unsupported

def optional {α : Type} (part : α → Coded) : Option α → Coded
  | none => empty
  | some value => part value

def flagged {α : Type} (part : α → Coded) (value : Option α) : Coded :=
  flag value.isSome ++ optional part value

def each {α : Type} (item : α → Coded) : List α → Coded
  | [] => empty
  | first :: others => item first ++ each item others

end Coded

theorem bind_ok {ε α β : Type} {first : Except ε α} {next : α → Except ε β} {b : β}
    (succeeded : first >>= next = .ok b) : ∃ a, first = .ok a ∧ next a = .ok b := by
  cases first with
  | error fault => cases succeeded
  | ok a => exact ⟨a, rfl, succeeded⟩

theorem bind_ok_iff {ε α β : Type} {first : Except ε α} {next : α → Except ε β} {b : β} :
    first >>= next = .ok b ↔ ∃ a, first = .ok a ∧ next a = .ok b := by
  constructor
  · exact bind_ok
  · rintro ⟨a, rfl, later⟩
    exact later

theorem Fault.bind_ok {α β : Type} {first : Except Fault α} {next : α → Except Fault β} {b : β}
    (succeeded : first >>= next = .ok b) : ∃ a, first = .ok a ∧ next a = .ok b :=
  EvcStream.bind_ok succeeded

theorem Fault.bind_error {α β : Type} {first : Except Fault α} {next : α → Except Fault β}
    {fault : Fault} (failed : first >>= next = .error fault) :
    first = .error fault ∨ ∃ a, first = .ok a ∧ next a = .error fault := by
  cases first with
  | error other =>
    cases failed
    exact Or.inl rfl
  | ok a => exact Or.inr ⟨a, rfl, failed⟩

theorem ok_of_toOption {ε α : Type} {result : Except ε α} {a : α}
    (succeeded : result.toOption = some a) : result = .ok a := by
  cases result with
  | error fault => cases succeeded
  | ok b => exact congrArg Except.ok (Option.some.inj succeeded)

theorem Fault.ok_of_toOption {α : Type} {result : Except Fault α} {a : α}
    (succeeded : result.toOption = some a) : result = .ok a :=
  EvcStream.ok_of_toOption succeeded

theorem Fault.bind_ite_ok {α β : Type} {condition : Prop} [Decidable condition]
    {first second : Except Fault α} {next : α → Except Fault β} {b : β}
    (succeeded : (if condition then first >>= next else second >>= next) = .ok b) :
    ∃ a, (if condition then first else second) = .ok a ∧ next a = .ok b := by
  rw [← apply_ite (· >>= next)] at succeeded
  exact bind_ok succeeded

theorem Fault.bind_ite_error {α β : Type} {condition : Prop} [Decidable condition]
    {first second : Except Fault α} {next : α → Except Fault β} {fault : Fault}
    (failed : (if condition then first >>= next else second >>= next) = .error fault) :
    (if condition then first else second) = .error fault ∨
      ∃ a, (if condition then first else second) = .ok a ∧ next a = .error fault := by
  rw [← apply_ite (· >>= next)] at failed
  exact bind_error failed

instance decideResult {ε σ α : Type} [DecidableEq ε] [DecidableEq σ] [DecidableEq α] :
    DecidableEq (EStateM.Result ε σ α)
  | .ok a s, .ok b t => decidable_of_iff (a = b ∧ s = t) (by simp)
  | .error e s, .error f t => decidable_of_iff (e = f ∧ s = t) (by simp)
  | .ok .., .error .. => isFalse nofun
  | .error .., .ok .. => isFalse nofun

theorem bind_run {ε σ α β : Type} (part : EStateM ε σ α) (next : α → EStateM ε σ β) (r : σ) :
    (part >>= next) r =
      match part r with
      | .ok a s => next a s
      | .error fault s => .error fault s := by
  change EStateM.bind part next r = _
  unfold EStateM.bind
  cases part r <;> rfl

theorem bind_run_of_ok {ε σ α β : Type} {part : EStateM ε σ α} {next : α → EStateM ε σ β} {r s : σ}
    {a : α} (delivered : part r = .ok a s) : (part >>= next) r = next a s := by
  rw [bind_run, delivered]

theorem bind_run_of_error {ε σ α β : Type} {part : EStateM ε σ α} {next : α → EStateM ε σ β}
    {r s : σ} {fault : ε} (failed : part r = .error fault s) :
    (part >>= next) r = .error fault s := by
  rw [bind_run, failed]

theorem bind_run_ok {ε σ α β : Type} {part : EStateM ε σ α} {next : α → EStateM ε σ β} {r s : σ}
    {b : β} (delivered : (part >>= next) r = .ok b s) :
    ∃ a t, part r = .ok a t ∧ next a t = .ok b s := by
  rw [bind_run] at delivered
  cases read : part r with
  | error fault t =>
    rw [read] at delivered
    cases delivered
  | ok a t =>
    rw [read] at delivered
    exact ⟨a, t, rfl, delivered⟩

end EvcStream
