import JumpIR.Memory.Fault
import JumpIR.Value.Basic

/-!
# Why a run stops

Exceptions of the modelled machine are data and no faults. A fault ends the run: the program did
something that has no meaning.
-/

set_option autoImplicit false

namespace JumpIR

/-- A value or an entry that is not what an operation needs. -/
inductive Mismatch where
  | expected (expected found : Shape)
  | noField (size index : Nat)
  | noLocal (index : Nat)
  | noUnion (index : Nat)
  /-- Every variant of the union leads back to a union under construction. -/
  | noFiniteVariant (union : String)
  | otherUnion (expected found : String)
  | widths (a b : Nat)
  | expectedAddress (found : Shape)
  | stepParameter (function : String)
deriving DecidableEq, Repr

def Mismatch.message : Mismatch → String
  | .expected wanted found => s!"expected {wanted.name}, found {found.name}"
  | .noField size index => s!"tuple of {size} has no field {index}"
  | .noLocal index => s!"no local #{index}"
  | .noUnion index => s!"no union #{index}"
  | .noFiniteVariant union => s!"union {union} has no variant with a finite default"
  | .otherUnion wanted found => s!"expected union {wanted}, found union {found}"
  | .widths a b => s!"bitvector widths differ: {a} and {b}"
  | .expectedAddress found => s!"expected an address, found {found.name}"
  | .stepParameter function => s!"step function '{function}' must take an int or unit"

/-- An arithmetic operation whose result does not fit, or whose operand is out of range. -/
inductive Trap where
  | overflow (a : Int64) (sign : String) (b : Int64)
  | width (n : Int64)
  | shift (n : Int64)
  | negativeAddress (n : Int64)
  | accessSize (n : Int64)
  | zeroExtend (width target : Nat)
  | signExtend (width target : Nat)
  | slice (start length width : Nat)
  | unsignedRange (value : UInt64)
deriving DecidableEq, Repr

def Trap.message : Trap → String
  | .overflow a sign b => s!"{a.toInt} {sign} {b.toInt} overflows"
  | .width n => s!"bitvector width {n.toInt} out of range"
  | .shift n => s!"invalid shift amount {n.toInt}"
  | .negativeAddress n => s!"negative address {n.toInt}"
  | .accessSize n => s!"invalid access size {n.toInt}"
  | .zeroExtend size target => s!"cannot zero-extend bits{size} to bits{target}"
  | .signExtend size target => s!"cannot sign-extend bits{size} to bits{target}"
  | .slice start length size => s!"slice {start}+{length} out of range for bits{size}"
  | .unsignedRange value => s!"{hexNumeral value.toNat} does not fit an int"

inductive RunFault where
  | unreachable (location : String)
  | variantMismatch (expected found : String)
  | typeMismatch (cause : Mismatch)
  | unknownSupport (symbol : String)
  | unknownFunction (name : String)
  | unknownRegister (name : String)
  | arityMismatch (name : String) (expected found : Nat)
  | callDepthExceeded (limit : Nat)
  | arithmeticTrap (cause : Trap)
  /-- The thrown value was used before anything was thrown. -/
  | noException
  | memory (fault : MemoryFault)
deriving DecidableEq, Repr

def RunFault.message : RunFault → String
  | .unreachable location => s!"unreachable code reached at {location}"
  | .variantMismatch expected found => s!"expected variant '{expected}', found '{found}'"
  | .typeMismatch cause => s!"type mismatch: {cause.message}"
  | .unknownSupport symbol => s!"unknown extern symbol '{symbol}'"
  | .unknownFunction name => s!"unknown function '{name}'"
  | .unknownRegister name => s!"unknown register '{name}'"
  | .arityMismatch name expected found => s!"'{name}' takes {expected} arguments, got {found}"
  | .callDepthExceeded limit => s!"call depth exceeded {limit}"
  | .arithmeticTrap cause => s!"arithmetic trap: {cause.message}"
  | .noException => "no exception value recorded"
  | .memory fault => fault.message

namespace Value

/-! ### Looking into a value -/

def mismatch {α : Type} (expected : Shape) (found : Value) : Except RunFault α :=
  .error (.typeMismatch (.expected expected found.shape))

def asBool : Value → Except RunFault Bool
  | .bool b => .ok b
  | other => mismatch .bool other

def asInt : Value → Except RunFault Int64
  | .int n => .ok n
  | other => mismatch .int other

def asBits : Value → Except RunFault (Nat × UInt64)
  | .bits width value => .ok (width, value)
  | other => mismatch .bits other

def asString : Value → Except RunFault String
  | .string s => .ok s
  | other => mismatch .string other

def asUnion : Value → Except RunFault (UnionId × Nat × Value)
  | .union id tag payload => .ok (id, tag, payload)
  | other => mismatch .union other

def field (index : Nat) : Value → Except RunFault Value
  | .tuple items =>
      match items[index]? with
      | some item => .ok item
      | none => .error (.typeMismatch (.noField items.length index))
  | other => mismatch .tuple other

/-- The value with `leaf` in the place that a path of tuple fields leads to. -/
def setPath (target : Value) (path : List Nat) (leaf : Value) : Except RunFault Value :=
  match path, target with
  | [], _ => .ok leaf
  | index :: path, .tuple items =>
      match items[index]? with
      | some item => do
          let item ← item.setPath path leaf
          .ok (.tuple (items.set index item))
      | none => .error (.typeMismatch (.noField items.length index))
  | _ :: _, other => mismatch .tuple other

end Value

end JumpIR
