import JumpIR.Machine.State

/-!
# Operands and places at run time

Evaluating an operand reads the frame and the machine and changes neither. A store puts a value into
a frame or into the machine, or leaves both as they are.
-/

set_option autoImplicit false

namespace JumpIR

/-- What a call has of its own: its locals, and its result so far. -/
structure Frame where
  locals : List Value
  result : Value
deriving DecidableEq, Repr

namespace Program

def unionName (p : Program) (id : UnionId) : String :=
  match p.union? id with
  | some u => u.name
  | none => s!"#{id.index}"

def variantLabel (p : Program) (id : UnionId) (tag : Nat) : String :=
  (p.variantName? id tag).getD s!"#{tag}"

/-- The tag and the payload of a value, which must be one of union `id`. -/
def heldVariant (p : Program) (id : UnionId) (value : Value) : Except RunFault (Nat × Value) := do
  let (held, tag, payload) ← value.asUnion
  if held = id then .ok (tag, payload)
  else .error (.typeMismatch (.otherUnion (p.unionName id) (p.unionName held)))

/-- The payload of a value that must hold variant `tag` of union `id`. -/
def payloadOf (p : Program) (id : UnionId) (tag : Nat) (value : Value) : Except RunFault Value := do
  let (held, payload) ← p.heldVariant id value
  if held = tag then .ok payload
  else .error (.variantMismatch (p.variantLabel id tag) (p.variantLabel id held))

end Program

namespace Frame

def local? (f : Frame) (id : LocalId) : Except RunFault Value :=
  match f.locals[id.index]? with
  | some value => .ok value
  | none => .error (.typeMismatch (.noLocal id.index))

end Frame

namespace Machine

def register? (m : Machine) (id : RegisterId) : Except RunFault Value :=
  match m.registers[id.index]? with
  | some value => .ok value
  | none => .error (.unknownRegister s!"#{id.index}")

def exceptionPart (m : Machine) : ExceptionPart → Except RunFault Value
  | .pending => .ok (.bool m.exception.pending)
  | .thrown =>
      match m.exception.thrown with
      | some value => .ok value
      | none => .error .noException
  | .location => .ok (.string m.exception.location)

end Machine

/-! ### Evaluating operands -/

/-- A primitive on what becomes of its operands, which must be as many as it takes. The second
operand of a connective is looked at only if the first one leaves it open. -/
def PrimOp.apply : PrimOp → List (Except RunFault Value) → Except RunFault Value
  | .not, [a] => do
      let a ← (← a).asBool
      .ok (.bool !a)
  | .and, [a, b] => do
      let a ← (← a).asBool
      if a then
        let b ← (← b).asBool
        .ok (.bool b)
      else .ok (.bool false)
  | .or, [a, b] => do
      let a ← (← a).asBool
      if a then .ok (.bool true)
      else
        let b ← (← b).asBool
        .ok (.bool b)
  | .eq, [a, b] => do
      let a ← a
      let b ← b
      .ok (.bool (a.same b))
  | .neq, [a, b] => do
      let a ← a
      let b ← b
      .ok (.bool !(a.same b))
  | op, args => .error (.arityMismatch s!"@{op.name}" op.arity args.length)

mutual

def Operand.evaluate (p : Program) (f : Frame) (m : Machine) : Operand → Except RunFault Value
  | .const c => .ok (.ofConst c)
  | .localVar id => f.local? id
  | .register id => m.register? id
  | .exception part => m.exceptionPart part
  | .prim op args => op.apply (Operand.outcomes p f m args)
  | .isVariant value union tag => do
      let value ← value.evaluate p f m
      let (held, _) ← p.heldVariant union value
      .ok (.bool (held == tag))
  | .asVariant value union tag => do
      let value ← value.evaluate p f m
      p.payloadOf union tag value
  | .field value index => do
      let value ← value.evaluate p f m
      value.field index
  | .tuple items => do
      let items ← Operand.evaluateAll p f m items
      .ok (.tuple items)
  | .construct union tag payload => do
      let payload ← payload.evaluate p f m
      .ok (.union union tag payload)

def Operand.evaluateAll (p : Program) (f : Frame) (m : Machine) :
    List Operand → Except RunFault (List Value)
  | [] => .ok []
  | o :: rest => do
      let first ← o.evaluate p f m
      let rest ← Operand.evaluateAll p f m rest
      .ok (first :: rest)

def Operand.outcomes (p : Program) (f : Frame) (m : Machine) :
    List Operand → List (Except RunFault Value)
  | [] => []
  | o :: rest => o.evaluate p f m :: Operand.outcomes p f m rest

end

/-! ### Storing -/

/-- Stores into a part of the exception state; only the thrown value may have a path. -/
def ExceptionState.store (e : ExceptionState) (part : ExceptionPart) (path : List Nat)
    (value : Value) : Except RunFault ExceptionState :=
  match part with
  | .pending => do
      let pending ← value.asBool
      .ok { e with pending := pending }
  | .location => do
      let location ← value.asString
      .ok { e with location := location }
  | .thrown =>
      match path with
      | [] => .ok { e with thrown := some value }
      | _ =>
          match e.thrown with
          | none => .error .noException
          | some thrown => do
              let thrown ← thrown.setPath path value
              .ok { e with thrown := some thrown }

def Place.store (place : Place) (value : Value) (f : Frame) (m : Machine) :
    Except RunFault (Frame × Machine) :=
  match place.root with
  | .localVar id => do
      let old ← f.local? id
      let new ← old.setPath place.path value
      .ok ({ f with locals := f.locals.set id.index new }, m)
  | .result => do
      let new ← f.result.setPath place.path value
      .ok ({ f with result := new }, m)
  | .register id => do
      let old ← m.register? id
      let new ← old.setPath place.path value
      .ok (f, m.setRegister id.index new)
  | .exception part => do
      let exception ← m.exception.store part place.path value
      .ok (f, { m with exception := exception })

end JumpIR
