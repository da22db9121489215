import JumpIR.Value.Fault

/-!
# Default values

Every type that has a finite value has a default one. The default of an enum is its first variant,
and that of a union is its first variant whose payload has a default that leads to none of the
unions that are under construction. Main function: `Program.defaultValue`.
-/

set_option autoImplicit false

namespace JumpIR

namespace Ty

mutual

/-- Whether every union that a type is made of passes a test. -/
def allUnions (test : UnionId → Bool) : Ty → Bool
  | .tuple items => allUnionsIn test items
  | .union id => test id
  | .unit | .bool | .int | .bit | .bits _ | .string | .enum _ => true

def allUnionsIn (test : UnionId → Bool) : List Ty → Bool
  | [] => true
  | t :: rest => allUnions test t && allUnionsIn test rest

end

mutual

/-- The default value of a type, given those of the unions that it is made of. -/
def defaultWith (union : UnionId → Except RunFault Value) : Ty → Except RunFault Value
  | .unit => .ok .unit
  | .bool => .ok (.bool false)
  | .int => .ok (.int 0)
  | .bit => .ok (.ofBits 1 0)
  | .bits width => .ok (.ofBits width 0)
  | .string => .ok (.string "")
  | .tuple items => do
      let items ← defaultsWith union items
      .ok (.tuple items)
  | .enum id => .ok (.enum id 0)
  | .union id => union id

def defaultsWith (union : UnionId → Except RunFault Value) :
    List Ty → Except RunFault (List Value)
  | [] => .ok []
  | t :: rest => do
      let first ← defaultWith union t
      let rest ← defaultsWith union rest
      .ok (first :: rest)

end

end Ty

namespace Program

/-- Whether a union has a default that leads to none of the unions in `visiting`. Each round enters
a union that was not entered before, so as many rounds as there are unions are enough. -/
def unionIsFinite (p : Program) : (rounds : Nat) → (visiting : List UnionId) → UnionId → Bool
  | 0, _, _ => false
  | rounds + 1, visiting, id =>
      !visiting.contains id &&
        match p.union? id with
        | none => false
        | some u =>
            u.variants.any fun v =>
              v.payload.allUnions (unionIsFinite p rounds (id :: visiting))

/-- Whether a type has a default that leads to none of the unions in `visiting`. -/
def isFinite (p : Program) (visiting : List UnionId) (t : Ty) : Bool :=
  t.allUnions (p.unionIsFinite p.unions.length visiting)

/-- The default of a union while those in `visiting` are under construction. -/
def unionDefault (p : Program) :
    (rounds : Nat) → (visiting : List UnionId) → UnionId → Except RunFault Value
  | 0, _, id => .error (.typeMismatch (.noUnion id.index))
  | rounds + 1, visiting, id =>
      match p.union? id with
      | none => .error (.typeMismatch (.noUnion id.index))
      | some u =>
          match u.variants.findIdx? fun v => p.isFinite (id :: visiting) v.payload with
          | none => .error (.typeMismatch (.noFiniteVariant u.name))
          | some tag =>
              match u.variants[tag]? with
              | none => .error (.typeMismatch (.noFiniteVariant u.name))
              | some v => do
                  let payload ← v.payload.defaultWith (unionDefault p rounds (id :: visiting))
                  .ok (.union id tag payload)

/-- The value that a fresh local or register of a type holds, and that an exceptional exit
returns. -/
def defaultValue (p : Program) (t : Ty) : Except RunFault Value :=
  t.defaultWith (p.unionDefault p.unions.length [])

def defaultValues (p : Program) : List Ty → Except RunFault (List Value)
  | [] => .ok []
  | t :: rest => do
      let first ← p.defaultValue t
      let rest ← defaultValues p rest
      .ok (first :: rest)

end Program

end JumpIR
