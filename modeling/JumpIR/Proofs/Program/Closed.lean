import JumpIR.Program.Basic

/-!
# Closed programs

A program is closed if each number in it is the number of something: of a type, a variant, a
register, a support operation or a function of the program, or of a local or a block of the function
that it stands in.
-/

set_option autoImplicit false

namespace JumpIR

/-! ### Types -/

mutual

def Ty.Closed (p : Program) : Ty → Prop
  | .unit | .bool | .int | .bit | .bits _ | .string => True
  | .tuple items => Ty.AllClosed p items
  | .enum id => id.index < p.enums.length
  | .union id => id.index < p.unions.length

def Ty.AllClosed (p : Program) : List Ty → Prop
  | [] => True
  | type :: rest => type.Closed p ∧ Ty.AllClosed p rest

end

theorem Ty.allClosed_iff {p : Program} {types : List Ty} :
    Ty.AllClosed p types ↔ ∀ type ∈ types, type.Closed p := by
  induction types with
  | nil => simp [AllClosed]
  | cons type rest ih => simp [AllClosed, ih]

namespace Program

def enumName? (p : Program) (id : EnumId) : Option String := (p.enum? id).map (·.name)

def unionName? (p : Program) (id : UnionId) : Option String := (p.union? id).map (·.name)

def registerName? (p : Program) (id : RegisterId) : Option String := (p.register? id).map (·.name)

/-- The name of the variant of an enum that has the ordinal. -/
def ordinalName? (p : Program) (id : EnumId) (ordinal : Nat) : Option String :=
  (p.enum? id).bind (·.variant? ordinal)

/-- The ordinal is that of a variant. -/
def HasOrdinal (p : Program) (id : EnumId) (ordinal : Nat) : Prop :=
  ∃ e, p.enum? id = some e ∧ ordinal < e.variants.length

/-- The tag is that of a variant. -/
def HasTag (p : Program) (id : UnionId) (tag : Nat) : Prop :=
  ∃ u, p.union? id = some u ∧ tag < u.variants.length

end Program

/-! ### Bodies -/

def Const.Closed (p : Program) : Const → Prop
  | .enum id ordinal => p.HasOrdinal id ordinal
  | .unit | .bool _ | .int _ | .bits _ _ | .string _ => True

mutual

/-- Every number in an operand of a function `d` of `p` is in range. -/
def Operand.Closed (p : Program) (d : FunctionDef) : Operand → Prop
  | .const value => value.Closed p
  | .localVar id => id.index < d.locals.length
  | .register id => id.index < p.registers.length
  | .exception _ => True
  | .prim _ args => Operand.AllClosed p d args
  | .isVariant value union tag => p.HasTag union tag ∧ value.Closed p d
  | .asVariant value union tag => p.HasTag union tag ∧ value.Closed p d
  | .field value _ => value.Closed p d
  | .tuple items => Operand.AllClosed p d items
  | .construct union tag payload => p.HasTag union tag ∧ payload.Closed p d

def Operand.AllClosed (p : Program) (d : FunctionDef) : List Operand → Prop
  | [] => True
  | item :: rest => item.Closed p d ∧ Operand.AllClosed p d rest

end

def Place.Closed (p : Program) (d : FunctionDef) (place : Place) : Prop :=
  match place.root with
  | .localVar id => id.index < d.locals.length
  | .register id => id.index < p.registers.length
  | .result | .exception _ => True

def Callee.Closed (p : Program) : Callee → Prop
  | .function id => id.index < p.functions.length
  | .support id => id.index < p.supports.length

def Op.Closed (p : Program) (d : FunctionDef) : Op → Prop
  | .declare id => id.index < d.locals.length
  | .assign dest value => dest.Closed p d ∧ value.Closed p d
  | .call dest callee args =>
      (∀ place ∈ dest, place.Closed p d) ∧ callee.Closed p ∧ Operand.AllClosed p d args

/-- The operands of a terminator. -/
def Terminator.conds : Terminator → List Operand
  | .branch cond _ _ => [cond]
  | .goto _ | .ret | .arbitrary | .unreachable _ => []

structure Terminator.Closed (p : Program) (d : FunctionDef) (t : Terminator) : Prop where
  successors : ∀ id ∈ t.successors, id.index < d.blocks.length
  conds : ∀ cond ∈ t.conds, cond.Closed p d

structure Block.Closed (p : Program) (d : FunctionDef) (block : Block) : Prop where
  ops : ∀ op ∈ block.ops, op.Closed p d
  terminator : block.terminator.Closed p d

structure FunctionDef.Closed (p : Program) (d : FunctionDef) : Prop where
  nonempty : d.blocks ≠ []
  entry : d.entry.index < d.blocks.length
  blocks : ∀ block ∈ d.blocks, block.Closed p d
  locals : ∀ l ∈ d.locals, l.type.Closed p
  result : d.result.Closed p

structure SupportDef.Closed (p : Program) (op : SupportDef) : Prop where
  params : ∀ type ∈ op.params, type.Closed p
  result : op.result.Closed p

/-- Every number in a program is in range. -/
structure Program.Closed (p : Program) : Prop where
  unions : ∀ u ∈ p.unions, ∀ v ∈ u.variants, v.payload.Closed p
  registers : ∀ r ∈ p.registers, r.type.Closed p
  supports : ∀ op ∈ p.supports, op.Closed p
  functions : ∀ d ∈ p.functions, d.Closed p

end JumpIR
