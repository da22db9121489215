import JumpIR.Program.Type
import JumpIR.Tree.Basic

/-!
# Programs

A program is what a module is compiled into and what a machine runs. Its enums, unions, registers,
support operations and functions are numbered in the order of their lists. A function is a graph of
blocks, each a straight run of operations with one way to leave it.
-/

set_option autoImplicit false

namespace JumpIR

structure RegisterId where
  index : Nat
deriving DecidableEq, Repr

structure SupportId where
  index : Nat
deriving DecidableEq, Repr

structure FuncId where
  index : Nat
deriving DecidableEq, Repr

structure LocalId where
  index : Nat
deriving DecidableEq, Repr

structure BlockId where
  index : Nat
deriving DecidableEq, Repr

/-! ### Declared types -/

/-- An enum; the ordinal of a variant is its position. -/
structure EnumDef where
  name : String
  variants : List String
deriving DecidableEq, Repr

namespace EnumDef

def ordinal? (e : EnumDef) (variant : String) : Option Nat :=
  e.variants.findIdx? fun v => v == variant

def variant? (e : EnumDef) (ordinal : Nat) : Option String := e.variants[ordinal]?

end EnumDef

structure VariantDef where
  name : String
  payload : Ty
deriving DecidableEq, Repr

/-- A union; the tag of a variant is its position. -/
structure UnionDef where
  name : String
  variants : List VariantDef
deriving DecidableEq, Repr

namespace UnionDef

def tag? (u : UnionDef) (variant : String) : Option Nat :=
  u.variants.findIdx? fun v => v.name == variant

def variant? (u : UnionDef) (tag : Nat) : Option VariantDef := u.variants[tag]?

end UnionDef

structure RegisterDef where
  name : String
  type : Ty
deriving DecidableEq, Repr

/-- A value of the module that is bound to an operation of the support library. -/
structure SupportDef where
  name : String
  symbol : String
  params : List Ty
  result : Ty
deriving DecidableEq, Repr

/-! ### Operands and places -/

inductive PrimOp where
  | not
  | and
  | or
  | eq
  | neq
deriving DecidableEq, Repr

namespace PrimOp

def all : List PrimOp := [.not, .and, .or, .eq, .neq]

def name : PrimOp → String
  | .not => "not"
  | .and => "and"
  | .or => "or"
  | .eq => "eq"
  | .neq => "neq"

def ofName? (name : String) : Option PrimOp := all.find? fun op => op.name == name

def arity : PrimOp → Nat
  | .not => 1
  | _ => 2

end PrimOp

inductive Const where
  | unit
  | bool (value : Bool)
  | int (value : Int64)
  | bits (width : Nat) (value : UInt64)
  | string (value : String)
  | enum (id : EnumId) (ordinal : Nat)
deriving DecidableEq, Repr

/-- An expression; evaluating it changes nothing. -/
inductive Operand where
  | const (value : Const)
  | localVar (id : LocalId)
  | register (id : RegisterId)
  | exception (part : ExceptionPart)
  | prim (op : PrimOp) (args : List Operand)
  /-- Whether the value holds that variant. -/
  | isVariant (value : Operand) (union : UnionId) (tag : Nat)
  /-- The payload of a value that holds that variant. -/
  | asVariant (value : Operand) (union : UnionId) (tag : Nat)
  | field (value : Operand) (index : Nat)
  | tuple (items : List Operand)
  | construct (union : UnionId) (tag : Nat) (payload : Operand)
deriving Repr

inductive PlaceRoot where
  | localVar (id : LocalId)
  | register (id : RegisterId)
  | result
  | exception (part : ExceptionPart)
deriving DecidableEq, Repr

/-- Where a value is stored: a root, and the tuple fields that lead on from it. -/
structure Place where
  root : PlaceRoot
  path : List Nat
deriving DecidableEq, Repr

def Place.whole (root : PlaceRoot) : Place := ⟨root, []⟩

/-! ### Functions -/

inductive Callee where
  | function (id : FuncId)
  | support (id : SupportId)
deriving DecidableEq, Repr

inductive Op where
  /-- Gives a local the default value of its type. -/
  | declare (id : LocalId)
  | assign (dest : Place) (value : Operand)
  | call (dest : Option Place) (callee : Callee) (args : List Operand)
deriving Repr

inductive Terminator where
  | goto (target : BlockId)
  | branch (cond : Operand) (thenBlock elseBlock : BlockId)
  /-- Leaves the function with its result. -/
  | ret
  /-- Leaves the function with the default value of its result's type. -/
  | arbitrary
  | unreachable (location : String)
deriving Repr

def Terminator.successors : Terminator → List BlockId
  | .goto target => [target]
  | .branch _ thenBlock elseBlock => [thenBlock, elseBlock]
  | .ret | .arbitrary | .unreachable _ => []

structure Block where
  /-- The number of the statement that starts the block, unless no statement does. -/
  origin : Option Nat
  ops : List Op
  terminator : Terminator
deriving Repr

structure LocalDef where
  name : String
  type : Ty
deriving DecidableEq, Repr

structure FunctionDef where
  name : String
  /-- The parameters, which are the first locals. -/
  params : List LocalId
  locals : List LocalDef
  result : Ty
  blocks : List Block
  entry : BlockId
  /-- Whether a call can return with an exception pending. -/
  mayRaise : Bool
deriving Repr

namespace FunctionDef

def block? (f : FunctionDef) (id : BlockId) : Option Block := f.blocks[id.index]?

def localId? (f : FunctionDef) (name : String) : Option LocalId :=
  (f.locals.findIdx? fun l => l.name == name).map LocalId.mk

end FunctionDef

structure Program where
  enums : List EnumDef
  unions : List UnionDef
  registers : List RegisterDef
  supports : List SupportDef
  functions : List FunctionDef
deriving Repr

namespace Program

def empty : Program := ⟨[], [], [], [], []⟩

def enum? (p : Program) (id : EnumId) : Option EnumDef := p.enums[id.index]?

def union? (p : Program) (id : UnionId) : Option UnionDef := p.unions[id.index]?

def register? (p : Program) (id : RegisterId) : Option RegisterDef := p.registers[id.index]?

def support? (p : Program) (id : SupportId) : Option SupportDef := p.supports[id.index]?

def function? (p : Program) (id : FuncId) : Option FunctionDef := p.functions[id.index]?

/-! ### Look-up by name: the first definition of a name counts -/

def functionId? (p : Program) (name : String) : Option FuncId :=
  (p.functions.findIdx? fun f => f.name == name).map FuncId.mk

def registerId? (p : Program) (name : String) : Option RegisterId :=
  (p.registers.findIdx? fun r => r.name == name).map RegisterId.mk

def enumNamed? (p : Program) (name : String) : Option EnumDef :=
  p.enums.find? fun e => e.name == name

def unionNamed? (p : Program) (name : String) : Option UnionDef :=
  p.unions.find? fun u => u.name == name

def variantName? (p : Program) (union : UnionId) (tag : Nat) : Option String := do
  let u ← p.union? union
  let v ← u.variant? tag
  some v.name

end Program

end JumpIR
