import JumpIR.Text.Span

/-!
# Modules as trees

A module is a list of declarations. The body of a function is a list of statements, numbered from
zero; `jump` and `goto` name their targets by these numbers, and a declaration of a local counts as
a statement. A type that names an enum or a union holds the symbol it denotes once names have been
linked.
-/

set_option autoImplicit false

namespace JumpIR

structure SymbolId where
  index : Nat
deriving DecidableEq, Repr

/-- The three parts of the exception state, each of which can be read and assigned. -/
inductive ExceptionPart where
  | pending
  | thrown
  /-- Where it was thrown, as text. -/
  | location
deriving DecidableEq, Repr

namespace Tree

structure Ident where
  name : String
  span : Span
deriving DecidableEq, Repr

/-! ### Types -/

inductive BaseType where
  | unit
  | bool
  | int
  | int64
  | bit
  | string
  /-- A bitvector; without a width it takes any. -/
  | bits (width : Option Nat)
deriving DecidableEq, Repr

/-- What a type that is named must be declared as. -/
inductive NamedSort where
  | enum
  | union
deriving DecidableEq, Repr

inductive TypeExpr where
  | base (type : BaseType) (span : Span)
  | tuple (items : List TypeExpr) (span : Span)
  /-- An enum or a union, and its symbol once the name is linked. -/
  | named (sort : NamedSort) (name : Ident) (definition : Option SymbolId) (span : Span)
  | function (params : List TypeExpr) (result : TypeExpr) (span : Span)
deriving Repr

def TypeExpr.span : TypeExpr → Span
  | .base _ span | .tuple _ span | .named _ _ _ span | .function _ _ span => span

def TypeExpr.isFunction : TypeExpr → Bool
  | .function _ _ _ => true
  | _ => false

/-! ### Expressions -/

inductive Literal where
  | unit
  | bool (value : Bool)
  | int (value : Int64)
  | bits (width : Nat) (value : UInt64)
  | string (value : String)
deriving DecidableEq, Repr

inductive Expr where
  | name (name : Ident) (span : Span)
  | literal (value : Literal) (span : Span)
  /-- A call of a function, of a support operation or of a union's constructor. -/
  | call (callee : Ident) (args : List Expr) (span : Span)
  | prim (op : Ident) (args : List Expr) (span : Span)
  /-- True when the value does not hold the variant. -/
  | isNot (value : Expr) (variant : Ident) (span : Span)
  /-- The payload of a value that holds the variant. -/
  | project (value : Expr) (variant : Ident) (span : Span)
  | field (value : Expr) (index : Nat) (span : Span)
  | exception (part : ExceptionPart) (span : Span)
deriving Repr

namespace Expr

def span : Expr → Span
  | .name _ span | .literal _ span | .call _ _ span | .prim _ _ span | .isNot _ _ span
  | .project _ _ span | .field _ _ span | .exception _ span => span

def withSpan (span : Span) : Expr → Expr
  | .name n _ => .name n span
  | .literal v _ => .literal v span
  | .call f args _ => .call f args span
  | .prim op args _ => .prim op args span
  | .isNot v variant _ => .isNot v variant span
  | .project v variant _ => .project v variant span
  | .field v index _ => .field v index span
  | .exception part _ => .exception part span

end Expr

/-! ### Statements -/

/-- What an assignment stores into. -/
inductive Place where
  /-- A local or a register, or what lies under it along tuple fields. -/
  | named (name : Ident) (path : List Nat)
  | result
  | exception (part : ExceptionPart)
deriving DecidableEq, Repr

inductive StmtKind where
  | declare (name : Ident) (type : TypeExpr) (init : Option Expr)
  | assign (target : Place) (value : Expr)
  | jump (cond : Expr) (target : Nat) (location : Option String)
  | goto (target : Nat)
  /-- Leaves the function with the value of its result. -/
  | finish
  /-- Leaves the function on an exceptional path. -/
  | arbitrary
  /-- Stops the run when it is reached. -/
  | unreachable
deriving Repr

/-- Whether control never goes on to the next statement by itself. -/
def StmtKind.endsBlock : StmtKind → Bool
  | .jump _ _ _ | .goto _ | .finish | .arbitrary | .unreachable => true
  | .declare _ _ _ | .assign _ _ => false

structure Stmt where
  kind : StmtKind
  span : Span
deriving Repr

/-! ### Declarations -/

structure ValueDecl where
  name : Ident
  /-- The support operation that the name is bound to, if it has no body. -/
  binding : Option String
  type : TypeExpr
  span : Span
deriving Repr

structure EnumDecl where
  name : Ident
  variants : List Ident
  span : Span
deriving Repr

structure UnionVariant where
  name : Ident
  payload : TypeExpr
deriving Repr

structure UnionDecl where
  name : Ident
  variants : List UnionVariant
  span : Span
deriving Repr

structure FunctionDecl where
  name : Ident
  params : List Ident
  body : List Stmt
  span : Span
deriving Repr

structure RegisterDecl where
  name : Ident
  type : TypeExpr
  span : Span
deriving Repr

inductive Decl where
  | value (decl : ValueDecl)
  | enum (decl : EnumDecl)
  | union (decl : UnionDecl)
  | function (decl : FunctionDecl)
  | register (decl : RegisterDecl)
deriving Repr

namespace Decl

def name : Decl → Ident
  | .value d => d.name
  | .enum d => d.name
  | .union d => d.name
  | .function d => d.name
  | .register d => d.name

def span : Decl → Span
  | .value d => d.span
  | .enum d => d.span
  | .union d => d.span
  | .function d => d.span
  | .register d => d.span

def function? : Decl → Option FunctionDecl
  | .function f => some f
  | _ => none

end Decl

structure Module where
  decls : List Decl
  span : Span
deriving Repr

/-- The function bodies of a module, in its order. -/
def Module.functions (m : Module) : List FunctionDecl := m.decls.filterMap Decl.function?

end Tree

end JumpIR
