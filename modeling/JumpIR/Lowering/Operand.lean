import JumpIR.Lowering.Globals

/-!
# Expressions and places of a body

A name in a body is a local, else a register, else a variant of an enum. Only constructors may be
called inside an expression; any other call must be a whole right-hand side.
-/

set_option autoImplicit false

namespace JumpIR.Lowering

structure Scope where
  globals : Globals
  decl : Tree.FunctionDecl
  locals : List LocalDef
deriving Repr

namespace Scope

def name (s : Scope) : String := s.decl.name.name

def local? (s : Scope) (name : String) : Option LocalId :=
  (s.locals.findIdx? fun l => l.name == name).map LocalId.mk

def unresolved (s : Scope) (name : Tree.Ident) : Fault :=
  .unresolvedSymbol name.name s.name name.span

/-- The union and the tag of a variant that a test or a projection names. -/
def variant (s : Scope) (name : Tree.Ident) : Except Fault (UnionId × Nat) :=
  match s.globals.variant? name.name with
  | some found => .ok found
  | none => .error (s.unresolved name)

def nameOperand (s : Scope) (name : Tree.Ident) : Except Fault Operand :=
  match s.local? name.name with
  | some id => .ok (.localVar id)
  | none =>
      match s.globals.register? name.name with
      | some id => .ok (.register id)
      | none =>
          match s.globals.enumConst? name.name with
          | some c => .ok (.const c)
          | none => .error (s.unresolved name)

def literalConst : Tree.Literal → Const
  | .unit => .unit
  | .bool b => .bool b
  | .int n => .int n
  | .bits width value => .bits width value
  | .string text => .string text

/-- The value that a constructor makes of its arguments: none stands for the unit value, and
several stand for their tuple. -/
def construct (union : UnionId) (tag : Nat) : List Operand → Operand
  | [] => .construct union tag (.const .unit)
  | [item] => .construct union tag item
  | items => .construct union tag (.tuple items)

mutual

def operand (s : Scope) : Tree.Expr → Except Fault Operand
  | .name name _ => s.nameOperand name
  | .literal value _ => .ok (.const (literalConst value))
  | .call callee args span => do
      match ← s.globals.target? callee.name callee.span with
      | some (.constructor union tag) => do
          let items ← operands s args
          .ok (construct union tag items)
      | some _ => .error (.nestedCall s.name callee.name span)
      | none => .error (s.unresolved callee)
  | .prim op args span =>
      match PrimOp.ofName? op.name with
      | none => .error (.unsupported (.unknownPrimitive op.name) op.span)
      | some prim =>
          if prim.arity = args.length then do
            let items ← operands s args
            .ok (.prim prim items)
          else
            .error (.unsupported (.primitiveArity op.name prim.arity args.length) span)
  | .isNot value variant _ => do
      let (union, tag) ← s.variant variant
      let value ← operand s value
      .ok (.prim .not [.isVariant value union tag])
  | .project value variant _ => do
      let (union, tag) ← s.variant variant
      let value ← operand s value
      .ok (.asVariant value union tag)
  | .field value index _ => do
      let value ← operand s value
      .ok (.field value index)
  | .exception part _ => .ok (.exception part)

def operands (s : Scope) : List Tree.Expr → Except Fault (List Operand)
  | [] => .ok []
  | e :: rest => do
      let first ← operand s e
      let rest ← operands s rest
      .ok (first :: rest)

end

/-- Where an assignment stores: a local, else a register. -/
def place (s : Scope) : Tree.Place → Except Fault Place
  | .named name path =>
      match s.local? name.name with
      | some id => .ok ⟨.localVar id, path⟩
      | none =>
          match s.globals.register? name.name with
          | some id => .ok ⟨.register id, path⟩
          | none => .error (s.unresolved name)
  | .result => .ok (.whole .result)
  | .exception part => .ok (.whole (.exception part))

end Scope

end JumpIR.Lowering
