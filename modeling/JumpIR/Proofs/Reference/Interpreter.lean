import JumpIR.Lowering.Body
import JumpIR.Machine.Execution
import JumpIR.Symbol.Linking

/-!
# The reference interpreter

Runs a body on its numbered statements, without blocks: expressions are evaluated as they are
written, and a call runs the body of the function of that name. Frames, machines and support
operations are those of the machine model. Main functions: `Reference.run` and `Reference.call`.
-/

set_option autoImplicit false

namespace JumpIR

open Lowering (Globals Options Scope)

/-! ### Expressions and places -/

namespace Lowering.Scope

/-- The payload that a constructor wraps around its arguments. -/
def payload : List Value → Value
  | [] => .unit
  | [item] => item
  | items => .tuple items

mutual

/-- The value of an expression whose calls are constructors. -/
def evaluate (s : Scope) (types : Program) (f : Frame) (m : Machine) :
    Tree.Expr → Except RunFault Value
  | .name name _ =>
      match s.local? name.name with
      | some id => f.local? id
      | none =>
          match s.globals.register? name.name with
          | some id => m.register? id
          | none =>
              match s.globals.enumConst? name.name with
              | some c => .ok (.ofConst c)
              | none => .error (.unknownRegister name.name)
  | .literal value _ => .ok (.ofConst (literalConst value))
  | .call callee args _ =>
      match s.globals.variant? callee.name with
      | some (union, tag) => do
          let items ← evaluateAll s types f m args
          .ok (.union union tag (payload items))
      | none => .error (.unknownFunction callee.name)
  | .prim op args _ =>
      match PrimOp.ofName? op.name with
      | some prim => prim.apply (outcomes s types f m args)
      | none => .error (.unknownFunction op.name)
  | .isNot value variant _ =>
      match s.globals.variant? variant.name with
      | some (union, tag) => do
          let value ← evaluate s types f m value
          let (held, _) ← types.heldVariant union value
          .ok (.bool (held != tag))
      | none => .error (.unknownFunction variant.name)
  | .project value variant _ =>
      match s.globals.variant? variant.name with
      | some (union, tag) => do
          let value ← evaluate s types f m value
          types.payloadOf union tag value
      | none => .error (.unknownFunction variant.name)
  | .field value index _ => do
      let value ← evaluate s types f m value
      value.field index
  | .exception part _ => m.exceptionPart part

/-- The values of a list of expressions, if all of them have one. -/
def evaluateAll (s : Scope) (types : Program) (f : Frame) (m : Machine) :
    List Tree.Expr → Except RunFault (List Value)
  | [] => .ok []
  | e :: rest => do
      let first ← evaluate s types f m e
      let rest ← evaluateAll s types f m rest
      .ok (first :: rest)

/-- What becomes of each expression of a list. -/
def outcomes (s : Scope) (types : Program) (f : Frame) (m : Machine) :
    List Tree.Expr → List (Except RunFault Value)
  | [] => []
  | e :: rest => evaluate s types f m e :: outcomes s types f m rest

end

/-- Stores a value where an assignment says. -/
def store (s : Scope) (target : Tree.Place) (value : Value) (f : Frame) (m : Machine) :
    Except RunFault (Frame × Machine) :=
  match target with
  | .named name path =>
      match s.local? name.name with
      | some id => Place.store ⟨.localVar id, path⟩ value f m
      | none =>
          match s.globals.register? name.name with
          | some id => Place.store ⟨.register id, path⟩ value f m
          | none => .error (.unknownRegister name.name)
  | .result => Place.store (.whole .result) value f m
  | .exception part => Place.store (.whole (.exception part)) value f m

end Lowering.Scope

/-! ### Functions -/

namespace Reference

/-- A function as its text has it: its body, and what the names in it mean. -/
structure Function where
  scope : Scope
  result : Ty
deriving Repr

namespace Function

def name (f : Function) : String := f.scope.name

def body (f : Function) : List Tree.Stmt := f.scope.decl.body

/-- The function of a declaration. -/
def declare (globals : Globals) (decl : Tree.FunctionDecl) : Except Lowering.Fault Function := do
  let (paramTypes, result) ← globals.signature decl
  let params ← Lowering.declareParams decl.name.name decl.params paramTypes []
  let locals ← Lowering.declareLocals globals decl.name.name decl.body params
  .ok ⟨⟨globals, decl, locals⟩, result⟩

def declareAll (globals : Globals) :
    List Tree.FunctionDecl → Except Lowering.Fault (List Function)
  | [] => .ok []
  | decl :: rest => do
      let first ← declare globals decl
      let rest ← declareAll globals rest
      .ok (first :: rest)

/-- Where a run stops that goes on behind the last statement. -/
def endLocation (f : Function) : String :=
  if f.body.isEmpty then s!"{f.name}: empty body" else s!"{f.name}: fell off the end of the body"

/-- Whether statement `n` jumps on a pending exception. -/
def testsPending (f : Function) (n : Nat) : Bool :=
  match f.body[n]? with
  | some ⟨.jump (.exception .pending _) _ _, _⟩ => true
  | _ => false

/-- Whether statement `n`, which stores `value`, is left on a pending exception. -/
def checksCall (f : Function) (n : Nat) : Tree.Expr → Bool
  | .call callee _ _ =>
      match f.scope.globals.target? callee.name callee.span with
      | .ok (some (.function _ mayRaise)) =>
          mayRaise && f.scope.globals.options.checkCalls && !f.testsPending (n + 1)
      | _ => false
  | _ => false

end Function

/-- A module that is ready to be run. -/
structure Module where
  /-- The declared types and registers; there are no functions in it. -/
  types : Program
  functions : List Function
  /-- How many calls may be under way at once. -/
  maxCallDepth : Nat
deriving Repr

/-- What the reference interpreter makes of a linked module. -/
def Module.ofLinked (m : LinkedModule) (options : Options) (maxCallDepth : Nat) :
    Except Lowering.Fault Module := do
  let (globals, types) ← Lowering.declareGlobals m.tree m.symbols options
  let functions ← Function.declareAll globals m.tree.functions
  .ok ⟨types, functions, maxCallDepth⟩

/-! ### Statements -/

/-- What a statement leads to: another one, or the end of the call. -/
inductive Flow where
  | next (statement : Nat) (frame : Frame) (machine : Machine)
  | left (outcome : Linked.Outcome)

variable (p : Module) (invoke : String → List Value → Machine → Option Linked.Outcome)

/-- The value of a right-hand side. -/
def rightSide (f : Function) (value : Tree.Expr) (frame : Frame) (m : Machine) :
    Option Linked.Outcome :=
  match value with
  | .call callee args span =>
      match f.scope.globals.target? callee.name callee.span with
      | .ok (some (.function _ _)) =>
          match f.scope.evaluateAll p.types frame m args with
          | .error fault => some (.error fault, m)
          | .ok args => invoke callee.name args m
      | .ok (some (.support op)) =>
          match f.scope.evaluateAll p.types frame m args with
          | .error fault => some (.error fault, m)
          | .ok args =>
              match Support.find? op.symbol with
              | some operation => some (operation.call args m)
              | none => some (.error (.unknownSupport op.symbol), m)
      | _ => some (f.scope.evaluate p.types frame m (.call callee args span), m)
  | value => some (f.scope.evaluate p.types frame m value, m)

/-- Stores the value `held` of the right-hand side of statement `n`, and passes an exception on
that the right-hand side has left pending, if it is a checked call. -/
def put (f : Function) (n : Nat) (target : Tree.Place) (value : Tree.Expr) (held : Value)
    (frame : Frame) (m : Machine) : Flow :=
  match f.scope.store target held frame m with
  | .error fault => .left (.error fault, m)
  | .ok (frame, m) =>
      if f.checksCall n value && m.exception.pending then
        .left (p.types.defaultValue f.result, m)
      else .next (n + 1) frame m

/-- Assigns a right-hand side in statement `n`. -/
def assign (f : Function) (n : Nat) (target : Tree.Place) (value : Tree.Expr) (frame : Frame)
    (m : Machine) : Option Flow :=
  match rightSide p invoke f value frame m with
  | none => none
  | some (.error fault, m) => some (.left (.error fault, m))
  | some (.ok held, m) => some (put p f n target value held frame m)

/-- The default value of a type that is written in a body. -/
def defaultOf (f : Function) (type : Tree.TypeExpr) : Except RunFault Value :=
  match f.scope.globals.type type with
  | .ok type => p.types.defaultValue type
  | .error _ => .error (.unreachable f.name)

/-- Performs statement `n`. -/
def perform (f : Function) (n : Nat) (kind : Tree.StmtKind) (frame : Frame) (m : Machine) :
    Option Flow :=
  match kind with
  | .declare name type init =>
      match defaultOf p f type with
      | .error fault => some (.left (.error fault, m))
      | .ok value =>
          match f.scope.store (.named name []) value frame m with
          | .error fault => some (.left (.error fault, m))
          | .ok (frame, m) =>
              match init with
              | none => some (.next (n + 1) frame m)
              | some init => assign p invoke f n (.named name []) init frame m
  | .assign target value => assign p invoke f n target value frame m
  | .jump cond target _ =>
      match f.scope.evaluate p.types frame m cond >>= Value.asBool with
      | .error fault => some (.left (.error fault, m))
      | .ok holds => some (.next (if holds then target else n + 1) frame m)
  | .goto target => some (.next target frame m)
  | .finish => some (.left (.ok frame.result, m))
  | .arbitrary => some (.left (p.types.defaultValue f.result, m))
  | .unreachable => some (.left (.error (.unreachable s!"{f.name}: statement {n}"), m))

/-! ### Calls -/

/-- The frame of a call, with its parameters bound and all else at its default. -/
def frame (f : Function) (args : List Value) : Except RunFault Frame := do
  let locals ← p.types.defaultValues (f.scope.locals.map (·.type))
  let result ← p.types.defaultValue f.result
  let params := (List.range f.scope.decl.params.length).map LocalId.mk
  let locals ← Linked.bindParams params args locals
  .ok ⟨locals, result⟩

/-- The start of a call while `depth` others are under way. -/
def enter (depth : Nat) (name : String) (args : List Value) :
    Except RunFault (Function × Frame) :=
  match p.functions.find? fun f => f.name == name with
  | none => .error (.unknownFunction name)
  | some f =>
      if args.length ≠ f.scope.decl.params.length then
        .error (.arityMismatch f.name f.scope.decl.params.length args.length)
      else if p.maxCallDepth ≤ depth then .error (.callDepthExceeded p.maxCallDepth)
      else do
        let frame ← frame p f args
        .ok (f, frame)

/-- Goes on with statement `n` of the last of `depth` calls. Every statement and every call in it
has the fuel that is left; there is no outcome if that does not do. -/
def run : (fuel : Nat) → (depth : Nat) → Function → (n : Nat) → Frame → Machine →
    Option Linked.Outcome
  | 0, _, _, _, _, _ => none
  | fuel + 1, depth, f, n, frame, m =>
      match f.body[n]? with
      | none => some (.error (.unreachable f.endLocation), m)
      | some stmt =>
          let invoke := fun name args m =>
            match enter p depth name args with
            | .error fault => some (.error fault, m)
            | .ok (callee, frame) => run fuel (depth + 1) callee 0 frame m
          match perform p invoke f n stmt.kind frame m with
          | none => none
          | some (.left outcome) => some outcome
          | some (.next n frame m) => run fuel depth f n frame m

/-- Calls a function while `depth` calls are under way. -/
def call (fuel depth : Nat) (name : String) (args : List Value) (m : Machine) :
    Option Linked.Outcome :=
  match enter p depth name args with
  | .error fault => some (.error fault, m)
  | .ok (f, frame) => run p fuel (depth + 1) f 0 frame m

end Reference

end JumpIR
