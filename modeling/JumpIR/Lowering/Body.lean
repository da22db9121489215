import JumpIR.Lowering.Operand

/-!
# Bodies as graphs

A body is cut at its leaders: the first statement, every target of a jump, and every statement
behind one that ends its block. Each leader starts one block. Other blocks come in between: what
follows a call whose exceptions are passed on, the exit taken then, and the trap behind the end of
the body. Main function: `lowerFunction`.
-/

set_option autoImplicit false

namespace JumpIR.Lowering

/-! ### Locals -/

/-- Adds a local unless it is there already, which needs the same type. -/
def declareLocal (function : String) (locals : List LocalDef) (name : Tree.Ident) (type : Ty) :
    Except Fault (List LocalDef) :=
  match locals.find? fun l => l.name == name.name with
  | none => .ok (locals ++ [⟨name.name, type⟩])
  | some found =>
      if found.type = type then .ok locals
      else .error (.conflictingLocal function name.name name.span)

def declareParams (function : String) :
    List Tree.Ident → List Ty → List LocalDef → Except Fault (List LocalDef)
  | name :: names, type :: types, locals => do
      let locals ← declareLocal function locals name type
      declareParams function names types locals
  | _, _, locals => .ok locals

def declareLocals (globals : Globals) (function : String) :
    List Tree.Stmt → List LocalDef → Except Fault (List LocalDef)
  | [], locals => .ok locals
  | stmt :: rest, locals =>
      match stmt.kind with
      | .declare name type _ => do
          let type ← globals.type type
          let locals ← declareLocal function locals name type
          declareLocals globals function rest locals
      | _ => declareLocals globals function rest locals

/-! ### Leaders -/

def jumpTarget? : Tree.StmtKind → Option Nat
  | .jump _ target _ => some target
  | .goto target => some target
  | _ => none

/-- Refuses the first jump that leaves the body. -/
def checkTargets (function : String) (size : Nat) : List Tree.Stmt → Except Fault Unit
  | [] => .ok ()
  | stmt :: rest =>
      match jumpTarget? stmt.kind with
      | some target =>
          if target < size then checkTargets function size rest
          else .error (.jumpOutOfRange function target size stmt.span)
      | none => checkTargets function size rest

/-- Whether statement `index` of a body starts a block. -/
def isLeader (body : List Tree.Stmt) (index : Nat) : Bool :=
  index == 0
    || body.any (fun stmt => jumpTarget? stmt.kind == some index)
    || (body[index - 1]?.map fun stmt => stmt.kind.endsBlock).getD false

def leaders (body : List Tree.Stmt) : List Nat :=
  (List.range body.length).filter (isLeader body)

/-! ### The graph under construction -/

structure Graph where
  blocks : Array Block
  /-- The block that takes the next operation; none right behind a terminator. -/
  current : Option BlockId
  /-- The block that passes a pending exception on. -/
  propagate : Option BlockId
  /-- The trap behind the end of the body. -/
  fallOff : Option BlockId
  /-- The support operations used so far, in this body and the ones before it. -/
  supports : List SupportDef
deriving Repr

namespace Graph

def addBlock (g : Graph) (origin : Option Nat) (terminator : Terminator) : BlockId × Graph :=
  (⟨g.blocks.size⟩, { g with blocks := g.blocks.push ⟨origin, [], terminator⟩ })

def setTerminator (g : Graph) (id : BlockId) (terminator : Terminator) : Graph :=
  { g with blocks := g.blocks.modify id.index fun b => { b with terminator := terminator } }

def addOp (g : Graph) (id : BlockId) (op : Op) : Graph :=
  { g with blocks := g.blocks.modify id.index fun b => { b with ops := b.ops ++ [op] } }

/-- The block that leaves the function by its exceptional exit. -/
def propagateBlock (g : Graph) : BlockId × Graph :=
  match g.propagate with
  | some id => (id, g)
  | none =>
      let (id, g) := g.addBlock none .arbitrary
      (id, { g with propagate := some id })

/-- The number of a support operation, which is listed at its first use. -/
def intern (g : Graph) (op : SupportDef) : SupportId × Graph :=
  match g.supports.findIdx? fun known => known.name == op.name with
  | some index => (⟨index⟩, g)
  | none => (⟨g.supports.length⟩, { g with supports := g.supports ++ [op] })

end Graph

def Graph.ofLeaders (list : List Nat) (supports : List SupportDef) : Graph :=
  ⟨(list.map fun leader => ⟨some leader, [], .unreachable ""⟩).toArray, none, none, none, supports⟩

structure Body where
  scope : Scope
  /-- The statements that start a block; block `i` starts with the `i`-th of them. -/
  leaders : List Nat
deriving Repr

namespace Body

def stmt? (b : Body) (index : Nat) : Option Tree.Stmt := b.scope.decl.body[index]?

def size (b : Body) : Nat := b.scope.decl.body.length

/-- The block that statement `index` starts. -/
def leaderBlock? (b : Body) (index : Nat) : Option BlockId :=
  (b.leaders.findIdx? fun leader => leader == index).map BlockId.mk

def blockOf (b : Body) (index : Nat) : Except Fault BlockId :=
  match b.leaderBlock? index with
  | some id => .ok id
  | none => .error (.internal b.scope.name (.notALeader index))

def fellOff (b : Body) : Terminator :=
  .unreachable s!"{b.scope.name}: fell off the end of the body"

def fallOffBlock (b : Body) (g : Graph) : BlockId × Graph :=
  match g.fallOff with
  | some id => (id, g)
  | none =>
      let (id, g) := g.addBlock none b.fellOff
      (id, { g with fallOff := some id })

def pushOp (b : Body) (op : Op) (g : Graph) : Except Fault Graph :=
  match g.current with
  | some id => .ok (g.addOp id op)
  | none => .error (.internal b.scope.name .noOpenBlock)

def terminate (b : Body) (terminator : Terminator) (g : Graph) : Except Fault Graph :=
  match g.current with
  | some id => .ok { g.setTerminator id terminator with current := none }
  | none => .error (.internal b.scope.name .noOpenBlock)

/-- Whether statement `index` jumps on a pending exception. -/
def testsFlag (b : Body) (index : Nat) : Bool :=
  match b.stmt? index with
  | some ⟨.jump (.exception .pending _) _ _, _⟩ => true
  | _ => false

/-- Leaves the function if an exception is pending, and goes on in a block of its own. -/
def passOn (b : Body) (g : Graph) : Except Fault Graph := do
  let (exit, g) := g.propagateBlock
  let (next, g) := g.addBlock none (.unreachable "")
  let g ← b.terminate (.branch (.exception .pending) exit next) g
  .ok { g with current := some next }

def call (b : Body) (dest : Place) (callee : Callee) (args : List Tree.Expr) (g : Graph) :
    Except Fault Graph := do
  let items ← b.scope.operands args
  b.pushOp (.call (some dest) callee items) g

def assign (b : Body) (index : Nat) (dest : Place) (value : Tree.Expr) (g : Graph) :
    Except Fault Graph :=
  match value with
  | .call callee args span => do
      match ← b.scope.globals.target? callee.name callee.span with
      | some (.constructor union tag) => do
          let items ← b.scope.operands args
          b.pushOp (.assign dest (Scope.construct union tag items)) g
      | some (.support op) => do
          let (id, g) := g.intern op
          if op.params.length = args.length then b.call dest (.support id) args g
          else
            .error (.unsupported (.argumentCount callee.name op.params.length args.length) span)
      | some (.function id mayRaise) => do
          let g ← b.call dest (.function id) args g
          if mayRaise && b.scope.globals.options.checkCalls && !b.testsFlag (index + 1) then
            b.passOn g
          else .ok g
      | none => .error (b.scope.unresolved callee)
  | value => do
      let value ← b.scope.operand value
      b.pushOp (.assign dest value) g

def openBlock (b : Body) (index : Nat) (g : Graph) : Graph :=
  match b.leaderBlock? index with
  | none => g
  | some leader =>
      match g.current with
      | some id => { g.setTerminator id (.goto leader) with current := some leader }
      | none => { g with current := some leader }

def statement (b : Body) (index : Nat) (stmt : Tree.Stmt) (g : Graph) : Except Fault Graph :=
  match stmt.kind with
  | .declare name _ init =>
      match b.scope.local? name.name with
      | none => .error (.internal b.scope.name (.undeclaredLocal name.name))
      | some id => do
          let g ← b.pushOp (.declare id) g
          match init with
          | none => .ok g
          | some value => b.assign index (.whole (.localVar id)) value g
  | .assign target value => do
      let dest ← b.scope.place target
      b.assign index dest value g
  | .jump cond target _ => do
      let cond ← b.scope.operand cond
      let thenBlock ← b.blockOf target
      if index + 1 < b.size then
        let elseBlock ← b.blockOf (index + 1)
        b.terminate (.branch cond thenBlock elseBlock) g
      else
        let (elseBlock, g) := b.fallOffBlock g
        b.terminate (.branch cond thenBlock elseBlock) g
  | .goto target => do
      let id ← b.blockOf target
      b.terminate (.goto id) g
  | .finish => b.terminate .ret g
  | .arbitrary => b.terminate .arbitrary g
  | .unreachable => b.terminate (.unreachable s!"{b.scope.name}: statement {index}") g

def statements (b : Body) : Nat → List Tree.Stmt → Graph → Except Fault Graph
  | _, [], g => .ok g
  | index, stmt :: rest, g => do
      let g ← b.statement index stmt (b.openBlock index g)
      statements b (index + 1) rest g

/-- Closes the block that is open behind the last statement. -/
def close (b : Body) (g : Graph) : Graph :=
  match g.current with
  | some id => { g.setTerminator id b.fellOff with current := none }
  | none => g

def graph (b : Body) (supports : List SupportDef) : Except Fault Graph := do
  checkTargets b.scope.name b.size b.scope.decl.body
  let g ← b.statements 0 b.scope.decl.body (.ofLeaders b.leaders supports)
  .ok (b.close g)

end Body

def lowerBody (scope : Scope) (supports : List SupportDef) :
    Except Fault (List Block × List SupportDef) :=
  if scope.decl.body.isEmpty then
    .ok ([⟨none, [], .unreachable s!"{scope.name}: empty body"⟩], supports)
  else do
    let g ← Body.graph ⟨scope, leaders scope.decl.body⟩ supports
    .ok (g.blocks.toList, g.supports)

def lowerFunction (globals : Globals) (f : Tree.FunctionDecl) (supports : List SupportDef) :
    Except Fault (FunctionDef × List SupportDef) := do
  let (paramTypes, result) ← globals.signature f
  let params ← declareParams f.name.name f.params paramTypes []
  let locals ← declareLocals globals f.name.name f.body params
  let (blocks, supports) ← lowerBody ⟨globals, f, locals⟩ supports
  .ok (⟨f.name.name, (List.range f.params.length).map LocalId.mk, locals, result, blocks, ⟨0⟩,
    globals.mayRaise f.name.name⟩, supports)

end JumpIR.Lowering
