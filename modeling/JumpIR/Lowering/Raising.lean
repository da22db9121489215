import JumpIR.Tree.Basic

/-!
# Which functions may raise

A function may raise if its body sets the pending flag to true, or mentions a call of a function
that may raise. The names are found by adding callers until there are no more to add, so functions
that only call each other stay out. Main function: `Module.raising`.
-/

set_option autoImplicit false

namespace JumpIR.Tree

/-- Whether a statement sets the pending flag to true by itself. -/
def Stmt.raises (s : Stmt) : Bool :=
  match s.kind with
  | .assign (.exception .pending) (.literal (.bool true) _) => true
  | _ => false

mutual

/-- The names that an expression calls, at any depth. -/
def Expr.calls : Expr → List String
  | .call callee args _ => callee.name :: Expr.allCalls args
  | .prim _ args _ => Expr.allCalls args
  | .isNot value _ _ => value.calls
  | .project value _ _ => value.calls
  | .field value _ _ => value.calls
  | .name _ _ => []
  | .literal _ _ => []
  | .exception _ _ => []

def Expr.allCalls : List Expr → List String
  | [] => []
  | e :: rest => e.calls ++ Expr.allCalls rest

end

def Stmt.calls (s : Stmt) : List String :=
  match s.kind with
  | .declare _ _ (some init) => init.calls
  | .assign _ value => value.calls
  | .jump cond _ _ => cond.calls
  | _ => []

namespace FunctionDecl

def raises (f : FunctionDecl) : Bool := f.body.any Stmt.raises

def calls (f : FunctionDecl) : List String := f.body.flatMap Stmt.calls

end FunctionDecl

namespace Module

/-- The names that the last body of that name calls. -/
def callsOf (m : Module) (name : String) : List String :=
  match m.functions.reverse.find? fun f => f.name.name == name with
  | some f => f.calls
  | none => []

/-- The functions that are not in `known` and call one that is. -/
def newlyRaising (m : Module) (known : List String) : List String :=
  (m.functions.map (·.name.name)).filter fun name =>
    !known.contains name && (m.callsOf name).any known.contains

/-- Adds callers for at most that many rounds, or until a round adds none. -/
def raisingWithin (m : Module) : (rounds : Nat) → List String → List String
  | 0, known => known
  | rounds + 1, known =>
      match m.newlyRaising known with
      | [] => known
      | fresh => raisingWithin m rounds (known ++ fresh)

/-- The names of the functions that may raise. Every round but the last adds a function, so there
are no more rounds than functions. -/
def raising (m : Module) : List String :=
  m.raisingWithin m.functions.length ((m.functions.filter FunctionDecl.raises).map (·.name.name))

end Module

end JumpIR.Tree
