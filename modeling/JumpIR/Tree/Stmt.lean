import JumpIR.Tree.Expr

/-!
# Reading statements

    Stmt  = Identifier ":" Type [ "=" Expr ] ";"
          | Place "=" Expr ";"
          | "jump" Expr "goto" Int [ "`" String ] ";"
          | "goto" Int ";"
          | "end" ";" | "arbitrary" ";" | "unreachable" ";"
    Place = "return" | "current_exception" | "have_exception" | "throw_location"
          | Identifier { "." Field }
-/

set_option autoImplicit false

namespace JumpIR.Tree

open JumpIR.Parser

/-- The tuple fields behind a name. -/
def Place.fields : (budget : Nat) → Parser (List Nat)
  | 0 => pure []
  | budget + 1 => do
      if ← eat (.mark .dot) then
        let index ← Expr.fieldIndex
        let others ← Place.fields budget
        return index :: others
      else return []

def Place.parse : Parser Place := do
  let c ← here
  match c.kind with
  | .keyword .result =>
      advance
      return .result
  | .keyword .currentException =>
      advance
      return .exception .thrown
  | .keyword .haveException =>
      advance
      return .exception .pending
  | .keyword .throwLocation =>
      advance
      return .exception .location
  | .ident _ =>
      let name ← identifier
      return .named name (← Place.fields c.budget)
  | found => fail (.expectedStatement found) c.current.span

namespace Stmt

def declare : Parser StmtKind := do
  let name ← identifier
  advance
  let type ← TypeExpr.parse
  if ← eat (.mark .equals) then
    let value ← Expr.parse
    return .declare name type (some value)
  else return .declare name type none

/-- A conditional jump behind its first word, up to its semicolon. -/
def jump : Parser StmtKind := do
  let cond ← Expr.parse
  expect (.keyword .goto)
  let target ← index "jump target"
  if ← eat (.mark .backtick) then
    let location ← string
    return .jump cond target (some location)
  else return .jump cond target none

def assign : Parser StmtKind := do
  let target ← Place.parse
  expect (.mark .equals)
  let value ← Expr.parse
  return .assign target value

def body : Parser StmtKind := do
  let c ← here
  match c.kind with
  | .keyword .jump =>
      advance
      jump
  | .keyword .goto =>
      advance
      return .goto (← index "goto target")
  | .keyword .finish =>
      advance
      return .finish
  | .keyword .arbitrary =>
      advance
      return .arbitrary
  | .keyword .unreachable =>
      advance
      return .unreachable
  | .ident _ => if c.nextKind = .mark .colon then declare else assign
  | _ => assign

def parse : Parser Stmt := do
  let start := (← here).current.span
  let kind ← body
  expect (.mark .semicolon)
  return ⟨kind, ← spanFrom start⟩

end Stmt

end JumpIR.Tree
