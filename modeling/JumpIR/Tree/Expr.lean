import JumpIR.Tree.Type

/-!
# Reading expressions

    Expr    = Atom { Postfix }
    Postfix = "." Field | "is" Identifier | "as" Identifier
    Atom    = Int | Bits | String | "true" | "false" | "(" ")" | "(" Expr ")"
            | "@" Identifier Args | Identifier [ Args ]
            | "have_exception" | "current_exception" | "throw_location"
    Args    = "(" [ Expr { "," Expr } ] ")"

Arguments and parentheses nest at most 64 levels deep.
-/

set_option autoImplicit false

namespace JumpIR.Tree.Expr

open JumpIR.Parser

/-- The tuple field that an identifier names: `ztup` with its number behind. -/
def fieldOfName? (name : String) : Option Nat :=
  match name.toList with
  | 'z' :: 't' :: 'u' :: 'p' :: digits => do
      let n ← decimalText? digits
      if n < UInt32.size then some n else none
  | _ => none

/-- A tuple field behind a dot, by number or by name. -/
def fieldIndex : Parser Nat := do
  let c ← here
  match c.kind with
  | .int n =>
      if 0 ≤ n.toInt ∧ n.toInt < UInt32.size then
        advance
        return n.toInt.toNat
      else fail (.expectedField (.int n)) c.current.span
  | .ident spelling =>
      match fieldOfName? spelling with
      | some n =>
          advance
          return n
      | none => fail (.notAField spelling) c.current.span
  | found => fail (.expectedField found) c.current.span

/-- The postfix forms behind `value`. -/
def postfixes : (budget : Nat) → Expr → Parser Expr
  | 0, value => pure value
  | budget + 1, value => do
      let c ← here
      match c.kind with
      | .mark .dot =>
          advance
          let index ← fieldIndex
          postfixes budget (.field value index (← spanFrom value.span))
      | .keyword .isNot =>
          advance
          let variant ← identifier
          postfixes budget (.isNot value variant (← spanFrom value.span))
      | .keyword .project =>
          advance
          let variant ← identifier
          postfixes budget (.project value variant (← spanFrom value.span))
      | _ => return value

def args (item : Parser Expr) : Parser (List Expr) := do
  expect (.mark .openParen)
  let list ← commaSeparated (.mark .closeParen) item
  expect (.mark .closeParen)
  return list

/-- An atom of one token that needs no other one. -/
def literalAtom? : TokenKind → Option (Span → Expr)
  | .int n => some (.literal (.int n))
  | .bits width value => some (.literal (.bits width value))
  | .text s => some (.literal (.string s))
  | .keyword .true => some (.literal (.bool true))
  | .keyword .false => some (.literal (.bool false))
  | .keyword .haveException => some (.exception .pending)
  | .keyword .currentException => some (.exception .thrown)
  | .keyword .throwLocation => some (.exception .location)
  | _ => none

/-- An atom whose parts are read by `inner`. -/
def atom (inner : Parser Expr) : Parser Expr := do
  let c ← here
  let start := c.current.span
  match literalAtom? c.kind with
  | some make =>
      advance
      return make (← spanFrom start)
  | none =>
      match c.kind with
      | .mark .openParen =>
          advance
          if ← eat (.mark .closeParen) then return .literal .unit (← spanFrom start)
          let value ← inner
          expect (.mark .closeParen)
          return value.withSpan (← spanFrom start)
      | .mark .atSign =>
          advance
          let op ← identifier
          let list ← args inner
          return .prim op list (← spanFrom start)
      | .ident _ =>
          let head ← identifier
          if (← here).kind = .mark .openParen then
            let list ← args inner
            return .call head list (← spanFrom start)
          return .name head (← spanFrom start)
      | found => fail (.expectedExpression found) start

/-- An expression that may hold `levels` further levels of arguments and parentheses, less one for
itself. -/
def parseWithin : (levels : Nat) → Parser Expr
  | 0 => do
      let c ← here
      fail .expressionTooDeep c.current.span
  | levels + 1 => do
      let value ← atom (parseWithin levels)
      let c ← here
      postfixes c.budget value

def parse : Parser Expr := parseWithin (maxExprDepth + 1)

end JumpIR.Tree.Expr
