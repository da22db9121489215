import JumpIR.Tree.Cursor

/-!
# Reading types

    Type     = "%" BaseType | "(" [ Type { "," Type } ] ")" [ "->" Type ]
    BaseType = "unit" | "bool" | "i" | "i64" | "bit" | "string" | "bv" | "bv" Digits
             | "enum" Identifier | "union" Identifier

One type in parentheses, without an arrow behind it, is that type; none is the unit type.
-/

set_option autoImplicit false

namespace JumpIR.Tree

/-- The number that a text of decimal digits writes; a text with anything else writes none. No sign
is taken, since none stands in an identifier. -/
def decimalText? (cs : List Char) : Option Nat :=
  if cs ≠ [] ∧ cs.all Char.isDigit then
    some (cs.foldl (fun n c => n * 10 + (c.toNat - '0'.toNat)) 0)
  else none

/-- The base type of a name. Bitvectors have one to 64 bits. -/
def BaseType.ofName? (name : String) : Option BaseType :=
  if name = "unit" then some .unit
  else if name = "bool" then some .bool
  else if name = "i" then some .int
  else if name = "i64" then some .int64
  else if name = "bit" then some .bit
  else if name = "string" then some .string
  else if name = "bv" then some (.bits none)
  else
    match name.toList with
    | 'b' :: 'v' :: digits =>
        match decimalText? digits with
        | some width => if 1 ≤ width ∧ width ≤ 64 then some (.bits (some width)) else none
        | none => none
    | _ => none

namespace TypeExpr

open JumpIR.Parser

/-- What a percent sign introduces; `start` is its region. -/
def afterPercent (start : Span) : Parser TypeExpr := do
  let c ← here
  match c.kind with
  | .keyword .enumDecl =>
      advance
      let name ← identifier
      return .named .enum name none (← spanFrom start)
  | .keyword .unionDecl =>
      advance
      let name ← identifier
      return .named .union name none (← spanFrom start)
  | .ident name =>
      advance
      match BaseType.ofName? name with
      | some type => return .base type (← spanFrom start)
      | none => fail (.unknownType name) c.current.span
  | found => fail (.expectedType found) c.current.span

/-- A type whose nesting takes at most `levels` tokens. -/
def parseWithin : (levels : Nat) → Parser TypeExpr
  | 0 => do
      let c ← here
      fail (.expectedType c.kind) c.current.span
  | levels + 1 => do
      let start := (← here).current.span
      if ← eat (.mark .openParen) then
        let items ← commaSeparated (.mark .closeParen) (parseWithin levels)
        expect (.mark .closeParen)
        if ← eat (.mark .arrow) then
          let result ← parseWithin levels
          return .function items result (← spanFrom start)
        match items with
        | [] => return .base .unit (← spanFrom start)
        | [item] => return item
        | _ => return .tuple items (← spanFrom start)
      else
        expect (.mark .percent)
        afterPercent start

/-- A type. Each level of nesting takes a token, so the rest of the list bounds them. -/
def parse : Parser TypeExpr := do
  let c ← here
  parseWithin (c.budget + 1)

end TypeExpr

end JumpIR.Tree
