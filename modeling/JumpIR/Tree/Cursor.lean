import JumpIR.Token
import JumpIR.Diagnostic
import JumpIR.Tree.Basic

/-!
# Reading a token list

A cursor stands on a token and never leaves the last one. A parser is a function on cursors that
gives a result, or none once it has reported why. The combinators here take one token, or the items
of a list, or resume behind a fault.
-/

set_option autoImplicit false

namespace JumpIR

inductive ParseFault where
  | expectedToken (expected found : TokenKind)
  | expectedIdentifier (found : TokenKind)
  | expectedString (found : TokenKind)
  /-- `what` is a jump target or a goto target. -/
  | expectedIndex (what : String) (found : TokenKind)
  | expectedType (found : TokenKind)
  | unknownType (name : String)
  | expectedExpression (found : TokenKind)
  | expressionTooDeep
  | expectedField (found : TokenKind)
  | notAField (name : String)
  | expectedStatement (found : TokenKind)
  | expectedDeclaration (found : TokenKind)
  | unclosed (owner : String) (found : TokenKind)
  | noVariants (sort owner : String)
deriving DecidableEq, Repr

/-- How deeply call arguments and parentheses may nest. -/
def maxExprDepth : Nat := 64

instance : Cause ParseFault where
  code
    | .unclosed _ _ => Code.unclosedBrace
    | _ => Code.unexpectedToken
  message
    | .expectedToken expected found => s!"expected '{expected.display}', got '{found.display}'"
    | .expectedIdentifier found => s!"expected identifier, got '{found.display}'"
    | .expectedString found => s!"expected string literal, got '{found.display}'"
    | .expectedIndex what found => s!"expected {what}, got '{found.display}'"
    | .expectedType found => s!"expected type name after '%', got '{found.display}'"
    | .unknownType name => s!"unknown type '%{name}'"
    | .expectedExpression found => s!"expected expression, got '{found.display}'"
    | .expressionTooDeep => s!"expression nesting exceeds {maxExprDepth} levels"
    | .expectedField found => s!"expected tuple field, got '{found.display}'"
    | .notAField name => s!"'{name}' is not a tuple field"
    | .expectedStatement found => s!"expected statement, got '{found.display}'"
    | .expectedDeclaration found =>
        s!"expected 'enum', 'union', 'val', 'fn' or 'register', got '{found.display}'"
    | .unclosed owner found => s!"expected '\x7d' to close '{owner}', got '{found.display}'"
    | .noVariants sort owner => s!"{sort} '{owner}' has no variants"

/-- A place in a token list, what was read before it, and the faults met so far. -/
structure Cursor where
  current : Token
  rest : List Token
  /-- The region of the token before `current`. -/
  previous : Span
  reports : List (Report ParseFault)
deriving Repr

namespace Cursor

/-- The start of a token list, which is closed by an `endOfFile` if it is not yet. -/
def ofTokens (tokens : List Token) : Cursor :=
  let closed := match tokens.getLast? with
    | none => [⟨.endOfFile, .point .origin⟩]
    | some last =>
        if last.kind = .endOfFile then tokens else tokens ++ [⟨.endOfFile, last.span⟩]
  match closed with
  | [] => ⟨⟨.endOfFile, .point .origin⟩, [], .point .origin, []⟩
  | first :: rest => ⟨first, rest, .point .origin, []⟩

/-- The cursor one token further, or the same one on the last token. -/
def advance (c : Cursor) : Cursor :=
  match c.rest with
  | [] => c
  | next :: rest => { c with current := next, rest := rest, previous := c.current.span }

def kind (c : Cursor) : TokenKind := c.current.kind

def atEnd (c : Cursor) : Bool := c.kind = .endOfFile

/-- The token after the current one. -/
def nextKind (c : Cursor) : TokenKind :=
  match c.rest with
  | [] => .endOfFile
  | next :: _ => next.kind

def report (c : Cursor) (cause : ParseFault) (span : Span) : Cursor :=
  { c with reports := c.reports ++ [⟨cause, span⟩] }

/-- Whether so many faults were met that parsing stops. -/
def isSaturated (c : Cursor) : Bool := c.reports.length ≥ Diagnostics.limit

/-- A bound on the tokens that can still be taken, for loops that take one in each round. -/
def budget (c : Cursor) : Nat := c.rest.length + 1

/-! ### Resuming behind a fault -/

/-- The next token that stands behind a semicolon, closes a body or starts a declaration. -/
def skipStatement : (budget : Nat) → Cursor → Cursor
  | 0, c => c
  | budget + 1, c =>
      if c.atEnd then c
      else if c.kind = .mark .semicolon then c.advance
      else if c.kind = .mark .closeBrace ∨ c.kind.startsDecl then c
      else skipStatement budget c.advance

/-- The next token that starts a declaration. -/
def skipToDecl : (budget : Nat) → Cursor → Cursor
  | 0, c => c
  | budget + 1, c =>
      if c.atEnd ∨ c.kind.startsDecl then c else skipToDecl budget c.advance

end Cursor

/-- A reader of part of a token list. Without a result it has reported at least one fault. -/
def Parser (α : Type) : Type := Cursor → Option α × Cursor

namespace Parser

def run {α : Type} (p : Parser α) (c : Cursor) : Option α × Cursor := p c

instance : Monad Parser where
  pure a := fun c => (some a, c)
  bind p f := fun c =>
    match p c with
    | (some a, c) => f a c
    | (none, c) => (none, c)

def here : Parser Cursor := fun c => (some c, c)

/-- The region from `start` to the last token taken. -/
def spanFrom (start : Span) : Parser Span := fun c => (some (start.cover c.previous), c)

def fail {α : Type} (cause : ParseFault) (span : Span) : Parser α := fun c =>
  (none, c.report cause span)

def warn (cause : ParseFault) (span : Span) : Parser Unit := fun c =>
  (some (), c.report cause span)

def advance : Parser Unit := fun c => (some (), c.advance)

/-- Takes the current token if it is of that kind. -/
def eat (kind : TokenKind) : Parser Bool := fun c =>
  if c.kind = kind then (some true, c.advance) else (some false, c)

def expect (kind : TokenKind) : Parser Unit := fun c =>
  if c.kind = kind then (some (), c.advance)
  else (none, c.report (.expectedToken kind c.kind) c.current.span)

def identifier : Parser Tree.Ident := fun c =>
  match c.kind with
  | .ident name => (some ⟨name, c.current.span⟩, c.advance)
  | found => (none, c.report (.expectedIdentifier found) c.current.span)

def string : Parser String := fun c =>
  match c.kind with
  | .text s => (some s, c.advance)
  | found => (none, c.report (.expectedString found) c.current.span)

/-- An integer that is not negative; `what` says what it is for. -/
def index (what : String) : Parser Nat := fun c =>
  match c.kind with
  | .int n =>
      if 0 ≤ n.toInt then (some n.toInt.toNat, c.advance)
      else (none, c.report (.expectedIndex what (.int n)) c.current.span)
  | found => (none, c.report (.expectedIndex what found) c.current.span)

/-- Items up to a closing mark, which is not taken, with a comma after each one but for the last,
where it may be left out. -/
def commaList {α : Type} (closing : TokenKind) (item : Parser α) :
    (budget : Nat) → Parser (List α)
  | 0 => pure []
  | budget + 1 => do
      let c ← here
      if c.kind = closing ∨ c.atEnd then return []
      let first ← item
      if ← eat (.mark .comma) then
        let others ← commaList closing item budget
        return first :: others
      else return [first]

/-- As many comma-separated items as the rest of the token list may hold. -/
def commaSeparated {α : Type} (closing : TokenKind) (item : Parser α) : Parser (List α) := do
  let c ← here
  commaList closing item c.budget

end Parser

end JumpIR
