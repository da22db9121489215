import JumpIR.Token.Scan
import JumpIR.Tree.Stmt

/-!
# Reading modules

    Module = { Decl }
    Decl   = "enum" Identifier "{" Identifier { "," Identifier } "}"
           | "union" Identifier "{" Identifier ":" Type { "," Identifier ":" Type } "}"
           | "val" Identifier [ "=" String ] ":" Type
           | "fn" Identifier "(" [ Identifier { "," Identifier } ] ")" "{" { Stmt } "}"
           | "register" Identifier ":" Type

After a fault in a statement reading goes on behind the next semicolon of the body, and after one
in a declaration at the next word that starts a declaration. Main functions: `Module.ofTokens` and
`Module.ofSource`.
-/

set_option autoImplicit false

namespace JumpIR.Tree

open JumpIR.Parser

/-- The brace that closes the body of `owner`. -/
def closeBody (owner : Ident) : Parser Unit := fun c =>
  if c.kind = .mark .closeBrace then (some (), c.advance)
  else (none, c.report (.unclosed owner.name c.kind) c.current.span)

namespace Decl

/-! Each reader here begins on the word that starts the declaration. -/

def parseEnum : Parser Decl := do
  let start := (← here).current.span
  advance
  let name ← identifier
  expect (.mark .openBrace)
  let variants ← commaSeparated (.mark .closeBrace) identifier
  closeBody name
  if variants.isEmpty then warn (.noVariants "enum" name.name) name.span
  return .enum ⟨name, variants, ← spanFrom start⟩

def parseVariant : Parser UnionVariant := do
  let name ← identifier
  expect (.mark .colon)
  let payload ← TypeExpr.parse
  return ⟨name, payload⟩

def parseUnion : Parser Decl := do
  let start := (← here).current.span
  advance
  let name ← identifier
  expect (.mark .openBrace)
  let variants ← commaSeparated (.mark .closeBrace) parseVariant
  closeBody name
  if variants.isEmpty then warn (.noVariants "union" name.name) name.span
  return .union ⟨name, variants, ← spanFrom start⟩

def parseBinding : Parser (Option String) := do
  if ← eat (.mark .equals) then return some (← string) else return none

def parseValue : Parser Decl := do
  let start := (← here).current.span
  advance
  let name ← identifier
  let binding ← parseBinding
  expect (.mark .colon)
  let type ← TypeExpr.parse
  return .value ⟨name, binding, type, ← spanFrom start⟩

def parseRegister : Parser Decl := do
  let start := (← here).current.span
  advance
  let name ← identifier
  expect (.mark .colon)
  let type ← TypeExpr.parse
  return .register ⟨name, type, ← spanFrom start⟩

/-- The statements of a body up to its closing brace, which is not taken. A statement with a fault
is left out; a word that starts a declaration ends the body. -/
def statements : (budget : Nat) → Cursor → List Stmt × Cursor
  | 0, c => ([], c)
  | budget + 1, c =>
      if c.kind = .mark .closeBrace ∨ c.atEnd ∨ c.isSaturated then ([], c)
      else
        match Stmt.parse c with
        | (some stmt, next) =>
            if next.kind.startsDecl then ([stmt], next)
            else
              let (others, last) := statements budget next
              (stmt :: others, last)
        | (none, failed) =>
            let next := failed.skipStatement failed.budget
            if next.kind.startsDecl then ([], next) else statements budget next

def parseStatements : Parser (List Stmt) := fun c =>
  let (list, next) := statements c.budget c
  (some list, next)

def parseFunction : Parser Decl := do
  let start := (← here).current.span
  advance
  let name ← identifier
  expect (.mark .openParen)
  let params ← commaSeparated (.mark .closeParen) identifier
  expect (.mark .closeParen)
  expect (.mark .openBrace)
  let body ← parseStatements
  closeBody name
  return .function ⟨name, params, body, ← spanFrom start⟩

/-- The reader of the declaration that begins with a word, if one does. -/
def parser? : TokenKind → Option (Parser Decl)
  | .keyword .enumDecl => some parseEnum
  | .keyword .unionDecl => some parseUnion
  | .keyword .valDecl => some parseValue
  | .keyword .fnDecl => some parseFunction
  | .keyword .registerDecl => some parseRegister
  | _ => none

end Decl

namespace Module

/-- The declarations up to the end of the list or until the list of faults is full. One with a
fault is left out. -/
def declarations : (budget : Nat) → Cursor → List Decl × Cursor
  | 0, c => ([], c)
  | budget + 1, c =>
      if c.atEnd ∨ c.isSaturated then ([], c)
      else
        match Decl.parser? c.kind with
        | none =>
            let reported := (c.report (.expectedDeclaration c.kind) c.current.span).advance
            declarations budget (reported.skipToDecl reported.budget)
        | some parser =>
            match parser c with
            | (some decl, next) =>
                let (others, last) := declarations budget next
                (decl :: others, last)
            | (none, failed) => declarations budget (failed.skipToDecl failed.budget)

/-- The module of a token list, without what had faults, and the faults. -/
def ofTokens (tokens : List Token) : Module × List (Report ParseFault) :=
  let c := Cursor.ofTokens tokens
  let (decls, last) := declarations c.budget c
  (⟨decls, c.current.span.cover last.previous⟩, last.reports)

/-- The module of a text, and what is wrong with the text: first its tokens, then their order. -/
def ofSource (source : SourceText) : Module × Diagnostics :=
  let (tokens, lexReports) := tokensOf source.chars
  let (m, parseReports) := ofTokens tokens
  (m, (Diagnostics.ofReports source lexReports).extend (Diagnostics.ofReports source parseReports))

end Module

end JumpIR.Tree
