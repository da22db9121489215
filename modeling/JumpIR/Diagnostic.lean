import JumpIR.Text.Span
import JumpIR.Text.Source

/-!
# Diagnostics

A diagnostic is a coded message at a region of a text, together with the line it stands on. A
compilation collects diagnostics in order, keeps the first twenty and counts the others.
-/

set_option autoImplicit false

namespace JumpIR

inductive Category where
  | syntactic
  | resolution
  | structural
  | generation
deriving DecidableEq, Repr

def Category.name : Category → String
  | .syntactic => "syntax"
  | .resolution => "resolution"
  | .structural => "structure"
  | .generation => "codegen"

/-- A diagnostic code; its hundreds tell the category. -/
structure Code where
  number : Nat
deriving DecidableEq, Repr

namespace Code

def unexpectedToken : Code := ⟨100⟩
def unterminatedString : Code := ⟨101⟩
def invalidLiteral : Code := ⟨102⟩
def unclosedBrace : Code := ⟨103⟩
def undefinedName : Code := ⟨200⟩
def redefinition : Code := ⟨201⟩
def kindMismatch : Code := ⟨202⟩
def missingSignature : Code := ⟨203⟩
def jumpOutOfRange : Code := ⟨300⟩
def conflictingLocal : Code := ⟨301⟩
def nestedCall : Code := ⟨302⟩
def internal : Code := ⟨400⟩
def unsupported : Code := ⟨401⟩

/-- Codes outside the three other ranges are taken for syntax errors. -/
def category (code : Code) : Category :=
  if 200 ≤ code.number ∧ code.number ≤ 299 then .resolution
  else if 300 ≤ code.number ∧ code.number ≤ 399 then .structural
  else if 400 ≤ code.number ∧ code.number ≤ 499 then .generation
  else .syntactic

def display (code : Code) : String := s!"E{code.number}"

end Code

structure Diagnostic where
  file : String
  code : Code
  category : Category
  message : String
  span : Span
  /-- The line on which the region starts. -/
  sourceLine : String
deriving DecidableEq, Repr

namespace Diagnostic

/-- A diagnostic whose category is the one of its code. -/
def make (file : String) (code : Code) (message : String) (span : Span) (sourceLine : String) :
    Diagnostic :=
  ⟨file, code, code.category, message, span, sourceLine⟩

/-- A diagnostic that quotes the line of `source` on which it starts, or nothing if the text has
no such line. -/
def quoting (source : SourceText) (code : Code) (message : String) (span : Span) : Diagnostic :=
  make source.name code message span ((source.line? span.start.line).getD "")

def display (d : Diagnostic) : String :=
  s!"{d.file}:{d.span.display}: {d.code.display} [{d.category.name}] {d.message}"

end Diagnostic

/-- The diagnostics of one compilation: the first ones, and how many there were. -/
structure Diagnostics where
  kept : List Diagnostic
  total : Nat
deriving DecidableEq, Repr

namespace Diagnostics

def limit : Nat := 20

def empty : Diagnostics := ⟨[], 0⟩

def hasErrors (ds : Diagnostics) : Bool := ds.total > 0

/-- Whether later diagnostics are only counted. -/
def isSaturated (ds : Diagnostics) : Bool := ds.total ≥ limit

def push (ds : Diagnostics) (d : Diagnostic) : Diagnostics :=
  ⟨if ds.kept.length < limit then ds.kept ++ [d] else ds.kept, ds.total + 1⟩

def pushAll (ds : Diagnostics) (list : List Diagnostic) : Diagnostics := list.foldl push ds

/-- Keeps what `other` kept as far as there is room, and counts everything that `other` counted. -/
def extend (ds other : Diagnostics) : Diagnostics :=
  ⟨(ds.pushAll other.kept).kept, ds.total + other.total⟩

def codes (ds : Diagnostics) : List Code := ds.kept.map (·.code)

/-- One line for each kept diagnostic, and a last line that counts the dropped ones. -/
def display (ds : Diagnostics) : String :=
  String.join (ds.kept.map fun d => d.display ++ "\n") ++
    if ds.total > ds.kept.length then s!"... and {ds.total - ds.kept.length} more errors\n"
    else ""

end Diagnostics

/-- A cause of a diagnostic: what the lexer, the parser and the linker report, before a text is
there to quote from. -/
class Cause (fault : Type) where
  code : fault → Code
  message : fault → String

structure Report (fault : Type) where
  cause : fault
  span : Span
deriving DecidableEq, Repr

/-- The diagnostic that a report amounts to in `source`. -/
def Report.diagnostic {fault : Type} [Cause fault] (source : SourceText) (r : Report fault) :
    Diagnostic :=
  Diagnostic.quoting source (Cause.code r.cause) (Cause.message r.cause) r.span

/-- The diagnostics of a list of reports on `source`. -/
def Diagnostics.ofReports {fault : Type} [Cause fault] (source : SourceText)
    (reports : List (Report fault)) : Diagnostics :=
  empty.pushAll (reports.map (Report.diagnostic source))

end JumpIR
