import JumpIR.Diagnostic

/-!
# Why a module has no program

Lowering stops at the first fault. Each fault but an internal one stands somewhere in the text.
-/

set_option autoImplicit false

namespace JumpIR.Lowering

/-- A construct that has no meaning in a program. -/
inductive Unsupported where
  | functionType
  | parameterCount (function : String) (taken declared : Nat)
  | supportNotFunction (name : String)
  | argumentCount (callee : String) (expected found : Nat)
  | unknownPrimitive (name : String)
  | primitiveArity (name : String) (arity found : Nat)
deriving DecidableEq, Repr

def Unsupported.message : Unsupported → String
  | .functionType => "function types are only valid in 'val' signatures"
  | .parameterCount function taken declared =>
      s!"'{function}' takes {taken} parameters but its signature declares {declared}"
  | .supportNotFunction name => s!"extern '{name}' does not have a function type"
  | .argumentCount callee expected found =>
      s!"'{callee}' expects {expected} arguments, got {found}"
  | .unknownPrimitive name => s!"unknown primitive '@{name}'"
  | .primitiveArity name arity found => s!"'@{name}' takes {arity} arguments, got {found}"

/-- A step of lowering that found its own work incomplete. -/
inductive Gap where
  | notALeader (statement : Nat)
  | noOpenBlock
  | undeclaredLocal (name : String)
deriving DecidableEq, Repr

def Gap.message : Gap → String
  | .notALeader statement => s!"statement {statement} is not a block leader"
  | .noOpenBlock => "no open block"
  | .undeclaredLocal name => s!"undeclared local '{name}'"

inductive Fault where
  | unsupported (construct : Unsupported) (span : Span)
  | internal (function : String) (gap : Gap)
  /-- `scope` is the function that uses the name, or the module. -/
  | unresolvedSymbol (name scope : String) (span : Span)
  | unlinkedType (name : String) (span : Span)
  | missingSignature (function : String) (span : Span)
  | jumpOutOfRange (function : String) (target size : Nat) (span : Span)
  | conflictingLocal (function name : String) (span : Span)
  | nestedCall (function callee : String) (span : Span)
deriving DecidableEq, Repr

namespace Fault

def message : Fault → String
  | .unsupported construct _ => s!"unsupported construct: {construct.message}"
  | .internal function gap => s!"internal codegen error: {function}: {gap.message}"
  | .unresolvedSymbol name scope _ => s!"unresolved symbol '{name}' in {scope}"
  | .unlinkedType name _ => s!"type reference '{name}' was not resolved"
  | .missingSignature function _ => s!"function '{function}' has no signature"
  | .jumpOutOfRange function target size _ =>
      s!"{function}: jump target {target} is outside the body (0..{size})"
  | .conflictingLocal function name _ =>
      s!"{function}: local '{name}' redeclared with a different type"
  | .nestedCall function callee _ =>
      s!"{function}: call to '{callee}' must be the whole right-hand side"

def code : Fault → Code
  | .unsupported _ _ => .unsupported
  | .internal _ _ => .internal
  | .unresolvedSymbol _ _ _ => .undefinedName
  | .unlinkedType _ _ => .undefinedName
  | .missingSignature _ _ => .missingSignature
  | .jumpOutOfRange _ _ _ _ => .jumpOutOfRange
  | .conflictingLocal _ _ _ => .conflictingLocal
  | .nestedCall _ _ _ => .nestedCall

def span? : Fault → Option Span
  | .internal _ _ => none
  | .unsupported _ span | .unresolvedSymbol _ _ span | .unlinkedType _ span
  | .missingSignature _ span | .jumpOutOfRange _ _ _ span | .conflictingLocal _ _ span
  | .nestedCall _ _ span => some span

/-- The diagnostic of a fault; an internal one is put at the start of the text. -/
def diagnostic (source : SourceText) (fault : Fault) : Diagnostic :=
  .quoting source fault.code fault.message (fault.span?.getD (.point .origin))

end Fault

end JumpIR.Lowering
