import JumpIR.Tree.Module
import JumpIR.Symbol.Linking
import JumpIR.Lowering.Generate
import JumpIR.Digest.Sha256
import JumpIR.Program.Codec

/-!
# Compiling a text

A text is read, linked and lowered. Linking needs a text without syntax faults, and lowering a
module without faults at all; each stage that fails gives its diagnostics. Main functions:
`SourceText.linked`, `SourceText.check` and `SourceText.compile`.
-/

set_option autoImplicit false

namespace JumpIR

namespace SourceText

/-- The linked module of a text, or everything that is wrong with it. -/
def linked (source : SourceText) : Except Diagnostics LinkedModule :=
  let (tree, syntaxErrors) := Tree.Module.ofSource source
  if syntaxErrors.hasErrors then .error syntaxErrors
  else
    let (linked, reports) := tree.link
    let errors := Diagnostics.ofReports source reports
    if errors.hasErrors then .error errors else .ok linked

def check (source : SourceText) : Diagnostics :=
  match source.linked with
  | .ok _ => .empty
  | .error errors => errors

def compile (source : SourceText) (options : Lowering.Options) : Except Diagnostics Program := do
  let m ← source.linked
  match Lowering.generate m.tree m.symbols options with
  | .ok program => .ok program
  | .error fault => .error (Diagnostics.empty.push (fault.diagnostic source))

end SourceText

def Program.fingerprint (p : Program) : String := Sha256.hex p.toJson

structure Artifact where
  /-- The bytes of the stored file, as text. -/
  content : String
  /-- The digest of the content. -/
  hash : String
deriving DecidableEq, Repr

/-- The artifact of a program is its text, under the program's fingerprint. -/
def Program.artifact (p : Program) : Artifact := ⟨p.toJson, p.fingerprint⟩

end JumpIR
