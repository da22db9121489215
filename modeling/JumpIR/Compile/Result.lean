import JumpIR.Compile.Pipeline
import JumpIR.Diagnostic.Codec

/-!
# The outcome of a compilation

`CompileResult` packs the outcome of a compilation for other tools, and is written and read as
JSON, as are the options of a compilation.
-/

set_option autoImplicit false

namespace JumpIR

open Json

namespace Lowering.Options

def encode (o : Options) : Json := .object [("insert_propagation_checks", .bool o.checkCalls)]

def decode : Decoder Options := fun room json => do
  match ← openRecord? ["insert_propagation_checks"] room json with
  | (room, [checkCalls]) =>
      (withDefault Options.default.checkCalls decodeBool room checkCalls).map Options.mk
  | _ => none

end Lowering.Options

structure CompileResult where
  success : Bool
  program : Option Program
  programHash : Option String
  errors : Diagnostics
deriving Repr

namespace CompileResult

def ofSource (source : SourceText) : CompileResult :=
  match source.compile .default with
  | .ok program => ⟨true, some program, some program.fingerprint, .empty⟩
  | .error errors => ⟨false, none, none, errors⟩

def encode (r : CompileResult) : Json :=
  .object [("success", .bool r.success), ("program", encodeOption Program.encode r.program),
    ("program_hash", encodeOption .text r.programHash), ("errors", r.errors.encode)]

def decode : Decoder CompileResult := fun room json => do
  match ← openRecord? ["success", "program", "program_hash", "errors"] room json with
  | (room, [success, program, programHash, errors]) => do
      let success ← required decodeBool room success
      let program ← optional Program.decode room program
      let programHash ← optional decodeText room programHash
      let errors ← required Diagnostics.decode room errors
      some ⟨success, program, programHash, errors⟩
  | _ => none

end CompileResult

end JumpIR
