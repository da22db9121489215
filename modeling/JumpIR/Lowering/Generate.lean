import JumpIR.Lowering.Body

/-!
# From modules to programs

`generate` numbers the global definitions of a linked module and lowers its bodies in order.
-/

set_option autoImplicit false

namespace JumpIR.Lowering

def lowerFunctions (globals : Globals) :
    List Tree.FunctionDecl → List SupportDef → Except Fault (List FunctionDef × List SupportDef)
  | [], supports => .ok ([], supports)
  | f :: rest, supports => do
      let (first, supports) ← lowerFunction globals f supports
      let (others, supports) ← lowerFunctions globals rest supports
      .ok (first :: others, supports)

def generate (m : Tree.Module) (symbols : SymbolTable) (options : Options) :
    Except Fault Program := do
  let (globals, program) ← declareGlobals m symbols options
  let (functions, supports) ← lowerFunctions globals m.functions []
  .ok { program with supports := supports, functions := functions }

end JumpIR.Lowering
