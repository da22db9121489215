import JumpIR.Token.Scan
import JumpIR.Diagnostic.Codec
import JumpIR.Json.Reader
import JumpIR.Json.Printer
import JumpIR.Compile.Result
import JumpIR.Program.Listing
import JumpIR.Machine.Codec
import JumpIR.Proofs.Exception.Reachability
import JumpIR.Proofs.Memory.Torn
import JumpIR.Proofs.Symbol.First
import JumpIR.Proofs.Lowering.Parameters
import JumpIR.Proofs.Lowering.Checks
import JumpIR.Proofs.Lowering.Order
import JumpIR.Proofs.Grammar.Module
import JumpIR.Proofs.Driver.Exceptions
import JumpIR.Proofs.Token.Partition
import JumpIR.Proofs.Token.Rendering
import JumpIR.Proofs.Program.RoundTrip
import JumpIR.Proofs.Host.Normal
import JumpIR.Proofs.Host.Replay
import JumpIR.Proofs.Host.Tracing
import JumpIR.Proofs.Machine.Arity
import JumpIR.Proofs.Machine.Frame
import JumpIR.Proofs.Machine.Depth
import JumpIR.Proofs.Machine.Image
import JumpIR.Proofs.Memory.Calls
import JumpIR.Proofs.Value.Default
import JumpIR.Proofs.Value.Arithmetic
import JumpIR.Proofs.Lowering.Gaps
import JumpIR.Proofs.Cursor.Recovery
import JumpIR.Proofs.Diagnostic.Collection
import JumpIR.Proofs.Machine.Lens
import JumpIR.Proofs.Lowering.Guards
import JumpIR.Proofs.Region.Module
import JumpIR.Proofs.Text.Lines
import JumpIR.Proofs.Symbol.History
import JumpIR.Proofs.Token.Number
import JumpIR.Proofs.Compile.Codec
