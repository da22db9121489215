import JumpIR.Diagnostic
import JumpIR.Json.Decode

/-!
# Diagnostics as JSON

A diagnostic is one flat object: the four numbers of its region stand beside its other members.
Members of other names are skipped once they have been read in full.
-/

set_option autoImplicit false

namespace JumpIR

open Json

namespace Span

def members (s : Span) : List (String × Json) :=
  [("line", .int s.start.line), ("column", .int s.start.column),
   ("end_line", .int s.stop.line), ("end_column", .int s.stop.column)]

def encode (s : Span) : Json := .object s.members

def fieldNames : List String := ["line", "column", "end_line", "end_column"]

/-- The region whose four numbers stand in these slots. -/
def ofSlots? (room : Nat) : List Slot → Option Span
  | [line, column, endLine, endColumn] => do
      let line ← required decodeU32 room line
      let column ← required decodeU32 room column
      let endLine ← required decodeU32 room endLine
      let endColumn ← required decodeU32 room endColumn
      some ⟨⟨line, column⟩, ⟨endLine, endColumn⟩⟩
  | _ => none

def decode : Decoder Span := fun room json => do
  let (room, slots) ← openRecord? fieldNames room json
  ofSlots? room slots

end Span

namespace Category

def encode (c : Category) : Json := .text c.name

def decode : Decoder Category := fun room json => do
  match ← openChoice? room json with
  | ("syntax", rest) => noContent .syntactic rest
  | ("resolution", rest) => noContent .resolution rest
  | ("structure", rest) => noContent .structural rest
  | ("codegen", rest) => noContent .generation rest
  | _ => none

end Category

namespace Code

def encode (c : Code) : Json := .int c.number

def decode : Decoder Code := fun room json => (decodeU16 room json).map Code.mk

end Code

namespace Diagnostic

def encode (d : Diagnostic) : Json :=
  .object ([("file", .text d.file), ("code", d.code.encode), ("category", d.category.encode),
    ("message", .text d.message)] ++ d.span.members ++ [("source_line", .text d.sourceLine)])

def fieldNames : List String := ["file", "code", "category", "message", "source_line"]

/-- Reads an object only: its region has no place of its own in an array. -/
def decode : Decoder Diagnostic
  | room + 1, .object members => do
      let others := members.filter fun (name, _) => !fieldNames.contains name
      guard (membersReadable room others)
      match ← fieldNames.mapM (memberSlot? members) with
      | [file, code, category, message, sourceLine] => do
          let file ← required decodeText room file
          let code ← required Code.decode room code
          let category ← required Category.decode room category
          let message ← required decodeText room message
          let sourceLine ← required decodeText room sourceLine
          let span ← Span.ofSlots? room (← Span.fieldNames.mapM (memberSlot? members))
          some ⟨file, code, category, message, span, sourceLine⟩
      | _ => none
  | _, _ => none

end Diagnostic

namespace Diagnostics

def encode (ds : Diagnostics) : Json :=
  .object [("errors", encodeList Diagnostic.encode ds.kept), ("total_errors", .int ds.total)]

def decode : Decoder Diagnostics := fun room json => do
  match ← openRecord? ["errors", "total_errors"] room json with
  | (room, [kept, total]) => do
      let kept ← required (decodeList Diagnostic.decode) room kept
      let total ← required decodeU64 room total
      some ⟨kept, total⟩
  | _ => none

end Diagnostics

end JumpIR
