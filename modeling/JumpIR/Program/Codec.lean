import JumpIR.Json.Decode
import JumpIR.Json.Printer
import JumpIR.Json.Reader
import JumpIR.Program.Basic

/-!
# Programs as JSON

Every number of a definition is a plain number, an alternative without content is its name, and any
other alternative is an object with one member. The members of a definition are written in one
fixed order. Main functions: `Program.encode`, `Program.decode`, `Program.toJson` and
`Program.ofJson?`.
-/

set_option autoImplicit false

namespace JumpIR

open Json

/-! ### Numbers of definitions -/

def EnumId.encode (id : EnumId) : Json := .int id.index

def EnumId.decode : Decoder EnumId := fun room json => (decodeU32 room json).map EnumId.mk

def UnionId.encode (id : UnionId) : Json := .int id.index

def UnionId.decode : Decoder UnionId := fun room json => (decodeU32 room json).map UnionId.mk

def RegisterId.encode (id : RegisterId) : Json := .int id.index

def RegisterId.decode : Decoder RegisterId := fun room json =>
  (decodeU32 room json).map RegisterId.mk

def SupportId.encode (id : SupportId) : Json := .int id.index

def SupportId.decode : Decoder SupportId := fun room json =>
  (decodeU32 room json).map SupportId.mk

def FuncId.encode (id : FuncId) : Json := .int id.index

def FuncId.decode : Decoder FuncId := fun room json => (decodeU32 room json).map FuncId.mk

def LocalId.encode (id : LocalId) : Json := .int id.index

def LocalId.decode : Decoder LocalId := fun room json => (decodeU32 room json).map LocalId.mk

def BlockId.encode (id : BlockId) : Json := .int id.index

def BlockId.decode : Decoder BlockId := fun room json => (decodeU32 room json).map BlockId.mk

/-! ### Types -/

namespace Ty

mutual

def encode : Ty → Json
  | .unit => .text "unit"
  | .bool => .text "bool"
  | .int => .text "int"
  | .bit => .text "bit"
  | .bits width => tagged "bits" (.int width)
  | .string => .text "string"
  | .tuple items => tagged "tuple" (.array (encodeAll items))
  | .enum id => tagged "enum" id.encode
  | .union id => tagged "union" id.encode

def encodeAll : List Ty → List Json
  | [] => []
  | t :: rest => encode t :: encodeAll rest

end

/-- Reads a type; each level of nesting takes room for at least one array or object. -/
def decodeWithin : (levels : Nat) → Decoder Ty
  | 0, _, _ => none
  | levels + 1, room, json => do
      match ← openChoice? room json with
      | ("unit", rest) => noContent .unit rest
      | ("bool", rest) => noContent .bool rest
      | ("int", rest) => noContent .int rest
      | ("bit", rest) => noContent .bit rest
      | ("bits", rest) => (content decodeU32 rest).map .bits
      | ("string", rest) => noContent .string rest
      | ("tuple", rest) => (content (decodeList (decodeWithin levels)) rest).map .tuple
      | ("enum", rest) => (content EnumId.decode rest).map .enum
      | ("union", rest) => (content UnionId.decode rest).map .union
      | _ => none

def decode : Decoder Ty := fun room json => decodeWithin (room + 1) room json

end Ty

/-! ### Declared types, registers and support operations -/

namespace EnumDef

def encode (e : EnumDef) : Json :=
  .object [("name", .text e.name), ("variants", encodeList .text e.variants)]

def decode : Decoder EnumDef := fun room json => do
  match ← openRecord? ["name", "variants"] room json with
  | (room, [name, variants]) => do
      let name ← required decodeText room name
      let variants ← required (decodeList decodeText) room variants
      some ⟨name, variants⟩
  | _ => none

end EnumDef

namespace VariantDef

def encode (v : VariantDef) : Json :=
  .object [("name", .text v.name), ("payload", v.payload.encode)]

def decode : Decoder VariantDef := fun room json => do
  match ← openRecord? ["name", "payload"] room json with
  | (room, [name, payload]) => do
      let name ← required decodeText room name
      let payload ← required Ty.decode room payload
      some ⟨name, payload⟩
  | _ => none

end VariantDef

namespace UnionDef

def encode (u : UnionDef) : Json :=
  .object [("name", .text u.name), ("variants", encodeList VariantDef.encode u.variants)]

def decode : Decoder UnionDef := fun room json => do
  match ← openRecord? ["name", "variants"] room json with
  | (room, [name, variants]) => do
      let name ← required decodeText room name
      let variants ← required (decodeList VariantDef.decode) room variants
      some ⟨name, variants⟩
  | _ => none

end UnionDef

def encodeTyped (name : String) (type : Ty) : Json :=
  .object [("name", .text name), ("ty", type.encode)]

def decodeTyped : Decoder (String × Ty) := fun room json => do
  match ← openRecord? ["name", "ty"] room json with
  | (room, [name, type]) => do
      let name ← required decodeText room name
      let type ← required Ty.decode room type
      some (name, type)
  | _ => none

def RegisterDef.encode (r : RegisterDef) : Json := encodeTyped r.name r.type

def RegisterDef.decode : Decoder RegisterDef := fun room json =>
  (decodeTyped room json).map fun (name, type) => ⟨name, type⟩

def LocalDef.encode (l : LocalDef) : Json := encodeTyped l.name l.type

def LocalDef.decode : Decoder LocalDef := fun room json =>
  (decodeTyped room json).map fun (name, type) => ⟨name, type⟩

namespace SupportDef

def encode (d : SupportDef) : Json :=
  .object [("name", .text d.name), ("symbol", .text d.symbol),
    ("params", encodeList Ty.encode d.params), ("ret", d.result.encode)]

def decode : Decoder SupportDef := fun room json => do
  match ← openRecord? ["name", "symbol", "params", "ret"] room json with
  | (room, [name, symbol, params, result]) => do
      let name ← required decodeText room name
      let symbol ← required decodeText room symbol
      let params ← required (decodeList Ty.decode) room params
      let result ← required Ty.decode room result
      some ⟨name, symbol, params, result⟩
  | _ => none

end SupportDef

/-! ### Operands and places -/

def ExceptionPart.tag : ExceptionPart → String
  | .pending => "have_exception"
  | .thrown => "current_exception"
  | .location => "throw_location"

namespace PrimOp

def encode (op : PrimOp) : Json := .text op.name

def decode : Decoder PrimOp := fun room json => do
  let (name, rest) ← openChoice? room json
  let op ← ofName? name
  noContent op rest

end PrimOp

namespace Const

def encode : Const → Json
  | .unit => .text "unit"
  | .bool b => tagged "bool" (.bool b)
  | .int n => tagged "int" (.int n.toInt)
  | .bits width value =>
      tagged "bits" (.object [("width", .int width), ("value", .int value.toNat)])
  | .string s => tagged "string" (.text s)
  | .enum id ordinal =>
      tagged "enum" (.object [("enum_id", id.encode), ("ordinal", .int ordinal)])

def decodeBits : Decoder Const := fun room json => do
  match ← openRecord? ["width", "value"] room json with
  | (room, [width, value]) => do
      let width ← required decodeU32 room width
      let value ← required decodeWord room value
      some (.bits width value)
  | _ => none

def decodeEnum : Decoder Const := fun room json => do
  match ← openRecord? ["enum_id", "ordinal"] room json with
  | (room, [id, ordinal]) => do
      let id ← required EnumId.decode room id
      let ordinal ← required decodeU32 room ordinal
      some (.enum id ordinal)
  | _ => none

def decode : Decoder Const := fun room json => do
  match ← openChoice? room json with
  | ("unit", rest) => noContent .unit rest
  | ("bool", rest) => (content decodeBool rest).map .bool
  | ("int", rest) => (content decodeInt64 rest).map .int
  | ("bits", rest) => content decodeBits rest
  | ("string", rest) => (content decodeText rest).map .string
  | ("enum", rest) => content decodeEnum rest
  | _ => none

end Const

namespace Operand

def encodeVariant (value : Json) (union : UnionId) (tag : Nat) : Json :=
  .object [("value", value), ("union", union.encode), ("tag", .int tag)]

mutual

def encode : Operand → Json
  | .const c => tagged "const" c.encode
  | .localVar id => tagged "local" id.encode
  | .register id => tagged "register" id.encode
  | .exception part => .text part.tag
  | .prim op args => tagged "prim" (.object [("op", op.encode), ("args", .array (encodeAll args))])
  | .isVariant value union tag => tagged "is_variant" (encodeVariant (encode value) union tag)
  | .asVariant value union tag => tagged "as_variant" (encodeVariant (encode value) union tag)
  | .field value index =>
      tagged "field" (.object [("value", encode value), ("index", .int index)])
  | .tuple items => tagged "tuple" (.array (encodeAll items))
  | .construct union tag payload =>
      tagged "construct" (.object
        [("union", union.encode), ("tag", .int tag), ("payload", encode payload)])

def encodeAll : List Operand → List Json
  | [] => []
  | o :: rest => encode o :: encodeAll rest

end

def decodePrim (item : Decoder Operand) : Decoder Operand := fun room json => do
  match ← openRecord? ["op", "args"] room json with
  | (room, [op, args]) => do
      let op ← required PrimOp.decode room op
      let args ← required (decodeList item) room args
      some (.prim op args)
  | _ => none

def decodeVariant (item : Decoder Operand) : Decoder (Operand × UnionId × Nat) :=
  fun room json => do
    match ← openRecord? ["value", "union", "tag"] room json with
    | (room, [value, union, tag]) => do
        let value ← required item room value
        let union ← required UnionId.decode room union
        let tag ← required decodeU32 room tag
        some (value, union, tag)
    | _ => none

def decodeField (item : Decoder Operand) : Decoder Operand := fun room json => do
  match ← openRecord? ["value", "index"] room json with
  | (room, [value, index]) => do
      let value ← required item room value
      let index ← required decodeU32 room index
      some (.field value index)
  | _ => none

def decodeConstruct (item : Decoder Operand) : Decoder Operand := fun room json => do
  match ← openRecord? ["union", "tag", "payload"] room json with
  | (room, [union, tag, payload]) => do
      let union ← required UnionId.decode room union
      let tag ← required decodeU32 room tag
      let payload ← required item room payload
      some (.construct union tag payload)
  | _ => none

/-- Reads an operand; each level of nesting takes room for at least one array or object. -/
def decodeWithin : (levels : Nat) → Decoder Operand
  | 0, _, _ => none
  | levels + 1, room, json => do
      match ← openChoice? room json with
      | ("const", rest) => (content Const.decode rest).map .const
      | ("local", rest) => (content LocalId.decode rest).map .localVar
      | ("register", rest) => (content RegisterId.decode rest).map .register
      | ("have_exception", rest) => noContent (.exception .pending) rest
      | ("current_exception", rest) => noContent (.exception .thrown) rest
      | ("throw_location", rest) => noContent (.exception .location) rest
      | ("prim", rest) => content (decodePrim (decodeWithin levels)) rest
      | ("is_variant", rest) =>
          (content (decodeVariant (decodeWithin levels)) rest).map fun (value, union, tag) =>
            .isVariant value union tag
      | ("as_variant", rest) =>
          (content (decodeVariant (decodeWithin levels)) rest).map fun (value, union, tag) =>
            .asVariant value union tag
      | ("field", rest) => content (decodeField (decodeWithin levels)) rest
      | ("tuple", rest) => (content (decodeList (decodeWithin levels)) rest).map .tuple
      | ("construct", rest) => content (decodeConstruct (decodeWithin levels)) rest
      | _ => none

def decode : Decoder Operand := fun room json => decodeWithin (room + 1) room json

end Operand

namespace PlaceRoot

def encode : PlaceRoot → Json
  | .localVar id => tagged "local" id.encode
  | .register id => tagged "register" id.encode
  | .result => .text "return"
  | .exception part => .text part.tag

def decode : Decoder PlaceRoot := fun room json => do
  match ← openChoice? room json with
  | ("local", rest) => (content LocalId.decode rest).map .localVar
  | ("register", rest) => (content RegisterId.decode rest).map .register
  | ("return", rest) => noContent .result rest
  | ("have_exception", rest) => noContent (.exception .pending) rest
  | ("current_exception", rest) => noContent (.exception .thrown) rest
  | ("throw_location", rest) => noContent (.exception .location) rest
  | _ => none

end PlaceRoot

namespace Place

def encode (p : Place) : Json :=
  .object [("root", p.root.encode), ("path", encodeList (fun index : Nat => .int index) p.path)]

def decode : Decoder Place := fun room json => do
  match ← openRecord? ["root", "path"] room json with
  | (room, [root, path]) => do
      let root ← required PlaceRoot.decode room root
      let path ← required (decodeList decodeU32) room path
      some ⟨root, path⟩
  | _ => none

end Place

/-! ### Blocks -/

namespace Callee

def encode : Callee → Json
  | .function id => tagged "function" id.encode
  | .support id => tagged "extern" id.encode

def decode : Decoder Callee := fun room json => do
  match ← openChoice? room json with
  | ("function", rest) => (content FuncId.decode rest).map .function
  | ("extern", rest) => (content SupportId.decode rest).map .support
  | _ => none

end Callee

namespace Op

def encode : Op → Json
  | .declare id => tagged "declare" (.object [("local", id.encode)])
  | .assign dest value =>
      tagged "assign" (.object [("dest", dest.encode), ("value", value.encode)])
  | .call dest callee args =>
      tagged "call" (.object [("dest", encodeOption Place.encode dest),
        ("callee", callee.encode), ("args", encodeList Operand.encode args)])

def decodeDeclare : Decoder Op := fun room json => do
  match ← openRecord? ["local"] room json with
  | (room, [id]) => (required LocalId.decode room id).map .declare
  | _ => none

def decodeAssign : Decoder Op := fun room json => do
  match ← openRecord? ["dest", "value"] room json with
  | (room, [dest, value]) => do
      let dest ← required Place.decode room dest
      let value ← required Operand.decode room value
      some (.assign dest value)
  | _ => none

def decodeCall : Decoder Op := fun room json => do
  match ← openRecord? ["dest", "callee", "args"] room json with
  | (room, [dest, callee, args]) => do
      let dest ← optional Place.decode room dest
      let callee ← required Callee.decode room callee
      let args ← required (decodeList Operand.decode) room args
      some (.call dest callee args)
  | _ => none

def decode : Decoder Op := fun room json => do
  match ← openChoice? room json with
  | ("declare", rest) => content decodeDeclare rest
  | ("assign", rest) => content decodeAssign rest
  | ("call", rest) => content decodeCall rest
  | _ => none

end Op

namespace Terminator

def encode : Terminator → Json
  | .goto target => tagged "goto" target.encode
  | .branch cond thenBlock elseBlock =>
      tagged "branch" (.object [("cond", cond.encode), ("then_block", thenBlock.encode),
        ("else_block", elseBlock.encode)])
  | .ret => .text "return"
  | .arbitrary => .text "arbitrary"
  | .unreachable location => tagged "unreachable" (.object [("location", .text location)])

def decodeBranch : Decoder Terminator := fun room json => do
  match ← openRecord? ["cond", "then_block", "else_block"] room json with
  | (room, [cond, thenBlock, elseBlock]) => do
      let cond ← required Operand.decode room cond
      let thenBlock ← required BlockId.decode room thenBlock
      let elseBlock ← required BlockId.decode room elseBlock
      some (.branch cond thenBlock elseBlock)
  | _ => none

def decodeUnreachable : Decoder Terminator := fun room json => do
  match ← openRecord? ["location"] room json with
  | (room, [location]) => (required decodeText room location).map .unreachable
  | _ => none

def decode : Decoder Terminator := fun room json => do
  match ← openChoice? room json with
  | ("goto", rest) => (content BlockId.decode rest).map .goto
  | ("branch", rest) => content decodeBranch rest
  | ("return", rest) => noContent .ret rest
  | ("arbitrary", rest) => noContent .arbitrary rest
  | ("unreachable", rest) => content decodeUnreachable rest
  | _ => none

end Terminator

namespace Block

def encode (b : Block) : Json :=
  .object [("origin", encodeOption (fun n : Nat => .int n) b.origin),
    ("ops", encodeList Op.encode b.ops), ("terminator", b.terminator.encode)]

def decode : Decoder Block := fun room json => do
  match ← openRecord? ["origin", "ops", "terminator"] room json with
  | (room, [origin, ops, terminator]) => do
      let origin ← optional decodeU64 room origin
      let ops ← required (decodeList Op.decode) room ops
      let terminator ← required Terminator.decode room terminator
      some ⟨origin, ops, terminator⟩
  | _ => none

end Block

/-! ### Functions and programs -/

namespace FunctionDef

def encode (f : FunctionDef) : Json :=
  .object [("name", .text f.name), ("params", encodeList LocalId.encode f.params),
    ("locals", encodeList LocalDef.encode f.locals), ("ret", f.result.encode),
    ("blocks", encodeList Block.encode f.blocks), ("entry", f.entry.encode),
    ("may_raise", .bool f.mayRaise)]

def fieldNames : List String :=
  ["name", "params", "locals", "ret", "blocks", "entry", "may_raise"]

def decode : Decoder FunctionDef := fun room json => do
  match ← openRecord? fieldNames room json with
  | (room, [name, params, locals, result, blocks, entry, mayRaise]) => do
      let name ← required decodeText room name
      let params ← required (decodeList LocalId.decode) room params
      let locals ← required (decodeList LocalDef.decode) room locals
      let result ← required Ty.decode room result
      let blocks ← required (decodeList Block.decode) room blocks
      let entry ← required BlockId.decode room entry
      let mayRaise ← required decodeBool room mayRaise
      some ⟨name, params, locals, result, blocks, entry, mayRaise⟩
  | _ => none

end FunctionDef

namespace Program

def encode (p : Program) : Json :=
  .object [("enums", encodeList EnumDef.encode p.enums),
    ("unions", encodeList UnionDef.encode p.unions),
    ("registers", encodeList RegisterDef.encode p.registers),
    ("externs", encodeList SupportDef.encode p.supports),
    ("functions", encodeList FunctionDef.encode p.functions)]

def decode : Decoder Program := fun room json => do
  match ← openRecord? ["enums", "unions", "registers", "externs", "functions"] room json with
  | (room, [enums, unions, registers, supports, functions]) => do
      let enums ← required (decodeList EnumDef.decode) room enums
      let unions ← required (decodeList UnionDef.decode) room unions
      let registers ← required (decodeList RegisterDef.decode) room registers
      let supports ← required (decodeList SupportDef.decode) room supports
      let functions ← required (decodeList FunctionDef.decode) room functions
      some ⟨enums, unions, registers, supports, functions⟩
  | _ => none

def toJson (p : Program) : String := p.encode.compact

def toIndentedJson (p : Program) : String := p.encode.indented

def ofJson? (text : String) : Option Program := (parse? text).bind (decode nestingLimit)

end Program

end JumpIR
