import JumpIR.Program.Basic
import JumpIR.Text.Quoted
import JumpIR.Token

/-!
# Listings

A program as text for a reader. Numbers are shown by the names that they stand for, or as numbers
where a program has no such name, so every program has a listing.
-/

set_option autoImplicit false

namespace JumpIR.Listing

def commas (parts : List String) : String := ", ".intercalate parts

/-! ### Types -/

def enumName (p : Program) (id : EnumId) : String :=
  match p.enum? id with
  | some e => s!"enum {e.name}"
  | none => s!"enum #{id.index}"

def unionName (p : Program) (id : UnionId) : String :=
  match p.union? id with
  | some u => s!"union {u.name}"
  | none => s!"union #{id.index}"

mutual

def type (p : Program) : Ty → String
  | .unit => "unit"
  | .bool => "bool"
  | .int => "int"
  | .bit => "bit"
  | .bits width => s!"bits{width}"
  | .string => "string"
  | .tuple items => "(" ++ commas (types p items) ++ ")"
  | .enum id => enumName p id
  | .union id => unionName p id

def types (p : Program) : List Ty → List String
  | [] => []
  | t :: rest => type p t :: types p rest

end

def signature (p : Program) (params : List Ty) (result : Ty) : String :=
  "(" ++ commas (types p params) ++ ") -> " ++ type p result

/-! ### Names -/

def localName (f : FunctionDef) (id : LocalId) : String :=
  match f.locals[id.index]? with
  | some l => l.name
  | none => s!"%{id.index}"

def localDecl (p : Program) (f : FunctionDef) (id : LocalId) : String :=
  match f.locals[id.index]? with
  | some l => s!"{l.name}: " ++ type p l.type
  | none => s!"%{id.index}"

def registerName (p : Program) (id : RegisterId) : String :=
  match p.register? id with
  | some r => r.name
  | none => s!"reg#{id.index}"

def variantName (p : Program) (union : UnionId) (tag : Nat) : String :=
  (p.variantName? union tag).getD s!"#{union.index}:{tag}"

def calleeName (p : Program) : Callee → String
  | .function id =>
      match p.function? id with
      | some f => f.name
      | none => s!"fn#{id.index}"
  | .support id =>
      match p.support? id with
      | some op => s!"extern {op.name}"
      | none => s!"extern#{id.index}"

def exceptionName : ExceptionPart → String
  | .pending => "have_exception"
  | .thrown => "current_exception"
  | .location => "throw_location"

/-! ### Operations -/

def const (p : Program) : Const → String
  | .unit => "()"
  | .bool b => if b then "true" else "false"
  | .int n => toString n.toInt
  | .bits width value => s!"{hexNumeral value.toNat}:bits{width}"
  | .string s => Text.quoted s
  | .enum id ordinal =>
      ((p.enum? id).bind (·.variant? ordinal)).getD s!"enum#{id.index}:{ordinal}"

mutual

def operand (p : Program) (f : FunctionDef) : Operand → String
  | .const c => const p c
  | .localVar id => localName f id
  | .register id => registerName p id
  | .exception part => exceptionName part
  | .prim op args => s!"@{op.name}(" ++ commas (operands p f args) ++ ")"
  | .isVariant value union tag =>
      "is_variant(" ++ operand p f value ++ ", " ++ variantName p union tag ++ ")"
  | .asVariant value union tag => operand p f value ++ " as " ++ variantName p union tag
  | .field value index => operand p f value ++ s!".{index}"
  | .tuple items => "(" ++ commas (operands p f items) ++ ")"
  | .construct union tag payload =>
      variantName p union tag ++ "(" ++ operand p f payload ++ ")"

def operands (p : Program) (f : FunctionDef) : List Operand → List String
  | [] => []
  | o :: rest => operand p f o :: operands p f rest

end

def placeRoot (p : Program) (f : FunctionDef) : PlaceRoot → String
  | .localVar id => localName f id
  | .register id => registerName p id
  | .result => "return"
  | .exception part => exceptionName part

def place (p : Program) (f : FunctionDef) (dest : Place) : String :=
  placeRoot p f dest.root ++ String.join (dest.path.map fun index => s!".{index}")

def op (p : Program) (f : FunctionDef) : Op → String
  | .declare id => "declare " ++ localName f id
  | .assign dest value => place p f dest ++ " = " ++ operand p f value
  | .call dest callee args =>
      let call := "call " ++ calleeName p callee ++ "(" ++ commas (operands p f args) ++ ")"
      match dest with
      | some dest => place p f dest ++ " = " ++ call
      | none => call

def terminator (p : Program) (f : FunctionDef) : Terminator → String
  | .goto target => s!"goto bb{target.index}"
  | .branch cond thenBlock elseBlock =>
      "branch " ++ operand p f cond ++ s!" ? bb{thenBlock.index} : bb{elseBlock.index}"
  | .ret => "return"
  | .arbitrary => "arbitrary"
  | .unreachable location => "unreachable " ++ Text.quoted location

/-! ### Definitions, line by line -/

def block (p : Program) (f : FunctionDef) (index : Nat) (b : Block) : List String :=
  let head := match b.origin with
    | some statement => s!"  bb{index}: // stmt {statement}"
    | none => s!"  bb{index}:"
  head :: (b.ops.map fun o => "    " ++ op p f o) ++ ["    " ++ terminator p f b.terminator]

def function (p : Program) (f : FunctionDef) : List String :=
  let head := s!"fn {f.name}(" ++ commas (f.params.map (localDecl p f)) ++ ") -> "
    ++ type p f.result ++ (if f.mayRaise then " raises" else "") ++ " \x7b"
  let others := (f.locals.zipIdx.drop f.params.length).map fun (l, index) =>
    s!"  local %{index} {l.name}: " ++ type p l.type
  "" :: head :: others ++ (f.blocks.zipIdx.flatMap fun (b, index) => block p f index b) ++ ["\x7d"]

def enumLine (e : EnumDef) : String :=
  let variants := e.variants.zipIdx.map fun (v, index) => s!"{v} = {index}"
  s!"enum {e.name} \x7b " ++ commas variants ++ " \x7d"

def union (p : Program) (u : UnionDef) : List String :=
  let variants := u.variants.zipIdx.map fun (v, tag) => s!"  [{tag}] {v.name}: " ++ type p v.payload
  s!"union {u.name} \x7b" :: variants ++ ["\x7d"]

def register (p : Program) (r : RegisterDef) : String := s!"register {r.name} : " ++ type p r.type

def support (p : Program) (d : SupportDef) : String :=
  s!"extern {d.name} = \"" ++ d.symbol ++ "\" : " ++ signature p d.params d.result

def lines (p : Program) : List String :=
  p.enums.map enumLine ++ p.unions.flatMap (union p) ++ p.registers.map (register p)
    ++ p.supports.map (support p) ++ p.functions.flatMap (function p)

end JumpIR.Listing

namespace JumpIR

/-- The listing of a program: its types, registers and support operations, and then its functions,
each behind an empty line. -/
def Program.listing (p : Program) : String :=
  String.join ((Listing.lines p).map (· ++ "\n"))

end JumpIR
