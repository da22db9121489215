import JumpIR.Lowering.Fault
import JumpIR.Lowering.Raising
import JumpIR.Program.Basic
import JumpIR.Symbol.Table

/-!
# Numbering the global definitions

Enums, unions, registers and functions are numbered in the order of their declarations before any
body is lowered, so that types and bodies may name what is declared later. `Globals` holds these
numbers; its look-ups tell what a name means in a body.
-/

set_option autoImplicit false

namespace JumpIR.Lowering

structure Options where
  /-- After every call of a function that may raise, leave the function if an exception is pending,
  unless the next statement tests for that itself. -/
  checkCalls : Bool
deriving DecidableEq, Repr

def Options.default : Options := ⟨true⟩

/-- A list of pairs in which every key has one value. -/
def assign {κ ν : Type} [BEq κ] (key : κ) (value : ν) (pairs : List (κ × ν)) : List (κ × ν) :=
  (key, value) :: pairs.filter fun pair => !(pair.1 == key)

structure Numbering where
  enums : List (SymbolId × EnumId)
  unions : List (SymbolId × UnionId)
  functions : List (String × FuncId)
deriving Repr

/-- The program so far, and the numbers given out. -/
structure Globals where
  symbols : SymbolTable
  numbers : Numbering
  registers : List (String × RegisterId)
  raising : List String
  options : Options
deriving Repr

/-! ### Types -/

mutual

/-- The program's type for a linked type. -/
def Numbering.type (numbers : Numbering) : Tree.TypeExpr → Except Fault Ty
  | .base .unit _ => .ok .unit
  | .base .bool _ => .ok .bool
  | .base .int _ => .ok .int
  | .base .int64 _ => .ok .int
  | .base .bit _ => .ok .bit
  | .base .string _ => .ok .string
  | .base (.bits width) _ => .ok (.bits (width.getD 64))
  | .tuple items _ => do
      let items ← numbers.types items
      .ok (.tuple items)
  | .named .enum name definition _ =>
      match definition.bind (numbers.enums.lookup ·) with
      | some id => .ok (.enum id)
      | none => .error (.unlinkedType name.name name.span)
  | .named .union name definition _ =>
      match definition.bind (numbers.unions.lookup ·) with
      | some id => .ok (.union id)
      | none => .error (.unlinkedType name.name name.span)
  | .function _ _ span => .error (.unsupported .functionType span)

def Numbering.types (numbers : Numbering) : List Tree.TypeExpr → Except Fault (List Ty)
  | [] => .ok []
  | type :: rest => do
      let type ← numbers.type type
      let rest ← numbers.types rest
      .ok (type :: rest)

end

/-! ### Declarations -/

def symbolOf (symbols : SymbolTable) (name : Tree.Ident) : Except Fault SymbolId :=
  match symbols.lookup? name.name with
  | some id => .ok id
  | none => .error (.unresolvedSymbol name.name "module scope" name.span)

/-- The types of a program whose unions may still lack their variants. -/
structure TypeDefs where
  numbers : Numbering
  enums : List EnumDef
  unions : List UnionDef
deriving Repr

/-- Numbers the types and functions of a list of declarations. -/
def numberAll (symbols : SymbolTable) : List Tree.Decl → TypeDefs → Except Fault TypeDefs
  | [], defs => .ok defs
  | .enum e :: rest, defs => do
      let symbol ← symbolOf symbols e.name
      numberAll symbols rest
        { defs with
          numbers.enums := assign symbol ⟨defs.enums.length⟩ defs.numbers.enums
          enums := defs.enums ++ [⟨e.name.name, e.variants.map (·.name)⟩] }
  | .union u :: rest, defs => do
      let symbol ← symbolOf symbols u.name
      numberAll symbols rest
        { defs with
          numbers.unions := assign symbol ⟨defs.unions.length⟩ defs.numbers.unions
          unions := defs.unions ++ [⟨u.name.name, []⟩] }
  | .function f :: rest, defs =>
      numberAll symbols rest
        { defs with
          numbers.functions :=
            assign f.name.name ⟨defs.numbers.functions.length⟩ defs.numbers.functions }
  | .value _ :: rest, defs => numberAll symbols rest defs
  | .register _ :: rest, defs => numberAll symbols rest defs

def variantDefs (numbers : Numbering) : List Tree.UnionVariant → Except Fault (List VariantDef)
  | [] => .ok []
  | v :: rest => do
      let payload ← numbers.type v.payload
      let rest ← variantDefs numbers rest
      .ok (⟨v.name.name, payload⟩ :: rest)

def setVariants (defs : TypeDefs) (symbol : SymbolId) (variants : List VariantDef) : TypeDefs :=
  match defs.numbers.unions.lookup symbol with
  | none => defs
  | some id =>
      { defs with unions := defs.unions.modify id.index fun u => { u with variants := variants } }

/-- The registers of a program, and their numbers by name. -/
structure RegisterDefs where
  ids : List (String × RegisterId)
  defs : List RegisterDef
deriving Repr

/-- Fills in the variants and the registers of a list of declarations. -/
def defineAll (symbols : SymbolTable) :
    List Tree.Decl → TypeDefs → RegisterDefs → Except Fault (TypeDefs × RegisterDefs)
  | [], types, registers => .ok (types, registers)
  | .union u :: rest, types, registers => do
      let variants ← variantDefs types.numbers u.variants
      let symbol ← symbolOf symbols u.name
      defineAll symbols rest (setVariants types symbol variants) registers
  | .register r :: rest, types, registers => do
      let type ← types.numbers.type r.type
      defineAll symbols rest types
        ⟨assign r.name.name ⟨registers.defs.length⟩ registers.ids,
         registers.defs ++ [⟨r.name.name, type⟩]⟩
  | .value _ :: rest, types, registers => defineAll symbols rest types registers
  | .enum _ :: rest, types, registers => defineAll symbols rest types registers
  | .function _ :: rest, types, registers => defineAll symbols rest types registers

/-- Numbers and defines everything global in a module. The program has no functions yet. -/
def declareGlobals (m : Tree.Module) (symbols : SymbolTable) (options : Options) :
    Except Fault (Globals × Program) := do
  let types ← numberAll symbols m.decls ⟨⟨[], [], []⟩, [], []⟩
  let (types, registers) ← defineAll symbols m.decls types ⟨[], []⟩
  .ok (⟨symbols, types.numbers, registers.ids, m.raising, options⟩,
    ⟨types.enums, types.unions, registers.defs, [], []⟩)

/-! ### What a name means in a body -/

namespace Globals

def type (g : Globals) (t : Tree.TypeExpr) : Except Fault Ty := g.numbers.type t

def types (g : Globals) (ts : List Tree.TypeExpr) : Except Fault (List Ty) := g.numbers.types ts

def register? (g : Globals) (name : String) : Option RegisterId := g.registers.lookup name

def enumConst? (g : Globals) (name : String) : Option Const := do
  let info ← g.symbols.info? name
  match info.kind, info.value, info.parent with
  | .enumVariant, .ordinal n, some parent => do
      let id ← g.numbers.enums.lookup parent
      some (.enum id n)
  | _, _, _ => none

def variant? (g : Globals) (name : String) : Option (UnionId × Nat) := do
  let info ← g.symbols.info? name
  match info.kind, info.value, info.parent with
  | .unionVariant, .tag n, some parent => do
      let id ← g.numbers.unions.lookup parent
      some (id, n)
  | _, _, _ => none

def mayRaise (g : Globals) (name : String) : Bool := g.raising.contains name

/-- The support operation that a bound value stands for. -/
def supportDef (g : Globals) (name symbol : String) (type : Option Tree.TypeExpr) (span : Span) :
    Except Fault SupportDef :=
  match type with
  | some (.function params result _) => do
      let params ← g.types params
      let result ← g.type result
      .ok ⟨name, symbol, params, result⟩
  | _ => .error (.unsupported (.supportNotFunction name) span)

/-- What a call calls. -/
inductive Target where
  | constructor (union : UnionId) (tag : Nat)
  | support (op : SupportDef)
  | function (id : FuncId) (mayRaise : Bool)
deriving Repr

/-- What a callee's name stands for, if it can be called. -/
def target? (g : Globals) (name : String) (span : Span) : Except Fault (Option Target) :=
  match g.variant? name with
  | some (union, tag) => .ok (some (.constructor union tag))
  | none =>
      match g.symbols.info? name with
      | none => .ok none
      | some info =>
          match info.kind, info.value with
          | .value, .support symbol => do
              let op ← g.supportDef name symbol info.type span
              .ok (some (.support op))
          | .value, _ =>
              .ok ((g.numbers.functions.lookup name).map fun id => .function id (g.mayRaise name))
          | _, _ => .ok none

/-- The parameter types and the result type that a function's value declares. -/
def signature (g : Globals) (f : Tree.FunctionDecl) : Except Fault (List Ty × Ty) :=
  let missing := Fault.missingSignature f.name.name f.name.span
  match g.symbols.info? f.name.name with
  | none => .error missing
  | some info =>
      match info.kind, info.value, info.type with
      | .value, .support _, _ => .error missing
      | .value, _, some (.function params result _) =>
          if params.length = f.params.length then do
            let params ← g.types params
            let result ← g.type result
            .ok (params, result)
          else
            .error (.unsupported
              (.parameterCount f.name.name f.params.length params.length) f.span)
      | _, _, _ => .error missing

end Globals

end JumpIR.Lowering
