import JumpIR.Diagnostic
import JumpIR.Symbol.Table

/-!
# Linking names

Linking a module gives its symbol table, the module with every named type linked to its symbol, and
the faults met. The first definition of a name counts and a later one is reported; the variants of
a type whose own name is taken are not defined. Every function body needs a value of that name with
a function type, and only one body may have it. Main function: `Module.link`.
-/

set_option autoImplicit false

namespace JumpIR

inductive LinkFault where
  | redefined (name : String) (previous : SymbolKind)
  | undefinedType (name : String)
  | wrongSort (name : String) (found expected : SymbolKind)
  | secondBody (name : String)
  | boundAndDefined (name : String)
  | notAFunctionType (name : String)
  | notAFunction (name : String) (found : SymbolKind)
  | noSignature (name : String)
deriving DecidableEq, Repr

instance : Cause LinkFault where
  code
    | .redefined _ _ | .secondBody _ => Code.redefinition
    | .undefinedType _ => Code.undefinedName
    | .wrongSort _ _ _ | .notAFunctionType _ | .notAFunction _ _ => Code.kindMismatch
    | .boundAndDefined _ | .noSignature _ => Code.missingSignature
  message
    | .redefined name previous => s!"'{name}' is already defined as a {previous.describe}"
    | .undefinedType name => s!"undefined type '{name}'"
    | .wrongSort name found expected =>
        s!"'{name}' is a {found.describe}, expected a {expected.describe}"
    | .secondBody name => s!"function '{name}' has more than one body"
    | .boundAndDefined name => s!"'{name}' is bound to an extern and cannot have a body"
    | .notAFunctionType name => s!"'{name}' is declared with a non-function type"
    | .notAFunction name found => s!"'{name}' is a {found.describe}, not a function"
    | .noSignature name => s!"function '{name}' has no 'val' signature"

abbrev LinkReports := List (Report LinkFault)

namespace Tree

/-! ### Defining names -/

structure Definitions where
  table : SymbolTable
  reports : LinkReports

namespace Definitions

/-- Defines one name; the symbol is none if the name was taken. -/
def define (d : Definitions) (name : Ident) (kind : SymbolKind) (value : SymbolValue)
    (decl : Nat) (parent : Option SymbolId) : Option SymbolId × Definitions :=
  match d.table.insert ⟨name.name, kind, none, value, decl, parent⟩ with
  | .added id table => (some id, { d with table := table })
  | .taken holder =>
      match d.table.get? holder with
      | some info =>
          (none, { d with reports := d.reports ++ [⟨.redefined name.name info.kind, name.span⟩] })
      | none => (none, d)

/-- Defines the variants of one type, each with its position. -/
def defineVariants (kind : SymbolKind) (position : Nat → SymbolValue) (decl : Nat)
    (parent : SymbolId) : Nat → List Ident → Definitions → Definitions
  | _, [], d => d
  | index, name :: rest, d =>
      defineVariants kind position decl parent (index + 1) rest
        (d.define name kind (position index) decl (some parent)).2

/-- Defines the names that declaration number `index` introduces. -/
def declare (d : Definitions) (index : Nat) : Decl → Definitions
  | .value v =>
      let value := match v.binding with
        | some symbol => SymbolValue.support symbol
        | none => .none
      (d.define v.name .value value index none).2
  | .enum e =>
      match d.define e.name .enum .none index none with
      | (some parent, d) => defineVariants .enumVariant .ordinal index parent 0 e.variants d
      | (none, d) => d
  | .union u =>
      match d.define u.name .union .none index none with
      | (some parent, d) =>
          defineVariants .unionVariant .tag index parent 0 (u.variants.map (·.name)) d
      | (none, d) => d
  | .register r => (d.define r.name .register .none index none).2
  | .function _ => d

/-- Defines the names of a list of declarations that starts at number `index`. -/
def declareAll : Nat → List Decl → Definitions → Definitions
  | _, [], d => d
  | index, decl :: rest, d => declareAll (index + 1) rest (d.declare index decl)

end Definitions

/-! ### Linking types -/

def NamedSort.symbolKind : NamedSort → SymbolKind
  | .enum => .enum
  | .union => .union

/-- The symbol that a named type denotes, or what is wrong with the name. -/
def resolveName (table : SymbolTable) (sort : NamedSort) (name : Ident) :
    Except LinkFault SymbolId :=
  match table.lookup? name.name with
  | none => .error (.undefinedType name.name)
  | some id =>
      match table.get? id with
      | none => .error (.undefinedType name.name)
      | some info =>
          if info.kind = sort.symbolKind then .ok id
          else .error (.wrongSort name.name info.kind sort.symbolKind)

mutual

/-- Links every named type inside a type; one that denotes nothing stays as it is. -/
def TypeExpr.link (table : SymbolTable) : TypeExpr → TypeExpr × LinkReports
  | .base type span => (.base type span, [])
  | .named sort name definition span =>
      match resolveName table sort name with
      | .ok id => (.named sort name (some id) span, [])
      | .error fault => (.named sort name definition span, [⟨fault, name.span⟩])
  | .tuple items span =>
      let (items, reports) := TypeExpr.linkAll table items
      (.tuple items span, reports)
  | .function params result span =>
      let (params, reports) := TypeExpr.linkAll table params
      let (result, more) := result.link table
      (.function params result span, reports ++ more)

def TypeExpr.linkAll (table : SymbolTable) : List TypeExpr → List TypeExpr × LinkReports
  | [] => ([], [])
  | type :: rest =>
      let (type, reports) := type.link table
      let (rest, more) := TypeExpr.linkAll table rest
      (type :: rest, reports ++ more)

end

def UnionVariant.link (table : SymbolTable) (v : UnionVariant) : UnionVariant × LinkReports :=
  let (payload, reports) := v.payload.link table
  ({ v with payload := payload }, reports)

def Stmt.link (table : SymbolTable) (s : Stmt) : Stmt × LinkReports :=
  match s.kind with
  | .declare name type init =>
      let (type, reports) := type.link table
      ({ s with kind := .declare name type init }, reports)
  | _ => (s, [])

def linkEach {α : Type} (link : α → α × LinkReports) : List α → List α × LinkReports
  | [] => ([], [])
  | a :: rest =>
      let (a, reports) := link a
      let (rest, more) := linkEach link rest
      (a :: rest, reports ++ more)

def Decl.link (table : SymbolTable) : Decl → Decl × LinkReports
  | .value v =>
      let (type, reports) := v.type.link table
      (.value { v with type := type }, reports)
  | .union u =>
      let (variants, reports) := linkEach (UnionVariant.link table) u.variants
      (.union { u with variants := variants }, reports)
  | .register r =>
      let (type, reports) := r.type.link table
      (.register { r with type := type }, reports)
  | .function f =>
      let (body, reports) := linkEach (Stmt.link table) f.body
      (.function { f with body := body }, reports)
  | .enum e => (.enum e, [])

/-! ### Recording types -/

/-- Records the type of a name, provided that declaration number `decl` introduced it. -/
def recordType (decl : Nat) (table : SymbolTable) (name : String) (type : TypeExpr) :
    SymbolTable :=
  match table.lookup? name with
  | none => table
  | some id =>
      match table.get? id with
      | none => table
      | some info => if info.decl = decl then table.setType id type else table

def Decl.recordTypes (table : SymbolTable) (index : Nat) : Decl → SymbolTable
  | .value v => recordType index table v.name.name v.type
  | .register r => recordType index table r.name.name r.type
  | .union u =>
      u.variants.foldl (fun table v => recordType index table v.name.name v.payload) table
  | .enum _ | .function _ => table

/-- Records the types that a list of declarations gives, the first of which has number `index`. -/
def recordAll : Nat → List Decl → SymbolTable → SymbolTable
  | _, [], table => table
  | index, decl :: rest, table => recordAll (index + 1) rest (decl.recordTypes table index)

/-! ### Checking bodies -/

/-- What is wrong with a first body of that name. -/
def bodyFault? (table : SymbolTable) (name : String) : Option LinkFault :=
  match table.info? name with
  | none => some (.noSignature name)
  | some info =>
      match info.kind, info.value with
      | .value, .support _ => some (.boundAndDefined name)
      | .value, _ =>
          if (info.type.map TypeExpr.isFunction).getD false then none
          else some (.notAFunctionType name)
      | kind, _ => some (.notAFunction name kind)

/-- Checks the bodies of a module in order; `seen` holds the names that had a body before. -/
def checkBodies (table : SymbolTable) : (seen : List String) → List FunctionDecl → LinkReports
  | _, [] => []
  | seen, f :: rest =>
      let fault :=
        if seen.contains f.name.name then some (.secondBody f.name.name)
        else bodyFault? table f.name.name
      (fault.map fun cause => ⟨cause, f.name.span⟩).toList ++
        checkBodies table (f.name.name :: seen) rest

end Tree

/-- A module whose named types hold their symbols, and the table of these. -/
structure LinkedModule where
  tree : Tree.Module
  symbols : SymbolTable
deriving Repr

/-- Links a module. The table is complete, and the module linked as far as can be, also when there
are faults. -/
def Tree.Module.link (m : Tree.Module) : LinkedModule × LinkReports :=
  let defined := Definitions.declareAll 0 m.decls ⟨.empty, []⟩
  let (decls, linkReports) := linkEach (Decl.link defined.table) m.decls
  let table := recordAll 0 decls defined.table
  let linked : Tree.Module := { m with decls := decls }
  (⟨linked, table⟩,
    defined.reports ++ linkReports ++ checkBodies table [] linked.functions)

end JumpIR
