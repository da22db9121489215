import JumpIR.Tree.Basic

/-!
# The symbol table

All global names share one namespace: values, enums, unions, registers, and the variants of enums
and unions. The table lists what each of them denotes in the order of their definition; the number
of an entry is its symbol.
-/

set_option autoImplicit false

namespace JumpIR

inductive SymbolKind where
  | value
  | enum
  | enumVariant
  | union
  | unionVariant
  | register
deriving DecidableEq, Repr

def SymbolKind.describe : SymbolKind → String
  | .value => "global value"
  | .enum => "enum"
  | .enumVariant => "enum variant"
  | .union => "union"
  | .unionVariant => "union variant"
  | .register => "register"

/-- What a name stands for, beside its type. -/
inductive SymbolValue where
  | none
  | ordinal (n : Nat)
  | tag (n : Nat)
  | support (symbol : String)
deriving DecidableEq, Repr

structure SymbolInfo where
  name : String
  kind : SymbolKind
  /-- The declared type of a value or register, or the payload type of a union's variant. -/
  type : Option Tree.TypeExpr
  value : SymbolValue
  /-- The number of the declaration that introduces the name. -/
  decl : Nat
  /-- The enum or union that a variant belongs to. -/
  parent : Option SymbolId
deriving Repr

structure SymbolTable where
  infos : Array SymbolInfo
deriving Repr

namespace SymbolTable

def empty : SymbolTable := ⟨#[]⟩

def size (table : SymbolTable) : Nat := table.infos.size

def lookup? (table : SymbolTable) (name : String) : Option SymbolId :=
  (table.infos.findIdx? fun info => info.name == name).map SymbolId.mk

def get? (table : SymbolTable) (id : SymbolId) : Option SymbolInfo := table.infos[id.index]?

def info? (table : SymbolTable) (name : String) : Option SymbolInfo :=
  (table.lookup? name).bind table.get?

inductive Insertion where
  | added (id : SymbolId) (table : SymbolTable)
  /-- The name belongs to another symbol, and the table stays as it is. -/
  | taken (holder : SymbolId)
deriving Repr

/-- Adds a name that is not yet there. -/
def insert (table : SymbolTable) (info : SymbolInfo) : Insertion :=
  match table.lookup? info.name with
  | some holder => .taken holder
  | none => .added ⟨table.size⟩ ⟨table.infos.push info⟩

def setType (table : SymbolTable) (id : SymbolId) (type : Tree.TypeExpr) : SymbolTable :=
  ⟨table.infos.modify id.index fun info => { info with type := some type }⟩

def entries (table : SymbolTable) : List (SymbolId × SymbolInfo) :=
  table.infos.toList.zipIdx.map fun (info, index) => (⟨index⟩, info)

def variantsOf (table : SymbolTable) (parent : SymbolId) : List (SymbolId × SymbolInfo) :=
  table.entries.filter fun (_, info) => info.parent == some parent

end SymbolTable

end JumpIR
