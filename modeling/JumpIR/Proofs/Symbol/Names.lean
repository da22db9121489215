import JumpIR.Symbol.Linking

/-!
# What a module names

The names that a module defines and the types that it refers to by name, read off its declarations.
`WellNamed` says when the two fit together, and `infosFrom` lists the entries that the symbol table
of such a module has.
-/

set_option autoImplicit false

namespace JumpIR.Tree

/-! ### Names -/

/-- The global names that a declaration introduces. -/
def Decl.names : Decl → List String
  | .value v => [v.name.name]
  | .enum e => e.name.name :: e.variants.map (·.name)
  | .union u => u.name.name :: u.variants.map (·.name.name)
  | .register r => [r.name.name]
  | .function _ => []

def Module.names (m : Module) : List String := m.decls.flatMap Decl.names

/-! ### References to types -/

/-- An enum or a union that a type names, and the symbol it is linked to. -/
structure TypeRef where
  sort : NamedSort
  name : Ident
  definition : Option SymbolId

mutual

/-- The named types inside a type, at any depth. -/
def TypeExpr.refs : TypeExpr → List TypeRef
  | .base _ _ => []
  | .tuple items _ => TypeExpr.allRefs items
  | .named sort name definition _ => [⟨sort, name, definition⟩]
  | .function params result _ => TypeExpr.allRefs params ++ result.refs

def TypeExpr.allRefs : List TypeExpr → List TypeRef
  | [] => []
  | type :: rest => type.refs ++ TypeExpr.allRefs rest

end

def Stmt.refs (s : Stmt) : List TypeRef :=
  match s.kind with
  | .declare _ type _ => type.refs
  | _ => []

def Decl.refs : Decl → List TypeRef
  | .value v => v.type.refs
  | .enum _ => []
  | .union u => u.variants.flatMap (·.payload.refs)
  | .function f => f.body.flatMap Stmt.refs
  | .register r => r.type.refs

def Module.refs (m : Module) : List TypeRef := m.decls.flatMap Decl.refs

/-! ### Forgetting links -/

mutual

/-- A type as it is written, without the symbols that its names are linked to. -/
def TypeExpr.unlinked : TypeExpr → TypeExpr
  | .base type span => .base type span
  | .tuple items span => .tuple (TypeExpr.allUnlinked items) span
  | .named sort name _ span => .named sort name none span
  | .function params result span => .function (TypeExpr.allUnlinked params) result.unlinked span

def TypeExpr.allUnlinked : List TypeExpr → List TypeExpr
  | [] => []
  | type :: rest => type.unlinked :: TypeExpr.allUnlinked rest

end

def UnionVariant.unlinked (v : UnionVariant) : UnionVariant :=
  { v with payload := v.payload.unlinked }

def Stmt.unlinked (s : Stmt) : Stmt :=
  match s.kind with
  | .declare name type init => { s with kind := .declare name type.unlinked init }
  | _ => s

def Decl.unlinked : Decl → Decl
  | .value v => .value { v with type := v.type.unlinked }
  | .enum e => .enum e
  | .union u => .union { u with variants := u.variants.map UnionVariant.unlinked }
  | .function f => .function { f with body := f.body.map Stmt.unlinked }
  | .register r => .register { r with type := r.type.unlinked }

def Module.unlinked (m : Module) : Module := { m with decls := m.decls.map Decl.unlinked }

/-! ### Modules whose names fit -/

/-- The module has a type of that sort and name, before or behind the place that refers to it. -/
def Module.Defines (m : Module) (name : String) : NamedSort → Prop
  | .enum => ∃ e, .enum e ∈ m.decls ∧ e.name.name = name
  | .union => ∃ u, .union u ∈ m.decls ∧ u.name.name = name

structure WellNamed (m : Module) : Prop where
  distinct : m.names.Nodup
  defined : ∀ ref ∈ m.refs, m.Defines ref.name.name ref.sort
  oneBody : (m.functions.map (·.name.name)).Nodup
  /-- The name of a body is that of a value with a function type that no support operation is
  bound to. -/
  signed : ∀ f ∈ m.functions, ∃ v, .value v ∈ m.decls ∧ v.name.name = f.name.name ∧
    v.binding = none ∧ v.type.isFunction = true

/-! ### Entries -/

/-- The entries of a declaration of that number, the first of which is symbol number `first`. -/
def Decl.infos (index first : Nat) : Decl → List SymbolInfo
  | .value v =>
      [⟨v.name.name, .value, some v.type, (v.binding.map .support).getD .none, index, none⟩]
  | .enum e =>
      ⟨e.name.name, .enum, none, .none, index, none⟩ :: e.variants.zipIdx.map fun (v, n) =>
        ⟨v.name, .enumVariant, none, .ordinal n, index, some ⟨first⟩⟩
  | .union u =>
      ⟨u.name.name, .union, none, .none, index, none⟩ :: u.variants.zipIdx.map fun (v, n) =>
        ⟨v.name.name, .unionVariant, some v.payload, .tag n, index, some ⟨first⟩⟩
  | .function _ => []
  | .register r => [⟨r.name.name, .register, some r.type, .none, index, none⟩]

/-- The entries of declarations that follow `index` other ones with `first` entries. -/
def infosFrom : (index first : Nat) → List Decl → List SymbolInfo
  | _, _, [] => []
  | index, first, decl :: rest =>
      decl.infos index first ++ infosFrom (index + 1) (first + (decl.infos index first).length) rest

private theorem map_fst_zipIdx {α β : Type} (f : α → β) (list : List α) (n : Nat) :
    (list.zipIdx n).map (fun item => f item.1) = list.map f := by
  have back := congrArg (List.map f) (List.zipIdx_map_fst n list)
  rw [List.map_map] at back
  exact back

theorem Decl.names_infos (decl : Decl) (index first : Nat) :
    (decl.infos index first).map (·.name) = decl.names := by
  cases decl with
  | value v => rfl
  | enum e =>
      rw [infos, List.map_cons, List.map_map]
      exact congrArg (_ :: ·) (map_fst_zipIdx (fun v : Ident => v.name) e.variants 0)
  | union u =>
      rw [infos, List.map_cons, List.map_map]
      exact congrArg (_ :: ·) (map_fst_zipIdx (fun v : UnionVariant => v.name.name) u.variants 0)
  | function f => rfl
  | register r => rfl

theorem names_infosFrom (decls : List Decl) (index first : Nat) :
    (infosFrom index first decls).map (·.name) = decls.flatMap Decl.names := by
  induction decls generalizing index first with
  | nil => rfl
  | cons decl rest ih =>
      rw [infosFrom, List.map_append, Decl.names_infos, ih, List.flatMap_cons]

end JumpIR.Tree
