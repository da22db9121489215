import JumpIR.Proofs.Program.Denotation
import JumpIR.Proofs.Symbol.Names

/-!
# Modules that can be lowered

What a module must satisfy so that each of its bodies has a meaning, told by names alone: neither
the order of its declarations nor the symbols of its types matter. Main definition:
`Module.Admissible`.
-/

set_option autoImplicit false

namespace JumpIR.Tree

/-! ### Types -/

/-- What a type says, without places, symbols and second spellings of a base type. -/
inductive TypeForm where
  | unit
  | bool
  | int
  | bit
  | bits (width : Nat)
  | string
  | tuple (items : List TypeForm)
  | named (sort : NamedSort) (name : String)
  | function (params : List TypeForm) (result : TypeForm)

def BaseType.form : BaseType → TypeForm
  | .unit => .unit
  | .bool => .bool
  | .int | .int64 => .int
  | .bit => .bit
  | .string => .string
  | .bits width => .bits (width.getD 64)

mutual

def TypeExpr.form : TypeExpr → TypeForm
  | .base type _ => type.form
  | .tuple items _ => .tuple (TypeExpr.forms items)
  | .named sort name _ _ => .named sort name.name
  | .function params result _ => .function (TypeExpr.forms params) result.form

def TypeExpr.forms : List TypeExpr → List TypeForm
  | [] => []
  | type :: rest => type.form :: TypeExpr.forms rest

end

mutual

/-- The type is one of values, in which no function stands. -/
def TypeForm.isData : TypeForm → Bool
  | .unit | .bool | .int | .bit | .bits _ | .string | .named _ _ => true
  | .tuple items => TypeForm.allData items
  | .function _ _ => false

def TypeForm.allData : List TypeForm → Bool
  | [] => true
  | form :: rest => form.isData && TypeForm.allData rest

end

theorem TypeExpr.forms_eq_map (types : List TypeExpr) :
    TypeExpr.forms types = types.map TypeExpr.form := by
  induction types with
  | nil => rfl
  | cons type rest ih => rw [forms, ih, List.map_cons]

/-- The form of a function's type is one of no other type. -/
theorem TypeExpr.exists_of_form {type : TypeExpr} {params : List TypeForm} {result : TypeForm}
    (written : type.form = .function params result) :
    ∃ ps r span, type = .function ps r span ∧ TypeExpr.forms ps = params ∧ r.form = result := by
  cases type with
  | base base span => cases base <;> cases written
  | tuple items span => cases written
  | named sort name definition span => cases written
  | function ps r span =>
      cases written
      exact ⟨ps, r, span, rfl, rfl, rfl⟩

theorem TypeForm.allData_iff {forms : List TypeForm} :
    TypeForm.allData forms = true ↔ ∀ form ∈ forms, form.isData = true := by
  induction forms with
  | nil => simp [allData]
  | cons form rest ih => simp [allData, ih]

mutual

@[simp] theorem TypeExpr.form_unlinked : ∀ type : TypeExpr, type.unlinked.form = type.form
  | .base _ _ => rfl
  | .named _ _ _ _ => rfl
  | .tuple items _ => by rw [unlinked, form, form, TypeExpr.forms_unlinked items]
  | .function params result _ => by
      rw [unlinked, form, form, TypeExpr.forms_unlinked params, TypeExpr.form_unlinked result]

theorem TypeExpr.forms_unlinked : ∀ types : List TypeExpr,
    TypeExpr.forms (TypeExpr.allUnlinked types) = TypeExpr.forms types
  | [] => rfl
  | type :: rest => by
      rw [allUnlinked, forms, forms, TypeExpr.form_unlinked type, TypeExpr.forms_unlinked rest]

end

/-! ### Expressions -/

/-- What the names in a body may stand for. -/
structure Meanings where
  /-- The name stands for a value. -/
  value : String → Prop
  /-- The name stands for a place to store into. -/
  place : String → Prop
  /-- The name is that of a variant of a union. -/
  variant : String → Prop
  /-- The name can be called with that many arguments as a whole right-hand side. -/
  callee : String → Nat → Prop

mutual

def Expr.Admissible (names : Meanings) : Expr → Prop
  | .name used _ => names.value used.name
  | .literal _ _ | .exception _ _ => True
  | .call callee args _ => names.variant callee.name ∧ Expr.AllAdmissible names args
  | .prim op args _ =>
      (∃ prim, PrimOp.ofName? op.name = some prim ∧ prim.arity = args.length) ∧
        Expr.AllAdmissible names args
  | .isNot value variant _ | .project value variant _ =>
      names.variant variant.name ∧ value.Admissible names
  | .field value _ _ => value.Admissible names

def Expr.AllAdmissible (names : Meanings) : List Expr → Prop
  | [] => True
  | e :: rest => e.Admissible names ∧ Expr.AllAdmissible names rest

end

/-- What may stand as a whole right-hand side. Constructors take any number of arguments there, and
so do functions; a support operation takes its own. -/
def Expr.Assignable (names : Meanings) : Expr → Prop
  | .call callee args _ => names.callee callee.name args.length ∧ Expr.AllAdmissible names args
  | e => e.Admissible names

def Place.Admissible (names : Meanings) : Place → Prop
  | .named name _ => names.place name.name
  | .result | .exception _ => True

/-- A statement in a body of `size` statements. -/
def StmtKind.Admissible (names : Meanings) (size : Nat) : StmtKind → Prop
  | .declare _ _ init => ∀ value ∈ init, value.Assignable names
  | .assign target value => target.Admissible names ∧ value.Assignable names
  | .jump cond target _ => cond.Admissible names ∧ target < size
  | .goto target => target < size
  | .finish | .arbitrary | .unreachable => True

/-! ### Declarations -/

namespace Decl

def Stores (name : String) : Decl → Prop
  | .register r => r.name.name = name
  | _ => False

def HasOrdinal (name : String) : Decl → Prop
  | .enum e => ∃ v ∈ e.variants, v.name = name
  | _ => False

def HasTag (name : String) : Decl → Prop
  | .union u => ∃ v ∈ u.variants, v.name.name = name
  | _ => False

/-- The declaration gives the name the type of a function. -/
def Signs (name : String) (params : List TypeForm) (result : TypeForm) : Decl → Prop
  | .value v => v.name.name = name ∧ v.type.form = .function params result
  | _ => False

/-- A call of the name with that many arguments may run what the declaration stands for. -/
def Takes (name : String) (count : Nat) : Decl → Prop
  | .union u => ∃ v ∈ u.variants, v.name.name = name
  | .function f => f.name.name = name
  | .value v => v.name.name = name ∧ v.binding ≠ none ∧ ∃ params result,
      v.type.form = .function params result ∧ TypeForm.allData params = true ∧
      result.isData = true ∧ params.length = count
  | .enum _ | .register _ => False

/-- The types of what the declaration stores. -/
def stored : Decl → List TypeExpr
  | .union u => u.variants.map (·.payload)
  | .register r => [r.type]
  | .value _ | .enum _ | .function _ => []

end Decl

theorem Decl.Signs.exists_value {decl : Decl} {name : String} {params : List TypeForm}
    {result : TypeForm} (signs : decl.Signs name params result) :
    ∃ v, decl = .value v ∧ v.name.name = name ∧ v.type.form = .function params result := by
  cases decl with
  | value v => exact ⟨v, rfl, signs⟩
  | _ => cases signs

theorem Decl.refs_of_stored (decl : Decl) {type : TypeExpr} (stored : type ∈ decl.stored) :
    ∀ ref ∈ type.refs, ref ∈ decl.refs := by
  intro ref member
  cases decl with
  | value _ | enum _ | function _ => cases stored
  | register r =>
      cases List.mem_singleton.mp stored
      exact member
  | union u =>
      obtain ⟨v, inUnion, rfl⟩ := List.mem_map.mp stored
      exact List.mem_flatMap.mpr ⟨v, inUnion, member⟩

/-- What names stand for in a body of the module that declares these locals. -/
def Module.meanings (m : Module) (locals : List String) : Meanings where
  value name := name ∈ locals ∨ ∃ decl ∈ m.decls, decl.Stores name ∨ decl.HasOrdinal name
  place name := name ∈ locals ∨ ∃ decl ∈ m.decls, decl.Stores name
  variant name := ∃ decl ∈ m.decls, decl.HasTag name
  callee name count := ∃ decl ∈ m.decls, decl.Takes name count

def Stmt.declaration? (s : Stmt) : Option (String × TypeForm) :=
  match s.kind with
  | .declare name type _ => some (name.name, type.form)
  | _ => none

theorem Stmt.declarations_declare (name : Ident) (type : TypeExpr) (init : Option Expr)
    (span : Span) (rest : List Stmt) :
    (⟨.declare name type init, span⟩ :: rest : List Stmt).filterMap Stmt.declaration? =
      (name.name, type.form) :: rest.filterMap Stmt.declaration? := rfl

/-- A name that is declared again has the same type. -/
def Consistent (declared : List (String × TypeForm)) : Prop :=
  ∀ d ∈ declared, ∀ d' ∈ declared, d.1 = d'.1 → d.2 = d'.2

theorem Consistent.of_subset {declared others : List (String × TypeForm)}
    (consistent : Consistent declared) (subset : others ⊆ declared) : Consistent others :=
  fun d member d' member' => consistent d (subset member) d' (subset member')

/-- The locals that a function declares, by its parameters and by its statements. -/
def FunctionDecl.declarations (f : FunctionDecl) (params : List TypeForm) :
    List (String × TypeForm) :=
  (f.params.map (·.name)).zip params ++ f.body.filterMap Stmt.declaration?

structure FunctionDecl.Admissible (m : Module) (f : FunctionDecl) (params : List TypeForm)
    (result : TypeForm) : Prop where
  count : params.length = f.params.length
  result : result.isData = true
  data : ∀ d ∈ f.declarations params, d.2.isData = true
  consistent : Consistent (f.declarations params)
  body : ∀ stmt ∈ f.body, stmt.kind.Admissible
    (m.meanings ((f.declarations params).map Prod.fst)) f.body.length

theorem FunctionDecl.Admissible.data_params {m : Module} {f : FunctionDecl}
    {params : List TypeForm} {result : TypeForm} (admissible : f.Admissible m params result) :
    ∀ form ∈ params, form.isData = true := by
  have names : params.length ≤ (f.params.map (·.name)).length := by
    simp [admissible.count]
  intro form member
  rw [← List.map_snd_zip names] at member
  obtain ⟨d, inZip, rfl⟩ := List.mem_map.mp member
  exact admissible.data d (List.mem_append_left _ inZip)

structure Module.Admissible (m : Module) : Prop where
  stored : ∀ decl ∈ m.decls, ∀ type ∈ decl.stored, type.form.isData = true
  functions : ∀ f, .function f ∈ m.decls → ∃ decl ∈ m.decls, ∃ params result,
    decl.Signs f.name.name params result ∧ f.Admissible m params result

/-! ### Order -/

variable {m n : Module}

theorem meanings_congr (same : ∀ decl, decl ∈ m.decls ↔ decl ∈ n.decls) :
    m.meanings = n.meanings := by
  funext locals
  simp only [Module.meanings, same]

/-- Only which declarations a module has matters. -/
theorem Module.Admissible.congr (admissible : m.Admissible)
    (same : ∀ decl, decl ∈ m.decls ↔ decl ∈ n.decls) : n.Admissible := by
  refine ⟨fun decl member => admissible.stored decl ((same decl).mpr member), ?_⟩
  intro f member
  obtain ⟨decl, declared, params, result, signs, fits⟩ :=
    admissible.functions f ((same _).mpr member)
  refine ⟨decl, (same decl).mp declared, params, result, signs, ?_⟩
  exact { fits with body := meanings_congr same ▸ fits.body }

/-! ### Links -/

section Unlinked

variable {decl : Decl} {name : String}

theorem Decl.stores_unlinked : decl.unlinked.Stores name ↔ decl.Stores name := by
  cases decl <;> exact Iff.rfl

theorem Decl.hasOrdinal_unlinked : decl.unlinked.HasOrdinal name ↔ decl.HasOrdinal name := by
  cases decl <;> exact Iff.rfl

theorem Decl.hasTag_unlinked : decl.unlinked.HasTag name ↔ decl.HasTag name := by
  cases decl <;> simp [unlinked, HasTag, UnionVariant.unlinked]

theorem Decl.takes_unlinked {count : Nat} :
    decl.unlinked.Takes name count ↔ decl.Takes name count := by
  cases decl <;> simp [unlinked, Takes, UnionVariant.unlinked]

theorem Decl.signs_unlinked {params : List TypeForm} {result : TypeForm} :
    decl.unlinked.Signs name params result ↔ decl.Signs name params result := by
  cases decl <;> simp [unlinked, Signs]

theorem Decl.stored_unlinked (decl : Decl) :
    decl.unlinked.stored = decl.stored.map TypeExpr.unlinked := by
  cases decl <;> simp [unlinked, stored, UnionVariant.unlinked]

theorem Stmt.declaration?_unlinked (s : Stmt) : s.unlinked.declaration? = s.declaration? := by
  obtain ⟨kind, span⟩ := s
  cases kind <;> simp [unlinked, declaration?]

theorem Stmt.admissible_unlinked {s : Stmt} {names : Meanings} {size : Nat} :
    s.unlinked.kind.Admissible names size ↔ s.kind.Admissible names size := by
  obtain ⟨kind, span⟩ := s
  cases kind <;> exact Iff.rfl

theorem meanings_unlinked (m : Module) : m.unlinked.meanings = m.meanings := by
  funext locals
  simp only [Module.meanings, Module.unlinked, List.mem_map, exists_exists_and_eq_and,
    Decl.stores_unlinked, Decl.hasOrdinal_unlinked, Decl.hasTag_unlinked, Decl.takes_unlinked]

def FunctionDecl.unlinked (f : FunctionDecl) : FunctionDecl :=
  { f with body := f.body.map Stmt.unlinked }

theorem FunctionDecl.declarations_unlinked (f : FunctionDecl) (params : List TypeForm) :
    f.unlinked.declarations params = f.declarations params := by
  simp only [declarations, unlinked, List.filterMap_map, Function.comp_def,
    Stmt.declaration?_unlinked]

theorem FunctionDecl.admissible_unlinked {f : FunctionDecl} {params : List TypeForm}
    {result : TypeForm} :
    f.unlinked.Admissible m.unlinked params result ↔ f.Admissible m params result := by
  have declarations := f.declarations_unlinked params
  have body : (∀ stmt ∈ f.unlinked.body, stmt.kind.Admissible (m.unlinked.meanings
      ((f.unlinked.declarations params).map Prod.fst)) f.unlinked.body.length) ↔
      ∀ stmt ∈ f.body, stmt.kind.Admissible
        (m.meanings ((f.declarations params).map Prod.fst)) f.body.length := by
    rw [declarations, meanings_unlinked]
    simp only [unlinked, List.length_map, List.forall_mem_map, Stmt.admissible_unlinked]
  constructor
  · intro fits
    exact ⟨fits.count, fits.result, declarations ▸ fits.data, declarations ▸ fits.consistent,
      body.mp fits.body⟩
  · intro fits
    exact ⟨fits.count, fits.result, declarations ▸ fits.data, declarations ▸ fits.consistent,
      body.mpr fits.body⟩

theorem function_mem_unlinked {f : FunctionDecl} :
    .function f ∈ m.unlinked.decls ↔ ∃ f', .function f' ∈ m.decls ∧ f'.unlinked = f := by
  constructor
  · intro member
    obtain ⟨decl, declared, same⟩ := List.mem_map.mp member
    cases decl <;> cases same
    exact ⟨_, declared, rfl⟩
  · rintro ⟨f', declared, rfl⟩
    exact List.mem_map.mpr ⟨_, declared, rfl⟩

/-- The symbols that types hold do not matter. -/
theorem admissible_unlinked : m.unlinked.Admissible ↔ m.Admissible := by
  constructor
  · intro admissible
    constructor
    · intro decl member type inDecl
      have stored := admissible.stored decl.unlinked (List.mem_map_of_mem member) type.unlinked
        (decl.stored_unlinked ▸ List.mem_map_of_mem inDecl)
      rwa [TypeExpr.form_unlinked] at stored
    · intro f member
      obtain ⟨decl, declared, params, result, signs, fits⟩ :=
        admissible.functions f.unlinked (function_mem_unlinked.mpr ⟨f, member, rfl⟩)
      obtain ⟨decl', declared', rfl⟩ := List.mem_map.mp declared
      exact ⟨decl', declared', params, result, Decl.signs_unlinked.mp signs,
        FunctionDecl.admissible_unlinked.mp fits⟩
  · intro admissible
    constructor
    · intro decl member type inDecl
      obtain ⟨decl', declared, rfl⟩ := List.mem_map.mp member
      rw [Decl.stored_unlinked] at inDecl
      obtain ⟨type', inDecl', rfl⟩ := List.mem_map.mp inDecl
      rw [TypeExpr.form_unlinked]
      exact admissible.stored decl' declared type' inDecl'
    · intro f member
      obtain ⟨f', declared, rfl⟩ := function_mem_unlinked.mp member
      obtain ⟨decl, inDecls, params, result, signs, fits⟩ := admissible.functions f' declared
      exact ⟨decl.unlinked, List.mem_map_of_mem inDecls, params, result,
        Decl.signs_unlinked.mpr signs, FunctionDecl.admissible_unlinked.mpr fits⟩

end Unlinked

end JumpIR.Tree
