import JumpIR.Lowering.Operand
import JumpIR.Proofs.Outcome
import JumpIR.Proofs.Program.Closed

/-!
# What a program says of its module

The types, operands and operations of a program against those of the module that it was compiled
from. Numbers denote what the module names in their place: a local or a register of that name, a
variant of that name, the function or the support operation that is called. Main definition:
`Module.Becomes`; such a program is closed.
-/

set_option autoImplicit false

namespace JumpIR

namespace Tree

/-! ### Definitions of a module -/

def Decl.enum? : Decl → Option EnumDecl
  | .enum e => some e
  | _ => none

def Decl.union? : Decl → Option UnionDecl
  | .union u => some u
  | _ => none

def Decl.register? : Decl → Option RegisterDecl
  | .register r => some r
  | _ => none

def Module.enums (m : Module) : List EnumDecl := m.decls.filterMap Decl.enum?

def Module.unions (m : Module) : List UnionDecl := m.decls.filterMap Decl.union?

def Module.registers (m : Module) : List RegisterDecl := m.decls.filterMap Decl.register?

theorem Module.mem_enums {m : Module} {e : EnumDecl} : e ∈ m.enums ↔ .enum e ∈ m.decls := by
  constructor
  · intro member
    obtain ⟨decl, inDecls, isEnum⟩ := List.mem_filterMap.mp member
    cases decl <;> cases isEnum
    exact inDecls
  · exact fun member => List.mem_filterMap.mpr ⟨_, member, rfl⟩

theorem Module.mem_unions {m : Module} {u : UnionDecl} : u ∈ m.unions ↔ .union u ∈ m.decls := by
  constructor
  · intro member
    obtain ⟨decl, inDecls, isUnion⟩ := List.mem_filterMap.mp member
    cases decl <;> cases isUnion
    exact inDecls
  · exact fun member => List.mem_filterMap.mpr ⟨_, member, rfl⟩

theorem Module.mem_registers {m : Module} {r : RegisterDecl} :
    r ∈ m.registers ↔ .register r ∈ m.decls := by
  constructor
  · intro member
    obtain ⟨decl, inDecls, isRegister⟩ := List.mem_filterMap.mp member
    cases decl <;> cases isRegister
    exact inDecls
  · exact fun member => List.mem_filterMap.mpr ⟨_, member, rfl⟩

theorem Module.mem_functions {m : Module} {f : FunctionDecl} :
    f ∈ m.functions ↔ .function f ∈ m.decls := by
  constructor
  · intro member
    obtain ⟨decl, inDecls, isFunction⟩ := List.mem_filterMap.mp member
    cases decl <;> cases isFunction
    exact inDecls
  · exact fun member => List.mem_filterMap.mpr ⟨_, member, rfl⟩

variable {p : Program} {d : FunctionDef}

/-! ### Types -/

def BaseType.ty : BaseType → Ty
  | .unit => .unit
  | .bool => .bool
  | .int | .int64 => .int
  | .bit => .bit
  | .string => .string
  | .bits width => .bits (width.getD 64)

mutual

inductive TypeExpr.Denotes (p : Program) : TypeExpr → Ty → Prop where
  | base {type span} : Denotes p (.base type span) type.ty
  | tuple {items types span} (all : TypeExpr.AllDenote p items types) :
      Denotes p (.tuple items span) (.tuple types)
  | enum {name definition span id} (named : p.enumName? id = some name.name) :
      Denotes p (.named .enum name definition span) (.enum id)
  | union {name definition span id} (named : p.unionName? id = some name.name) :
      Denotes p (.named .union name definition span) (.union id)

inductive TypeExpr.AllDenote (p : Program) : List TypeExpr → List Ty → Prop where
  | nil : AllDenote p [] []
  | cons {item items type types} (first : TypeExpr.Denotes p item type)
      (rest : TypeExpr.AllDenote p items types) : AllDenote p (item :: items) (type :: types)

end

mutual

theorem TypeExpr.Denotes.closed : ∀ {t : TypeExpr} {type : Ty}, t.Denotes p type → type.Closed p
  | .base type _, _, .base => by cases type <;> trivial
  | _, _, .tuple all => TypeExpr.AllDenote.closed all
  | _, _, .enum known => by
      obtain ⟨e, found, _same⟩ := Option.map_eq_some_iff.mp known
      exact (List.getElem?_eq_some_iff.mp found).1
  | _, _, .union known => by
      obtain ⟨u, found, _same⟩ := Option.map_eq_some_iff.mp known
      exact (List.getElem?_eq_some_iff.mp found).1

theorem TypeExpr.AllDenote.closed : ∀ {ts : List TypeExpr} {types : List Ty},
    TypeExpr.AllDenote p ts types → Ty.AllClosed p types
  | _, _, .nil => trivial
  | _, _, .cons first rest => ⟨first.closed, TypeExpr.AllDenote.closed rest⟩

end

theorem TypeExpr.AllDenote.related : ∀ {ts : List TypeExpr} {types : List Ty},
    TypeExpr.AllDenote p ts types → List.Forall₂ (TypeExpr.Denotes p) ts types
  | _, _, .nil => .nil
  | _, _, .cons first rest => .cons first rest.related

/-! ### Expressions and places -/

mutual

/-- The operand of a function `d` stands for the expression. -/
inductive Expr.Denotes (p : Program) (d : FunctionDef) : Expr → Operand → Prop where
  | localVar {name span id l} (found : d.locals[id.index]? = some l) (named : l.name = name.name) :
      Denotes p d (.name name span) (.localVar id)
  | register {name span id} (named : p.registerName? id = some name.name) :
      Denotes p d (.name name span) (.register id)
  | ordinal {name span id ordinal} (named : p.ordinalName? id ordinal = some name.name) :
      Denotes p d (.name name span) (.const (.enum id ordinal))
  | literal {value span} :
      Denotes p d (.literal value span) (.const (Lowering.Scope.literalConst value))
  | construct {callee args items span union tag}
      (named : p.variantName? union tag = some callee.name)
      (all : Expr.AllDenote p d args items) :
      Denotes p d (.call callee args span) (Lowering.Scope.construct union tag items)
  | prim {op prim args items span} (named : prim.name = op.name)
      (all : Expr.AllDenote p d args items) : Denotes p d (.prim op args span) (.prim prim items)
  | isNot {value variant span operand union tag}
      (named : p.variantName? union tag = some variant.name)
      (inner : Expr.Denotes p d value operand) :
      Denotes p d (.isNot value variant span) (.prim .not [.isVariant operand union tag])
  | project {value variant span operand union tag}
      (named : p.variantName? union tag = some variant.name)
      (inner : Expr.Denotes p d value operand) :
      Denotes p d (.project value variant span) (.asVariant operand union tag)
  | field {value index span operand} (inner : Expr.Denotes p d value operand) :
      Denotes p d (.field value index span) (.field operand index)
  | exception {part span} : Denotes p d (.exception part span) (.exception part)

inductive Expr.AllDenote (p : Program) (d : FunctionDef) : List Expr → List Operand → Prop where
  | nil : AllDenote p d [] []
  | cons {e es operand operands} (first : Expr.Denotes p d e operand)
      (rest : Expr.AllDenote p d es operands) : AllDenote p d (e :: es) (operand :: operands)

end

inductive Place.Denotes (p : Program) (d : FunctionDef) : Place → JumpIR.Place → Prop where
  | localVar {name path id l} (found : d.locals[id.index]? = some l) (named : l.name = name.name) :
      Denotes p d (.named name path) ⟨.localVar id, path⟩
  | register {name path id} (named : p.registerName? id = some name.name) :
      Denotes p d (.named name path) ⟨.register id, path⟩
  | result : Denotes p d .result (.whole .result)
  | exception {part} : Denotes p d (.exception part) (.whole (.exception part))

/-! ### Statements -/

/-- The value of the module is bound to the support operation. -/
structure ValueDecl.Binds (p : Program) (v : ValueDecl) (op : SupportDef) : Prop where
  name : op.name = v.name.name
  symbol : v.binding = some op.symbol
  type : ∃ params result span, v.type = .function params result span ∧
    TypeExpr.AllDenote p params op.params ∧ result.Denotes p op.result

/-- A call of the name calls that function or support operation. -/
inductive Module.Calls (m : Module) (p : Program) (name : String) : Callee → Prop where
  | function {id callee} (found : p.function? id = some callee) (named : callee.name = name) :
      Calls m p name (.function id)
  | support {id op v} (found : p.support? id = some op) (named : op.name = name)
      (declared : .value v ∈ m.decls) (binds : v.Binds p op) : Calls m p name (.support id)

/-- The statement stores a value in a place. -/
inductive StmtKind.Stores (p : Program) (d : FunctionDef) :
    StmtKind → JumpIR.Place → Expr → Prop where
  | assign {target value dest} (denotes : target.Denotes p d dest) :
      Stores p d (.assign target value) dest value
  | init {name type value id l} (found : d.locals[id.index]? = some l)
      (named : l.name = name.name) :
      Stores p d (.declare name type (some value)) (.whole (.localVar id)) value

/-- The operation is part of what the statement does. -/
inductive StmtKind.Yields (m : Module) (p : Program) (d : FunctionDef) : StmtKind → Op → Prop where
  | declare {name type init id l} (found : d.locals[id.index]? = some l)
      (named : l.name = name.name) : Yields m p d (.declare name type init) (.declare id)
  | assign {kind dest value operand} (stores : StmtKind.Stores p d kind dest value)
      (denotes : value.Denotes p d operand) : Yields m p d kind (.assign dest operand)
  | call {kind dest name args span callee items}
      (stores : StmtKind.Stores p d kind dest (.call name args span))
      (calls : m.Calls p name.name callee) (all : Expr.AllDenote p d args items) :
      Yields m p d kind (.call (some dest) callee items)

/-- A block of the body ends like that: in blocks of the function, and on a condition that is the
one of a jump of the body or asks for a pending exception. -/
structure FunctionDecl.Ends (f : FunctionDecl) (p : Program) (d : FunctionDef) (t : Terminator) :
    Prop where
  successors : ∀ id ∈ t.successors, id.index < d.blocks.length
  conds : ∀ cond ∈ t.conds, cond = .exception .pending ∨ ∃ stmt ∈ f.body, ∃ value target location,
    stmt.kind = .jump value target location ∧ value.Denotes p d cond

/-! ### Functions -/

/-- The local is a parameter, or a statement declares it, with the type that is denoted. -/
inductive FunctionDecl.HasLocal (f : FunctionDecl) (p : Program) (params : List TypeExpr)
    (l : LocalDef) : Prop where
  | param {index : Nat} {name : Ident} {type : TypeExpr} (found : f.params[index]? = some name)
      (typed : params[index]? = some type) (named : l.name = name.name)
      (denotes : type.Denotes p l.type) : HasLocal f p params l
  | declared {stmt : Stmt} {name type init} (inBody : stmt ∈ f.body)
      (kind : stmt.kind = .declare name type init) (named : l.name = name.name)
      (denotes : type.Denotes p l.type) : HasLocal f p params l

/-- The function of the program does what the one of the module says, and names what that names. -/
structure FunctionDecl.Becomes (m : Module) (p : Program) (f : FunctionDecl) (d : FunctionDef) :
    Prop where
  name : d.name = f.name.name
  nonempty : d.blocks ≠ []
  entry : d.entry.index < d.blocks.length
  signature : ∃ v params result span, .value v ∈ m.decls ∧ v.name.name = f.name.name ∧
    v.type = .function params result span ∧ params.length = f.params.length ∧
    result.Denotes p d.result ∧ ∀ l ∈ d.locals, f.HasLocal p params l
  ops : ∀ block ∈ d.blocks, ∀ op ∈ block.ops, ∃ stmt ∈ f.body, stmt.kind.Yields m p d op
  ends : ∀ block ∈ d.blocks, f.Ends p d block.terminator

/-! ### Modules -/

def EnumDecl.def (e : EnumDecl) : EnumDef := ⟨e.name.name, e.variants.map (·.name)⟩

structure UnionVariant.Becomes (p : Program) (v : UnionVariant) (d : VariantDef) : Prop where
  name : d.name = v.name.name
  payload : v.payload.Denotes p d.payload

structure UnionDecl.Becomes (p : Program) (u : UnionDecl) (d : UnionDef) : Prop where
  name : d.name = u.name.name
  variants : List.Forall₂ (UnionVariant.Becomes p) u.variants d.variants

structure RegisterDecl.Becomes (p : Program) (r : RegisterDecl) (d : RegisterDef) : Prop where
  name : d.name = r.name.name
  type : r.type.Denotes p d.type

/-- The program has the definitions of the module in their order. -/
structure Module.Becomes (m : Module) (p : Program) : Prop where
  enums : p.enums = m.enums.map EnumDecl.def
  unions : List.Forall₂ (UnionDecl.Becomes p) m.unions p.unions
  registers : List.Forall₂ (RegisterDecl.Becomes p) m.registers p.registers
  supports : ∀ op ∈ p.supports, ∃ v, .value v ∈ m.decls ∧ v.Binds p op
  functions : List.Forall₂ (FunctionDecl.Becomes m p) m.functions p.functions

/-! ### Programs of modules are closed -/

theorem lt_of_registerName? {id : RegisterId} {name : String}
    (known : p.registerName? id = some name) : id.index < p.registers.length := by
  obtain ⟨r, found, _same⟩ := Option.map_eq_some_iff.mp known
  exact (List.getElem?_eq_some_iff.mp found).1

theorem hasOrdinal_of_ordinalName? {id : EnumId} {ordinal : Nat} {name : String}
    (known : p.ordinalName? id ordinal = some name) : p.HasOrdinal id ordinal := by
  obtain ⟨e, found, position⟩ := Option.bind_eq_some_iff.mp known
  exact ⟨e, found, (List.getElem?_eq_some_iff.mp position).1⟩

theorem hasTag_of_variantName? {union : UnionId} {tag : Nat} {name : String}
    (known : p.variantName? union tag = some name) : p.HasTag union tag := by
  obtain ⟨u, found, known⟩ := Option.bind_eq_some_iff.mp known
  obtain ⟨v, position, _same⟩ := Option.bind_eq_some_iff.mp known
  exact ⟨u, found, (List.getElem?_eq_some_iff.mp position).1⟩

theorem closed_construct {union : UnionId} {tag : Nat} {items : List Operand}
    (tagged : p.HasTag union tag) (closed : Operand.AllClosed p d items) :
    (Lowering.Scope.construct union tag items).Closed p d := by
  unfold Lowering.Scope.construct
  split
  · exact ⟨tagged, trivial⟩
  · exact ⟨tagged, closed.1⟩
  · exact ⟨tagged, closed⟩

mutual

theorem Expr.Denotes.closed : ∀ {e : Expr} {operand : Operand},
    e.Denotes p d operand → operand.Closed p d
  | _, _, .localVar found _ => (List.getElem?_eq_some_iff.mp found).1
  | _, _, .register known => lt_of_registerName? known
  | _, _, .ordinal known => hasOrdinal_of_ordinalName? known
  | .literal value _, _, .literal => by cases value <;> trivial
  | _, _, .construct known all =>
      closed_construct (hasTag_of_variantName? known) (Expr.AllDenote.closed all)
  | _, _, .prim _ all => Expr.AllDenote.closed all
  | _, _, .isNot known inner => ⟨⟨hasTag_of_variantName? known, inner.closed⟩, trivial⟩
  | _, _, .project known inner => ⟨hasTag_of_variantName? known, inner.closed⟩
  | _, _, .field inner => inner.closed
  | _, _, .exception => trivial

theorem Expr.AllDenote.closed : ∀ {es : List Expr} {operands : List Operand},
    Expr.AllDenote p d es operands → Operand.AllClosed p d operands
  | _, _, .nil => trivial
  | _, _, .cons first rest => ⟨first.closed, Expr.AllDenote.closed rest⟩

end

theorem Expr.AllDenote.related : ∀ {es : List Expr} {operands : List Operand},
    Expr.AllDenote p d es operands → List.Forall₂ (Expr.Denotes p d) es operands
  | _, _, .nil => .nil
  | _, _, .cons first rest => .cons first rest.related

theorem Place.Denotes.closed {target : Place} {dest : JumpIR.Place}
    (denotes : target.Denotes p d dest) : dest.Closed p d := by
  cases denotes with
  | localVar found known => exact (List.getElem?_eq_some_iff.mp found).1
  | register known => exact lt_of_registerName? known
  | result => trivial
  | exception => trivial

theorem StmtKind.Stores.closed {kind : StmtKind} {dest : JumpIR.Place} {value : Expr}
    (stores : kind.Stores p d dest value) : dest.Closed p d := by
  cases stores with
  | assign denotes => exact denotes.closed
  | init found known => exact (List.getElem?_eq_some_iff.mp found).1

theorem Module.Calls.closed {m : Module} {name : String} {callee : Callee}
    (calls : m.Calls p name callee) : callee.Closed p := by
  cases calls with
  | function found known => exact (List.getElem?_eq_some_iff.mp found).1
  | support found known declared binds => exact (List.getElem?_eq_some_iff.mp found).1

theorem StmtKind.Yields.closed {m : Module} {kind : StmtKind} {op : Op}
    (yields : kind.Yields m p d op) : op.Closed p d := by
  cases yields with
  | declare found known => exact (List.getElem?_eq_some_iff.mp found).1
  | assign stores denotes => exact ⟨stores.closed, denotes.closed⟩
  | call stores calls all =>
      refine ⟨?_, calls.closed, Expr.AllDenote.closed all⟩
      intro place member
      cases member
      exact stores.closed

theorem FunctionDecl.Ends.closed {f : FunctionDecl} {t : Terminator} (ends : f.Ends p d t) :
    t.Closed p d := by
  refine ⟨ends.successors, ?_⟩
  intro cond member
  rcases ends.conds cond member with rfl | ⟨stmt, _inBody, value, target, location, _kind, denotes⟩
  · trivial
  · exact denotes.closed

theorem FunctionDecl.Becomes.closed {m : Module} {f : FunctionDecl}
    (becomes : f.Becomes m p d) : d.Closed p := by
  obtain ⟨v, params, result, span, _declared, _named, _type, _arity, ofResult, ofLocals⟩ :=
    becomes.signature
  refine ⟨becomes.nonempty, becomes.entry, ?_, ?_, ofResult.closed⟩
  · intro block member
    refine ⟨?_, (becomes.ends block member).closed⟩
    intro op inBlock
    obtain ⟨stmt, _inBody, yields⟩ := becomes.ops block member op inBlock
    exact yields.closed
  · intro l member
    cases ofLocals l member with
    | param found typed known denotes => exact denotes.closed
    | declared inBody kind known denotes => exact denotes.closed

theorem Module.Becomes.closed {m : Module} (becomes : m.Becomes p) : p.Closed where
  unions := by
    intro u member v inUnion
    obtain ⟨decl, _inModule, same⟩ := exists_source becomes.unions member
    obtain ⟨variant, _inDecl, same⟩ := exists_source same.variants inUnion
    exact same.payload.closed
  registers := by
    intro r member
    obtain ⟨decl, _inModule, same⟩ := exists_source becomes.registers member
    exact same.type.closed
  supports := by
    intro op member
    obtain ⟨v, _declared, binds⟩ := becomes.supports op member
    obtain ⟨params, result, span, _type, ofParams, ofResult⟩ := binds.type
    exact ⟨Ty.allClosed_iff.mp ofParams.closed, ofResult.closed⟩
  functions := by
    intro d member
    obtain ⟨f, _inModule, same⟩ := exists_source becomes.functions member
    exact same.closed

end Tree

end JumpIR
