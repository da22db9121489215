import JumpIR.Proofs.Region.Grammar

/-!
# Nested regions

The outline of a tree is what is left of it when only the regions are kept. In the outline of a tree
that stands on a row of tokens in reading order each region lies within the one around it, and the
regions side by side come one after the other.
-/

set_option autoImplicit false

namespace JumpIR

/-- A tree of regions. -/
inductive Outline where
  | node (span : Span) (children : List Outline)

namespace Outline

def span : Outline → Span
  | node span _ => span

def children : Outline → List Outline
  | node _ children => children

/-- At every node the children lie within it, in source order and apart from each other. -/
inductive Nested : Outline → Prop where
  | node {span children} (within : ∀ o ∈ children, o.span.Within span)
      (ordered : children.Pairwise fun o o' => o.span.Before o'.span)
      (disjoint : children.Pairwise fun o o' => ∀ p, o.span.Holds p → ¬ o'.span.Holds p)
      (each : ∀ o ∈ children, o.Nested) : Nested (.node span children)

end Outline

/-! ### Outlines of trees -/

namespace Tree

def Ident.outline (i : Ident) : Outline := .node i.span []

mutual

def TypeExpr.outline : TypeExpr → Outline
  | .base _ span => .node span []
  | .tuple items span => .node span (TypeExpr.outlines items)
  | .named _ name _ span => .node span [name.outline]
  | .function params result span => .node span (TypeExpr.outlines params ++ [result.outline])

def TypeExpr.outlines : List TypeExpr → List Outline
  | [] => []
  | type :: rest => type.outline :: TypeExpr.outlines rest

end

mutual

def Expr.outline : Expr → Outline
  | .name i span => .node span [i.outline]
  | .literal _ span => .node span []
  | .call callee args span => .node span (callee.outline :: Expr.outlines args)
  | .prim op args span => .node span (op.outline :: Expr.outlines args)
  | .isNot value variant span => .node span [value.outline, variant.outline]
  | .project value variant span => .node span [value.outline, variant.outline]
  | .field value _ span => .node span [value.outline]
  | .exception _ span => .node span []

def Expr.outlines : List Expr → List Outline
  | [] => []
  | e :: rest => e.outline :: Expr.outlines rest

end

def Place.outlines : Tree.Place → List Outline
  | .named name _ => [name.outline]
  | .result | .exception _ => []

def StmtKind.outlines : StmtKind → List Outline
  | .declare name type none => [name.outline, type.outline]
  | .declare name type (some init) => [name.outline, type.outline, init.outline]
  | .assign target value => target.outlines ++ [value.outline]
  | .jump cond _ _ => [cond.outline]
  | .goto _ | .finish | .arbitrary | .unreachable => []

def Stmt.outline (s : Stmt) : Outline := .node s.span s.kind.outlines

/-- A variant of a union has no region of its own. -/
def UnionVariant.outlines (v : UnionVariant) : List Outline := [v.name.outline, v.payload.outline]

def Decl.outline : Decl → Outline
  | .value d => .node d.span [d.name.outline, d.type.outline]
  | .enum d => .node d.span (d.name.outline :: d.variants.map Ident.outline)
  | .union d => .node d.span (d.name.outline :: d.variants.flatMap UnionVariant.outlines)
  | .function d =>
      .node d.span (d.name.outline :: d.params.map Ident.outline ++ d.body.map Stmt.outline)
  | .register d => .node d.span [d.name.outline, d.type.outline]

def Module.outline (m : Module) : Outline := .node m.span (m.decls.map Decl.outline)

theorem TypeExpr.outlines_eq (types : List TypeExpr) :
    TypeExpr.outlines types = types.map TypeExpr.outline := by
  induction types with
  | nil => rfl
  | cons type rest ih => rw [TypeExpr.outlines, ih, List.map_cons]

theorem Expr.outlines_eq (es : List Expr) : Expr.outlines es = es.map Expr.outline := by
  induction es with
  | nil => rfl
  | cons e rest ih => rw [Expr.outlines, ih, List.map_cons]

theorem Expr.outline_withSpan (e : Expr) (span : Span) :
    (e.withSpan span).outline = .node span e.outline.children := by
  cases e <;> rfl

end Tree

/-! ### Outlines on tokens -/

namespace Outline

open JumpIR.Grammar

/-- A nested outline whose region is that of some of the tokens. -/
structure Fits (ts : List Token) (o : Outline) : Prop where
  nested : o.Nested
  stands : ∃ part, part ≠ [] ∧ part <:+: ts ∧ o.span = region part

/-- Outlines of parts of the row, one behind the other. -/
def Row (ts : List Token) (os : List Outline) : Prop := Scattered Fits ts os

/-- An outline that takes all of the tokens. -/
structure Covers (ts : List Token) (o : Outline) : Prop where
  some : ts ≠ []
  span : o.span = region ts
  row : Row ts o.children

variable {ts us : List Token} {o : Outline} {os ps : List Outline}

theorem Fits.mono (fits : Fits us o) (part : us <:+: ts) : Fits ts o := by
  obtain ⟨inner, some, inside, span⟩ := fits.stands
  exact ⟨fits.nested, inner, some, inside.trans part, span⟩

/-- Regions of two parts of a row are apart if the parts are. -/
theorem before_of_fits {o' : Outline} (ordered : InOrder (ts ++ us)) (left : Fits ts o)
    (right : Fits us o') : o.span.Before o'.span := by
  obtain ⟨part, some, inside, span⟩ := left.stands
  obtain ⟨part', some', inside', span'⟩ := right.stands
  rw [span, span']
  exact (ordered.of_sublist (inside.sublist.append inside'.sublist)).before some some'

theorem before_of_row (ordered : InOrder ts) (row : Row ts os) :
    os.Pairwise fun o o' => o.span.Before o'.span := by
  induction row with
  | nil => exact .nil
  | cons first rest ih =>
      refine List.pairwise_cons.mpr ⟨?_, ih ordered.right⟩
      intro o' later
      obtain ⟨inner, inside, fits⟩ := rest.exists_part later
      rw [List.append_assoc] at ordered
      exact before_of_fits ordered.right first (fits.mono inside)

/-- On no tokens there is no outline. -/
theorem row_nil (row : Row [] os) : os = [] := by
  cases os with
  | nil => rfl
  | cons o os =>
      obtain ⟨inner, inside, fits⟩ := row.exists_part List.mem_cons_self
      obtain ⟨part, some, within, -⟩ := fits.stands
      exact absurd (List.infix_nil.mp (within.trans inside)) some

/-- A region around a row of nested outlines. -/
theorem nested_of_row (ordered : InOrder ts) (row : Row ts os) : (node (region ts) os).Nested := by
  have part : ∀ o ∈ os, Fits ts o := by
    intro o member
    obtain ⟨inner, inside, fits⟩ := row.exists_part member
    exact fits.mono inside
  have apart := before_of_row ordered row
  refine .node ?_ apart ?_ fun o member => (part o member).nested
  · intro o member
    obtain ⟨inner, some, inside, span⟩ := (part o member).stands
    exact span ▸ ordered.within inside some
  · exact apart.imp fun before _p => before.disjoint

theorem Covers.fits (covers : Covers ts o) (ordered : InOrder ts) : Fits ts o := by
  obtain ⟨some, span, row⟩ := covers
  cases o with
  | node whole children =>
      obtain rfl : whole = region ts := span
      exact ⟨nested_of_row ordered row, ts, some, List.infix_refl ts, rfl⟩

theorem fits_node (ordered : InOrder ts) (some : ts ≠ []) (row : Row ts os) :
    Fits ts (.node (region ts) os) :=
  Covers.fits ⟨some, rfl, row⟩ ordered

theorem row_one (fits : Fits ts o) : Row ts [o] := .single fits

theorem fits_of_row (row : Row ts [o]) : Fits ts o := by
  obtain ⟨part, inside, fits⟩ := row.exists_part List.mem_cons_self
  exact fits.mono inside

end Outline

/-! ### Trees on tokens -/

namespace Grammar

open JumpIR.Tree Outline

variable {ts us : List Token}

theorem IdentOn.covers {i : Ident} (on : IdentOn ts i) : Covers ts i.outline := by
  cases on
  exact ⟨List.cons_ne_nil _ _, rfl, .nil⟩

theorem IdentOn.row {i : Ident} (on : IdentOn ts i) (ordered : InOrder ts) : Row ts [i.outline] :=
  row_one (on.covers.fits ordered)

/-- The outlines of the items of a list, if each item has some. -/
theorem Separated.row {α : Type} {item : List Token → α → Prop} {view : α → List Outline}
    {as : List α} (list : Separated item ts as)
    (each : ∀ ts a, item ts a → InOrder ts → Row ts (view a)) (ordered : InOrder ts) :
    Row ts (as.flatMap view) := by
  induction list with
  | nil => exact .nil
  | last only =>
      rw [List.flatMap_singleton]
      exact each _ _ only ordered
  | cons first _between _rest ih =>
      rw [List.flatMap_cons]
      exact (each _ _ first ordered.left).append ((ih ordered.right.tail).behind [_])

theorem Separated.row_idents {names : List Ident} (list : Separated IdentOn ts names)
    (ordered : InOrder ts) : Row ts (names.map Ident.outline) := by
  rw [List.map_eq_flatMap]
  exact list.row (fun _ _ on => on.row) ordered

theorem Parens.row_idents {names : List Ident} (list : Parens IdentOn ts names)
    (ordered : InOrder ts) : Row ts (names.map Ident.outline) := by
  obtain ⟨_opens, items, _closes⟩ := list
  exact ((items.row_idents ordered.left.tail).behind [_]).before [_]

/-! ### Types -/

theorem outline_groupedIn {types : List TypeExpr} (ordered : InOrder ts) (some : ts ≠ [])
    (row : Row ts (TypeExpr.outlines types)) : Fits ts (groupedIn (region ts) types).outline := by
  match types with
  | [] => exact fits_node ordered some .nil
  | [type] => exact fits_of_row row
  | type :: type' :: types => exact fits_node ordered some row

theorem TypeOn.fits {type : TypeExpr} (on : TypeOn ts type) (ordered : InOrder ts) :
    Fits ts type.outline := by
  refine @TypeOn.rec (fun ts type _ => InOrder ts → Fits ts type.outline)
    (fun ts types _ => InOrder ts → ts ≠ [] ∧ Row ts (TypeExpr.outlines types))
    (fun ts types _ => InOrder ts → Row ts (TypeExpr.outlines types))
    ?base ?enum ?union ?group ?function ?intro ?nil ?last ?cons ts type on ordered
  case base =>
      intro percent t name type _opens _word _named ordered
      exact fits_node ordered (List.cons_ne_nil _ _) .nil
  case enum =>
      intro percent t ts name _opens _word named ordered
      exact fits_node ordered (List.cons_ne_nil _ _) ((named.row ordered.tail.tail).behind [_, _])
  case union =>
      intro percent t ts name _opens _word named ordered
      exact fits_node ordered (List.cons_ne_nil _ _) ((named.row ordered.tail.tail).behind [_, _])
  case group =>
      intro ts types _items inside ordered
      obtain ⟨some, row⟩ := inside ordered
      exact outline_groupedIn ordered some row
  case function =>
      intro ts types arrow us result _params _points _returns params returns ordered
      obtain ⟨some, row⟩ := params ordered.left
      have fits := returns ordered.right.tail
      exact fits_node ordered (List.append_ne_nil_of_left_ne_nil some _)
        (row.append ((row_one fits).behind [arrow]))
  case intro =>
      intro opening ts closing types _opens _items _closes inside ordered
      exact ⟨List.cons_ne_nil _ _, ((inside ordered.left.tail).behind [opening]).before [closing]⟩
  case nil => exact fun _ordered => .nil
  case last =>
      intro ts type _only fits ordered
      exact row_one (fits ordered)
  case cons =>
      intro ts type comma us types _first _between _rest fits row ordered
      exact (row_one (fits ordered.left)).append ((row ordered.right.tail).behind [comma])

/-! ### Expressions -/

theorem ExprOn.covers {e : Expr} (on : ExprOn ts e) (ordered : InOrder ts) :
    Covers ts e.outline := by
  refine @ExprOn.rec (fun ts e _ => InOrder ts → Covers ts e.outline)
    (fun ts es _ => InOrder ts → ts ≠ [] ∧ Row ts (Expr.outlines es))
    (fun ts es _ => InOrder ts → Row ts (Expr.outlines es))
    ?literal ?unit ?paren ?prim ?call ?name ?field ?isNot ?project ?intro ?nil ?last ?cons ts e on
    ordered
  case literal =>
      intro t make word _ordered
      obtain ⟨value, rfl⟩ | ⟨part, rfl⟩ := leaf_of_literalAtom? word
      · exact ⟨List.cons_ne_nil _ _, rfl, .nil⟩
      · exact ⟨List.cons_ne_nil _ _, rfl, .nil⟩
  case unit =>
      intro opening closing _opens _closes _ordered
      exact ⟨List.cons_ne_nil _ _, rfl, .nil⟩
  case paren =>
      intro opening ts closing e _opens _value _closes inside ordered
      rw [Expr.outline_withSpan]
      exact ⟨List.cons_ne_nil _ _, rfl,
        ((inside ordered.left.tail).row.behind [opening]).before [closing]⟩
  case prim =>
      intro sign ts op us es _signs named _args args ordered
      refine ⟨List.cons_ne_nil _ _, rfl, ?_⟩
      exact ((named.row ordered.left.tail).behind [sign]).append (args ordered.right).2
  case call =>
      intro ts callee us es named _args args ordered
      exact ⟨List.append_ne_nil_of_left_ne_nil named.ne_nil _, rfl,
        (named.row ordered.left).append (args ordered.right).2⟩
  case name =>
      intro ts i named ordered
      exact ⟨named.ne_nil, rfl, named.row ordered⟩
  case field =>
      intro ts e dot t index _value _dots _field value ordered
      have covers := value ordered.left
      exact ⟨List.append_ne_nil_of_left_ne_nil covers.some _, rfl,
        (row_one (covers.fits ordered.left)).before [dot, t]⟩
  case isNot =>
      intro ts e t us variant _value _word named value ordered
      have covers := value ordered.left
      exact ⟨List.append_ne_nil_of_left_ne_nil covers.some _, rfl,
        (row_one (covers.fits ordered.left)).append
          ((named.row ordered.right.tail).behind [t])⟩
  case project =>
      intro ts e t us variant _value _word named value ordered
      have covers := value ordered.left
      exact ⟨List.append_ne_nil_of_left_ne_nil covers.some _, rfl,
        (row_one (covers.fits ordered.left)).append
          ((named.row ordered.right.tail).behind [t])⟩
  case intro =>
      intro opening ts closing es _opens _items _closes inside ordered
      exact ⟨List.cons_ne_nil _ _, ((inside ordered.left.tail).behind [opening]).before [closing]⟩
  case nil => exact fun _ordered => .nil
  case last =>
      intro ts e _only covers ordered
      exact row_one ((covers ordered).fits ordered)
  case cons =>
      intro ts e comma us es _first _between _rest covers row ordered
      exact (row_one ((covers ordered.left).fits ordered.left)).append
        ((row ordered.right.tail).behind [comma])

theorem ExprOn.row {e : Expr} (on : ExprOn ts e) (ordered : InOrder ts) : Row ts [e.outline] :=
  row_one ((on.covers ordered).fits ordered)

theorem TypeOn.row {type : TypeExpr} (on : TypeOn ts type) (ordered : InOrder ts) :
    Row ts [type.outline] :=
  row_one (on.fits ordered)

/-! ### Statements -/

theorem PlaceOn.row {place : Tree.Place} (on : PlaceOn ts place) (ordered : InOrder ts) :
    Row ts place.outlines := by
  cases on with
  | named named _fields => exact (named.row ordered.left).before _
  | _ => exact .nil

theorem StmtKindOn.row {kind : StmtKind} (on : StmtKindOn ts kind) (ordered : InOrder ts) :
    Row ts kind.outlines := by
  cases on with
  | declare named _colons typed =>
      exact (named.row ordered.left).append ((typed.row ordered.right.tail).behind [_])
  | init named _colons typed _becomes init =>
      exact ((named.row ordered.left.left).append
        ((typed.row ordered.left.right.tail).behind [_])).append
          ((init.row ordered.right.tail).behind [_])
  | assign place _becomes expr =>
      exact (place.row ordered.left).append ((expr.row ordered.right.tail).behind [_])
  | jump _word expr _goes _target _least =>
      exact ((expr.row ordered.left.tail).behind [_]).before _
  | jumpFrom _word expr _goes _target _least _ticks _spells =>
      exact ((expr.row ordered.left.tail).behind [_]).before _
  | goto _word _target _least => exact .nil
  | finish _word | arbitrary _word | unreachable _word => exact .nil

theorem StmtOn.row {stmt : Stmt} (on : StmtOn ts stmt) (ordered : InOrder ts) :
    Row ts [stmt.outline] := by
  obtain ⟨derives, _ends⟩ := on
  exact row_one (fits_node ordered (List.append_ne_nil_of_right_ne_nil _ (List.cons_ne_nil _ _))
    ((derives.row ordered.left).before [_]))

/-! ### Modules -/

theorem VariantOn.row {variant : UnionVariant} (on : VariantOn ts variant)
    (ordered : InOrder ts) : Row ts variant.outlines := by
  obtain ⟨named, _colons, typed⟩ := on
  exact (named.row ordered.left).append ((typed.row ordered.right.tail).behind [_])

/-- The outlines of items with gaps. -/
theorem Scattered.row {α : Type} {item : List Token → α → Prop} {view : α → Outline}
    {as : List α} (scattered : Scattered item ts as)
    (each : ∀ ts a, item ts a → InOrder ts → Row ts [view a]) (ordered : InOrder ts) :
    Row ts (as.map view) := by
  induction scattered with
  | nil => exact .nil
  | cons first _rest ih =>
      exact ((each _ _ first ordered.left.right).behind _).append (ih ordered.right)

theorem DeclOn.row {decl : Decl} (on : DeclOn ts decl) (ordered : InOrder ts) :
    Row ts [decl.outline] := by
  refine row_one ?_
  cases on with
  | enum _word named _opens items _closes =>
      exact fits_node ordered (List.cons_ne_nil _ _)
        ((((named.row ordered.left.left.tail).behind [_]).append
          ((items.row_idents ordered.left.right.tail).behind [_])).before [_])
  | union _word named _opens items _closes =>
      exact fits_node ordered (List.cons_ne_nil _ _)
        ((((named.row ordered.left.left.tail).behind [_]).append
          ((items.row (fun _ _ on => on.row) ordered.left.right.tail).behind [_])).before [_])
  | value _word named _bound _colons typed =>
      exact fits_node ordered (List.cons_ne_nil _ _)
        ((((named.row ordered.left.left.tail).behind [_]).before _).append
          ((typed.row ordered.right.tail).behind [_]))
  | function _word named items _opens stmts _closes =>
      exact fits_node ordered (List.cons_ne_nil _ _)
        (((((named.row ordered.left.left.left.tail).behind [_]).append
          (items.row_idents ordered.left.left.right)).append
            ((stmts.row (fun _ _ on => on.row) ordered.left.right.tail).behind [_])).before [_])
  | register _word named _colons typed =>
      exact fits_node ordered (List.cons_ne_nil _ _)
        (((named.row ordered.left.tail).behind [_]).append
          ((typed.row ordered.right.tail).behind [_]))

/-- In a module on tokens in reading order all regions are nested. -/
theorem ModuleOn.nested {m : Module} (on : ModuleOn ts m) (ordered : InOrder ts) :
    m.outline.Nested := by
  have row := on.decls.row (fun _ _ on => on.row) ordered
  rw [Module.outline]
  by_cases some : ts = []
  · subst some
    rw [row_nil row]
    exact .node nofun .nil .nil nofun
  · rw [on.span some]
    exact nested_of_row ordered row

end Grammar

end JumpIR
