import Mathlib.Data.Nat.Digits.Defs
import JumpIR.Tree.Module

/-!
# The grammar

    Module   = { Decl }
    Decl     = "enum" Identifier "{" Identifier { "," Identifier } "}"
             | "union" Identifier "{" Identifier ":" Type { "," Identifier ":" Type } "}"
             | "val" Identifier [ "=" String ] ":" Type
             | "fn" Identifier "(" [ Identifier { "," Identifier } ] ")" "{" { Stmt } "}"
             | "register" Identifier ":" Type
    Stmt     = Identifier ":" Type [ "=" Expr ] ";" | Place "=" Expr ";"
             | "jump" Expr "goto" Int [ "`" String ] ";" | "goto" Int ";"
             | "end" ";" | "arbitrary" ";" | "unreachable" ";"
    Place    = "return" | "current_exception" | "have_exception" | "throw_location"
             | Identifier { "." Field }
    Expr     = Atom { "." Field | "is" Identifier | "as" Identifier }
    Atom     = Int | Bits | String | "true" | "false" | "(" ")" | "(" Expr ")"
             | "@" Identifier Args | Identifier [ Args ]
             | "have_exception" | "current_exception" | "throw_location"
    Args     = "(" [ Expr { "," Expr } ] ")"
    Type     = "%" BaseType | "(" [ Type { "," Type } ] ")" [ "->" Type ]
    BaseType = "unit" | "bool" | "i" | "i64" | "bit" | "string" | "bv" | "bv" Digits
             | "enum" Identifier | "union" Identifier

Each rule is a relation between the tokens that it derives and the tree that they denote. A list
with commas may have one more behind its last item. The trees have no regions: `bare` takes them
away from a tree that was read.
-/

set_option autoImplicit false

namespace JumpIR

namespace Tree

/-! ### Trees without regions -/

/-- The region of a tree that stands nowhere in a text. -/
def nowhere : Span := .point .origin

def Ident.bare (i : Ident) : Ident := ⟨i.name, nowhere⟩

mutual

def TypeExpr.bare : TypeExpr → TypeExpr
  | .base type _ => .base type nowhere
  | .tuple items _ => .tuple (TypeExpr.allBare items) nowhere
  | .named sort name definition _ => .named sort name.bare definition nowhere
  | .function params result _ => .function (TypeExpr.allBare params) result.bare nowhere

def TypeExpr.allBare : List TypeExpr → List TypeExpr
  | [] => []
  | type :: rest => type.bare :: TypeExpr.allBare rest

end

mutual

def Expr.bare : Expr → Expr
  | .name i _ => .name i.bare nowhere
  | .literal value _ => .literal value nowhere
  | .call callee args _ => .call callee.bare (Expr.allBare args) nowhere
  | .prim op args _ => .prim op.bare (Expr.allBare args) nowhere
  | .isNot value variant _ => .isNot value.bare variant.bare nowhere
  | .project value variant _ => .project value.bare variant.bare nowhere
  | .field value index _ => .field value.bare index nowhere
  | .exception part _ => .exception part nowhere

def Expr.allBare : List Expr → List Expr
  | [] => []
  | e :: rest => e.bare :: Expr.allBare rest

end

def Place.bare : Place → Place
  | .named name path => .named name.bare path
  | .result => .result
  | .exception part => .exception part

def StmtKind.bare : StmtKind → StmtKind
  | .declare name type init => .declare name.bare type.bare (init.map Expr.bare)
  | .assign target value => .assign target.bare value.bare
  | .jump cond target location => .jump cond.bare target location
  | .goto target => .goto target
  | .finish => .finish
  | .arbitrary => .arbitrary
  | .unreachable => .unreachable

def Stmt.bare (s : Stmt) : Stmt := ⟨s.kind.bare, nowhere⟩

def UnionVariant.bare (v : UnionVariant) : UnionVariant := ⟨v.name.bare, v.payload.bare⟩

def Decl.bare : Decl → Decl
  | .value v => .value ⟨v.name.bare, v.binding, v.type.bare, nowhere⟩
  | .enum e => .enum ⟨e.name.bare, e.variants.map Ident.bare, nowhere⟩
  | .union u => .union ⟨u.name.bare, u.variants.map UnionVariant.bare, nowhere⟩
  | .function f =>
      .function ⟨f.name.bare, f.params.map Ident.bare, f.body.map Stmt.bare, nowhere⟩
  | .register r => .register ⟨r.name.bare, r.type.bare, nowhere⟩

def Module.bare (m : Module) : Module := ⟨m.decls.map Decl.bare, nowhere⟩

@[simp] theorem TypeExpr.allBare_eq (types : List TypeExpr) :
    TypeExpr.allBare types = types.map TypeExpr.bare := by
  induction types with
  | nil => rfl
  | cons type rest ih => rw [TypeExpr.allBare, ih, List.map_cons]

@[simp] theorem Expr.allBare_eq (es : List Expr) : Expr.allBare es = es.map Expr.bare := by
  induction es with
  | nil => rfl
  | cons e rest ih => rw [Expr.allBare, ih, List.map_cons]

theorem Expr.bare_withSpan (e : Expr) (span : Span) : (e.withSpan span).bare = e.bare := by
  cases e <;> rfl

end Tree

namespace Grammar

open JumpIR.Tree

/-! ### Lists -/

/-- Items with a comma behind each of them, which may be missing behind the last one. -/
inductive CommaList {α : Type} (item : List TokenKind → α → Prop) :
    List TokenKind → List α → Prop where
  | nil : CommaList item [] []
  | last {ks a} (only : item ks a) : CommaList item ks [a]
  | cons {ks a others as} (first : item ks a) (rest : CommaList item others as) :
      CommaList item (ks ++ .mark .comma :: others) (a :: as)

/-- Items one behind the other. -/
inductive Many {α : Type} (item : List TokenKind → α → Prop) : List TokenKind → List α → Prop where
  | nil : Many item [] []
  | cons {ks a others as} (first : item ks a) (rest : Many item others as) :
      Many item (ks ++ others) (a :: as)

/-! ### Numbers and names -/

/-- The number that decimal digits write. -/
structure Decimal (digits : List Char) (n : Nat) : Prop where
  nonempty : digits ≠ []
  isDigits : ∀ c ∈ digits, c.isDigit = true
  value : n = Nat.ofDigits 10 (digits.reverse.map fun c => c.toNat - '0'.toNat)

inductive IsIdent : List TokenKind → Ident → Prop where
  | intro {name} : IsIdent [.ident name] ⟨name, nowhere⟩

/-- A tuple field, by its number or by its name. -/
inductive IsField : TokenKind → Nat → Prop where
  | number {n : Int64} (least : 0 ≤ n.toInt) (most : n.toInt < 2 ^ 32) :
      IsField (.int n) n.toInt.toNat
  | name {digits n} (decimal : Decimal digits n) (most : n < 2 ^ 32) :
      IsField (.ident (String.ofList ("ztup".toList ++ digits))) n

/-! ### Types -/

inductive IsBase : String → BaseType → Prop where
  | unit : IsBase "unit" .unit
  | bool : IsBase "bool" .bool
  | int : IsBase "i" .int
  | int64 : IsBase "i64" .int64
  | bit : IsBase "bit" .bit
  | string : IsBase "string" .string
  | anyBits : IsBase "bv" (.bits none)
  | bits {digits width} (decimal : Decimal digits width) (least : 1 ≤ width) (most : width ≤ 64) :
      IsBase (String.ofList ("bv".toList ++ digits)) (.bits (some width))

/-- What may stand behind a percent sign. -/
inductive IsNamed : List TokenKind → TypeExpr → Prop where
  | base {name type} (named : IsBase name type) : IsNamed [.ident name] (.base type nowhere)
  | enum {name} :
      IsNamed [.keyword .enumDecl, .ident name] (.named .enum ⟨name, nowhere⟩ none nowhere)
  | union {name} :
      IsNamed [.keyword .unionDecl, .ident name] (.named .union ⟨name, nowhere⟩ none nowhere)

/-- What types in parentheses denote. None is the unit type, and one is that type. -/
def grouped : List TypeExpr → TypeExpr
  | [] => .base .unit nowhere
  | [type] => type
  | types => .tuple types nowhere

inductive IsType : List TokenKind → TypeExpr → Prop where
  | named {ks type} (named : IsNamed ks type) : IsType (.mark .percent :: ks) type
  | group {ks types} (items : CommaList IsType ks types) :
      IsType (.mark .openParen :: ks ++ [.mark .closeParen]) (grouped types)
  | function {ks types others result} (params : CommaList IsType ks types)
      (returns : IsType others result) :
      IsType (.mark .openParen :: ks ++ .mark .closeParen :: .mark .arrow :: others)
        (.function types result nowhere)

/-! ### Expressions -/

/-- Arguments in parentheses, each of which `inner` derives. -/
inductive IsArgs (inner : List TokenKind → Expr → Prop) : List TokenKind → List Expr → Prop where
  | intro {ks es} (items : CommaList inner ks es) :
      IsArgs inner (.mark .openParen :: ks ++ [.mark .closeParen]) es

inductive IsAtom (inner : List TokenKind → Expr → Prop) : List TokenKind → Expr → Prop where
  | int {n} : IsAtom inner [.int n] (.literal (.int n) nowhere)
  | bits {width value} : IsAtom inner [.bits width value] (.literal (.bits width value) nowhere)
  | text {s} : IsAtom inner [.text s] (.literal (.string s) nowhere)
  | true : IsAtom inner [.keyword .true] (.literal (.bool true) nowhere)
  | false : IsAtom inner [.keyword .false] (.literal (.bool false) nowhere)
  | haveException : IsAtom inner [.keyword .haveException] (.exception .pending nowhere)
  | currentException : IsAtom inner [.keyword .currentException] (.exception .thrown nowhere)
  | throwLocation : IsAtom inner [.keyword .throwLocation] (.exception .location nowhere)
  | unit : IsAtom inner [.mark .openParen, .mark .closeParen] (.literal .unit nowhere)
  /-- Parentheses leave no trace in the tree. -/
  | paren {ks e} (value : inner ks e) :
      IsAtom inner (.mark .openParen :: ks ++ [.mark .closeParen]) e
  | prim {op ks es} (args : IsArgs inner ks es) :
      IsAtom inner (.mark .atSign :: .ident op :: ks) (.prim ⟨op, nowhere⟩ es nowhere)
  | call {callee ks es} (args : IsArgs inner ks es) :
      IsAtom inner (.ident callee :: ks) (.call ⟨callee, nowhere⟩ es nowhere)
  | name {name} : IsAtom inner [.ident name] (.name ⟨name, nowhere⟩ nowhere)

/-- Postfix forms behind `value`, each of which takes all before it. -/
inductive IsPostfix : Expr → List TokenKind → Expr → Prop where
  | nil {value} : IsPostfix value [] value
  | field {value k index ks e} (field : IsField k index)
      (rest : IsPostfix (.field value index nowhere) ks e) :
      IsPostfix value (.mark .dot :: k :: ks) e
  | isNot {value variant ks e} (rest : IsPostfix (.isNot value ⟨variant, nowhere⟩ nowhere) ks e) :
      IsPostfix value (.keyword .isNot :: .ident variant :: ks) e
  | project {value variant ks e}
      (rest : IsPostfix (.project value ⟨variant, nowhere⟩ nowhere) ks e) :
      IsPostfix value (.keyword .project :: .ident variant :: ks) e

/-- An atom and the postfix forms behind it. -/
inductive IsExprOver (inner : List TokenKind → Expr → Prop) : List TokenKind → Expr → Prop where
  | intro {ks value others e} (atom : IsAtom inner ks value)
      (postfixes : IsPostfix value others e) : IsExprOver inner (ks ++ others) e

/-- An expression in which arguments and parentheses nest less than `levels` deep. -/
def IsExprWithin : Nat → List TokenKind → Expr → Prop
  | 0 => fun _ _ => False
  | levels + 1 => IsExprOver (IsExprWithin levels)

/-- An expression in which arguments and parentheses nest at most 64 levels deep. -/
def IsExpr : List TokenKind → Expr → Prop := IsExprWithin (64 + 1)

/-! ### Statements -/

inductive IsPath : List TokenKind → List Nat → Prop where
  | nil : IsPath [] []
  | cons {k index ks path} (field : IsField k index) (rest : IsPath ks path) :
      IsPath (.mark .dot :: k :: ks) (index :: path)

inductive IsPlace : List TokenKind → Tree.Place → Prop where
  | result : IsPlace [.keyword .result] .result
  | currentException : IsPlace [.keyword .currentException] (.exception .thrown)
  | haveException : IsPlace [.keyword .haveException] (.exception .pending)
  | throwLocation : IsPlace [.keyword .throwLocation] (.exception .location)
  | named {name ks path} (fields : IsPath ks path) :
      IsPlace (.ident name :: ks) (.named ⟨name, nowhere⟩ path)

/-- A statement up to its semicolon. -/
inductive IsStmtKind : List TokenKind → StmtKind → Prop where
  | declare {name ks type} (typed : IsType ks type) :
      IsStmtKind (.ident name :: .mark .colon :: ks) (.declare ⟨name, nowhere⟩ type none)
  | init {name ks type others value} (typed : IsType ks type) (init : IsExpr others value) :
      IsStmtKind (.ident name :: .mark .colon :: ks ++ .mark .equals :: others)
        (.declare ⟨name, nowhere⟩ type (some value))
  | assign {ks target others value} (place : IsPlace ks target) (expr : IsExpr others value) :
      IsStmtKind (ks ++ .mark .equals :: others) (.assign target value)
  | jump {ks cond} {n : Int64} (expr : IsExpr ks cond) (least : 0 ≤ n.toInt) :
      IsStmtKind (.keyword .jump :: ks ++ [.keyword .goto, .int n])
        (.jump cond n.toInt.toNat none)
  | jumpFrom {ks cond s} {n : Int64} (expr : IsExpr ks cond) (least : 0 ≤ n.toInt) :
      IsStmtKind (.keyword .jump :: ks ++ [.keyword .goto, .int n, .mark .backtick, .text s])
        (.jump cond n.toInt.toNat (some s))
  | goto {n : Int64} (least : 0 ≤ n.toInt) :
      IsStmtKind [.keyword .goto, .int n] (.goto n.toInt.toNat)
  | finish : IsStmtKind [.keyword .finish] .finish
  | arbitrary : IsStmtKind [.keyword .arbitrary] .arbitrary
  | unreachable : IsStmtKind [.keyword .unreachable] .unreachable

inductive IsStmt : List TokenKind → Stmt → Prop where
  | intro {ks kind} (derives : IsStmtKind ks kind) :
      IsStmt (ks ++ [.mark .semicolon]) ⟨kind, nowhere⟩

/-! ### Modules -/

inductive IsVariant : List TokenKind → UnionVariant → Prop where
  | intro {name ks type} (typed : IsType ks type) :
      IsVariant (.ident name :: .mark .colon :: ks) ⟨⟨name, nowhere⟩, type⟩

inductive IsDecl : List TokenKind → Decl → Prop where
  | enum {name ks variants} (items : CommaList IsIdent ks variants) (nonempty : variants ≠ []) :
      IsDecl (.keyword .enumDecl :: .ident name :: .mark .openBrace :: ks ++ [.mark .closeBrace])
        (.enum ⟨⟨name, nowhere⟩, variants, nowhere⟩)
  | union {name ks variants} (items : CommaList IsVariant ks variants) (nonempty : variants ≠ []) :
      IsDecl (.keyword .unionDecl :: .ident name :: .mark .openBrace :: ks ++ [.mark .closeBrace])
        (.union ⟨⟨name, nowhere⟩, variants, nowhere⟩)
  | value {name ks type} (typed : IsType ks type) :
      IsDecl (.keyword .valDecl :: .ident name :: .mark .colon :: ks)
        (.value ⟨⟨name, nowhere⟩, none, type, nowhere⟩)
  | bound {name s ks type} (typed : IsType ks type) :
      IsDecl (.keyword .valDecl :: .ident name :: .mark .equals :: .text s :: .mark .colon :: ks)
        (.value ⟨⟨name, nowhere⟩, some s, type, nowhere⟩)
  | function {name ks params others body} (items : CommaList IsIdent ks params)
      (stmts : Many IsStmt others body) :
      IsDecl (.keyword .fnDecl :: .ident name :: .mark .openParen :: ks ++ .mark .closeParen ::
          .mark .openBrace :: others ++ [.mark .closeBrace])
        (.function ⟨⟨name, nowhere⟩, params, body, nowhere⟩)
  | register {name ks type} (typed : IsType ks type) :
      IsDecl (.keyword .registerDecl :: .ident name :: .mark .colon :: ks)
        (.register ⟨⟨name, nowhere⟩, type, nowhere⟩)

section Inside

variable {α : Type} {item : List TokenKind → α → Prop} {ks : List TokenKind}

theorem CommaList.inside {as : List α} (list : CommaList item ks as)
    (each : ∀ ks a, item ks a → .endOfFile ∉ ks) : .endOfFile ∉ ks := by
  induction list with
  | nil => exact List.not_mem_nil
  | last only => exact each _ _ only
  | cons first _rest ih => simp [each _ _ first, ih]

theorem Many.inside {as : List α} (list : Many item ks as)
    (each : ∀ ks a, item ks a → .endOfFile ∉ ks) : .endOfFile ∉ ks := by
  induction list with
  | nil => exact List.not_mem_nil
  | cons first _rest ih => simp [each _ _ first, ih]

theorem IsIdent.inside {i : Ident} (derives : IsIdent ks i) : .endOfFile ∉ ks := by
  cases derives
  simp

theorem IsField.inside {k : TokenKind} {index : Nat} (field : IsField k index) :
    .endOfFile ≠ k := by
  cases field <;> simp

theorem IsType.inside {type : TypeExpr} (derives : IsType ks type) : .endOfFile ∉ ks := by
  refine @IsType.rec (fun ks _ _ => .endOfFile ∉ ks) (fun ks _ _ => .endOfFile ∉ ks)
    ?named ?group ?function ?nil ?last ?cons ks type derives
  case named =>
      intro ks type named
      cases named <;> simp
  case group =>
      intro ks types _items inside
      simp [inside]
  case function =>
      intro ks types others result _params _returns inside inside'
      simp [inside, inside']
  case nil => exact List.not_mem_nil
  case last =>
      intro ks type _only inside
      exact inside
  case cons =>
      intro ks type others types _first _rest inside inside'
      simp [inside, inside']

theorem IsAtom.inside {inner : List TokenKind → Expr → Prop} {e : Expr} (atom : IsAtom inner ks e)
    (each : ∀ ks e, inner ks e → .endOfFile ∉ ks) : .endOfFile ∉ ks := by
  cases atom with
  | paren value => simp [each _ _ value]
  | prim args =>
      obtain ⟨items⟩ := args
      simp [items.inside each]
  | call args =>
      obtain ⟨items⟩ := args
      simp [items.inside each]
  | _ => simp

theorem IsPostfix.inside {value e : Expr} (postfixes : IsPostfix value ks e) :
    .endOfFile ∉ ks := by
  induction postfixes with
  | nil => exact List.not_mem_nil
  | field field _rest ih => simp [field.inside, ih]
  | isNot _rest ih => simp [ih]
  | project _rest ih => simp [ih]

theorem IsExprWithin.inside (levels : Nat) : ∀ ks e, IsExprWithin levels ks e →
    .endOfFile ∉ ks := by
  induction levels with
  | zero =>
      intro ks e derives
      cases derives
  | succ levels ih =>
      rintro _ _ ⟨atom, postfixes⟩
      simp [atom.inside ih, postfixes.inside]

theorem IsPath.inside {path : List Nat} (derives : IsPath ks path) : .endOfFile ∉ ks := by
  induction derives with
  | nil => exact List.not_mem_nil
  | cons field _rest ih => simp [field.inside, ih]

theorem IsPlace.inside {place : Tree.Place} (derives : IsPlace ks place) : .endOfFile ∉ ks := by
  cases derives with
  | named fields => simp [fields.inside]
  | _ => simp

theorem IsStmt.inside {stmt : Stmt} (derives : IsStmt ks stmt) : .endOfFile ∉ ks := by
  have expr : ∀ ks e, IsExpr ks e → .endOfFile ∉ ks := IsExprWithin.inside _
  obtain ⟨derives⟩ := derives
  cases derives with
  | declare typed => simp [typed.inside]
  | init typed init => simp [typed.inside, expr _ _ init]
  | assign place value => simp [place.inside, expr _ _ value]
  | jump cond _least => simp [expr _ _ cond]
  | jumpFrom cond _least => simp [expr _ _ cond]
  | goto _least => simp
  | finish | arbitrary | unreachable => simp

end Inside

end Grammar

end JumpIR
