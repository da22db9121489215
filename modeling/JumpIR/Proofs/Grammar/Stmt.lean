import JumpIR.Proofs.Grammar.Expr

/-!
# Statements by the grammar

A declaration and an assignment both begin with a name; the token behind it tells them apart.
-/

set_option autoImplicit false

open JumpIR.Grammar JumpIR.Parser

namespace JumpIR.Tree

variable {c : Cursor} {rest : List TokenKind}

/-! ### Places -/

namespace Place

theorem reads_fields (budget : Nat) : (fields budget).Reads IsPath := by
  induction budget with
  | zero => exact reads_pure .nil
  | succ budget ih =>
      apply (reads_eat (by simp)).bind
      intro dot
      cases dot with
      | false =>
          apply reads_pure
          rintro _ rfl
          exact .nil
      | true =>
          apply Expr.reads_fieldIndex.bind
          intro index
          apply ih.bind
          intro others
          apply reads_pure
          rintro ks path _ ⟨k, rfl, field⟩ _ rfl
          simpa using IsPath.cons field path

theorem accepts_fields {ks : List TokenKind} {path : List Nat} (derives : IsPath ks path) :
    ∀ budget, ks.length ≤ budget → ∀ c rest, c.Ready (ks ++ rest) →
      rest.headD .endOfFile ≠ .mark .dot → (fields budget).Accepts (· = path) c rest := by
  induction derives with
  | nil =>
      intro budget _ c rest ready ends
      cases budget with
      | zero => exact accepts_pure ready rfl
      | succ budget =>
          apply (passes_eat ready ends).bind
          rintro _ d rfl ready
          exact accepts_pure ready rfl
  | @cons k index ks path field _ ih =>
      intro budget enough c rest ready ends
      cases budget with
      | zero => cases enough
      | succ budget =>
          apply (accepts_eat ready).bind
          rintro _ d rfl ready
          apply (Expr.accepts_fieldIndex field ready).bind
          rintro _ d rfl ready
          apply (ih budget (by simp at enough; omega) d rest ready ends).bind
          rintro _ d rfl ready
          exact accepts_pure ready rfl

theorem reads_parse : parse.Reads fun ks place => IsPlace ks place.bare := by
  intro c
  apply readsAt_here
  split
  case h_1 kind => exact readsAt_word kind (by simp) .result
  case h_2 kind => exact readsAt_word kind (by simp) .currentException
  case h_3 kind => exact readsAt_word kind (by simp) .haveException
  case h_4 kind => exact readsAt_word kind (by simp) .throwLocation
  case h_5 =>
      apply (reads_identifier c).bind
      intro name
      apply (reads_fields _).bind
      intro path
      apply reads_pure
      rintro ks fields _ rfl
      simpa [bare, Ident.bare] using IsPlace.named fields
  case h_6 => exact reads_fail _ _ c

theorem accepts_parse {ks : List TokenKind} {place : Place} (derives : IsPlace ks place)
    (ready : c.Ready (ks ++ rest)) (ends : rest.headD .endOfFile ≠ .mark .dot) :
    parse.Accepts (fun place' => place'.bare = place) c rest := by
  have kind := ready.kind_eq
  apply accepts_here
  cases derives with
  | @named name ks path fields =>
      have kind : c.kind = .ident name := kind
      have enough : ks.length ≤ c.budget := by
        simp only [ready.stands.budget, List.length_append, List.length_cons]
        omega
      simp only [kind]
      apply (accepts_identifier ready).bind
      rintro i d rfl ready
      apply (accepts_fields fields c.budget enough d rest ready ends).bind
      rintro _ d rfl ready
      exact accepts_pure ready rfl
  | result =>
      have kind : c.kind = .keyword .result := kind
      rw [kind]
      exact accepts_word ready rfl
  | currentException =>
      have kind : c.kind = .keyword .currentException := kind
      rw [kind]
      exact accepts_word ready rfl
  | haveException =>
      have kind : c.kind = .keyword .haveException := kind
      rw [kind]
      exact accepts_word ready rfl
  | throwLocation =>
      have kind : c.kind = .keyword .throwLocation := kind
      rw [kind]
      exact accepts_word ready rfl

end Place

namespace Stmt

/-! ### What is read -/

theorem readsAt_declare {name : String} (named : c.kind = .ident name)
    (colon : c.nextKind = .mark .colon) :
    declare.ReadsAt (fun ks kind => IsStmtKind ks kind.bare) c := by
  have second : c.advance.kind = .mark .colon := by
    rw [← colon]
    obtain ⟨current, tail, previous, reports⟩ := c
    cases tail with
    | nil => cases colon
    | cons next rest => rfl
  have run : identifier.run c = (some ⟨name, c.current.span⟩, c.advance) := by
    simp only [Parser.run, identifier, named]
  apply readsAt_after run fun closed => .advance closed named (by simp)
  apply (readsAt_advance second (by simp)).bind
  intro _
  apply TypeExpr.reads_parse.bind
  intro type
  apply (reads_eat (by simp)).bind
  intro equals
  cases equals with
  | true =>
      apply Expr.reads_parse.bind
      intro value
      apply reads_pure
      rintro others init _ rfl ks typed _ rfl
      simpa [StmtKind.bare, Ident.bare] using IsStmtKind.init typed init
  | false =>
      apply reads_pure
      rintro _ rfl ks typed _ rfl
      simpa [StmtKind.bare, Ident.bare] using IsStmtKind.declare typed

theorem reads_jump : jump.Reads fun ks kind => IsStmtKind (.keyword .jump :: ks) kind.bare := by
  apply Expr.reads_parse.bind
  intro cond
  apply (reads_expect (by simp)).bind
  intro _
  apply (reads_index _).bind
  intro target
  apply (reads_eat (by simp)).bind
  intro tick
  cases tick with
  | true =>
      apply reads_string.bind
      intro location
      apply reads_pure
      rintro _ rfl _ rfl _ ⟨n, rfl, least, rfl⟩ _ rfl ks expr
      simpa [StmtKind.bare] using IsStmtKind.jumpFrom expr least
  | false =>
      apply reads_pure
      rintro _ rfl _ ⟨n, rfl, least, rfl⟩ _ rfl ks expr
      simpa [StmtKind.bare] using IsStmtKind.jump expr least

theorem reads_assign : assign.Reads fun ks kind => IsStmtKind ks kind.bare := by
  apply Place.reads_parse.bind
  intro target
  apply (reads_expect (by simp)).bind
  intro _
  apply Expr.reads_parse.bind
  intro value
  apply reads_pure
  rintro others expr _ rfl ks place
  simpa [StmtKind.bare] using IsStmtKind.assign place expr

theorem reads_body : body.Reads fun ks kind => IsStmtKind ks kind.bare := by
  intro c
  apply readsAt_here
  split
  case h_1 kind =>
      apply (readsAt_advance kind (by simp)).bind
      intro _
      apply reads_jump.imp
      rintro ks kind derives _ rfl
      exact derives
  case h_2 kind =>
      apply (readsAt_advance kind (by simp)).bind
      intro _
      apply (reads_index _).bind
      intro target
      apply reads_pure
      rintro _ ⟨n, rfl, least, rfl⟩ _ rfl
      exact .goto least
  case h_3 kind => exact readsAt_word kind (by simp) .finish
  case h_4 kind => exact readsAt_word kind (by simp) .arbitrary
  case h_5 kind => exact readsAt_word kind (by simp) .unreachable
  case h_6 named =>
      split
      case isTrue colon => exact readsAt_declare named colon
      case isFalse => exact reads_assign c
  case h_7 => exact reads_assign c

theorem reads_parse : parse.Reads fun ks stmt => IsStmt ks stmt.bare := by
  intro c
  apply readsAt_here
  apply (reads_body c).bind
  intro kind
  apply (reads_expect (by simp)).bind
  intro _
  apply (reads_spanFrom _).bind
  intro span
  apply reads_pure
  rintro _ rfl _ rfl ks derives
  exact .intro derives

/-! ### What is derived -/

/-- A place in front of an equals sign does not begin a declaration. -/
theorem body_eq_assign {ks others : List TokenKind} {place : Place} (derives : IsPlace ks place)
    (ready : c.Ready (ks ++ .mark .equals :: others)) : body.run c = assign.run c := by
  have kind := ready.kind_eq
  simp only [Parser.run, body, Bind.bind, here]
  cases derives with
  | named fields =>
      have next : c.nextKind ≠ .mark .colon := by
        rw [ready.stands.nextKind_eq]
        cases fields <;> simp
      rw [kind]
      simp only [List.cons_append, List.headD_cons, if_neg next]
  | _ =>
      rw [kind]
      rfl

theorem accepts_assign {ks others : List TokenKind} {place : Place} {value : Expr}
    (derives : IsPlace ks place) (expr : IsExpr others value)
    (ready : c.Ready (ks ++ .mark .equals :: others ++ .mark .semicolon :: rest)) :
    assign.Accepts (fun kind => kind.bare = .assign place value) c (.mark .semicolon :: rest) := by
  rw [List.append_assoc] at ready
  apply (Place.accepts_parse derives ready (by simp)).bind
  rintro target d rfl ready
  apply (accepts_expect ready).bind
  intro _ d _ ready
  apply (Expr.accepts_parse expr ready (by constructor <;> simp)).bind
  rintro value' d rfl ready
  exact accepts_pure ready rfl

theorem accepts_declare {name : String} {ks : List TokenKind} {type : TypeExpr}
    (typed : IsType ks type)
    (ready : c.Ready (.ident name :: .mark .colon :: (ks ++ .mark .semicolon :: rest))) :
    declare.Accepts (fun kind => kind.bare = .declare ⟨name, nowhere⟩ type none) c
      (.mark .semicolon :: rest) := by
  apply (accepts_identifier ready).bind
  rintro i d rfl ready
  apply (accepts_advance ready).bind
  intro _ d _ ready
  apply (TypeExpr.accepts_parse typed ready (by simp)).bind
  rintro type' d rfl ready
  apply (passes_eat ready (by simp)).bind
  rintro _ d rfl ready
  exact accepts_pure ready rfl

theorem accepts_init {name : String} {ks others : List TokenKind} {type : TypeExpr} {value : Expr}
    (typed : IsType ks type) (init : IsExpr others value)
    (ready : c.Ready (.ident name :: .mark .colon ::
      (ks ++ .mark .equals :: (others ++ .mark .semicolon :: rest)))) :
    declare.Accepts (fun kind => kind.bare = .declare ⟨name, nowhere⟩ type (some value)) c
      (.mark .semicolon :: rest) := by
  apply (accepts_identifier ready).bind
  rintro i d rfl ready
  apply (accepts_advance ready).bind
  intro _ d _ ready
  apply (TypeExpr.accepts_parse typed ready (by simp)).bind
  rintro type' d rfl ready
  apply (accepts_eat ready).bind
  rintro _ d rfl ready
  apply (Expr.accepts_parse init ready (by constructor <;> simp)).bind
  rintro value' d rfl ready
  exact accepts_pure ready rfl

/-- The tokens that a jump has behind its target. -/
def locationKinds : Option String → List TokenKind
  | none => []
  | some s => [.mark .backtick, .text s]

theorem accepts_jump (location : Option String) {ks : List TokenKind} {cond : Expr} {n : Int64}
    (expr : IsExpr ks cond) (least : 0 ≤ n.toInt)
    (ready : c.Ready (ks ++ .keyword .goto :: .int n ::
      (locationKinds location ++ .mark .semicolon :: rest))) :
    jump.Accepts (fun kind => kind.bare = .jump cond n.toInt.toNat location) c
      (.mark .semicolon :: rest) := by
  apply (Expr.accepts_parse expr ready (by constructor <;> simp)).bind
  rintro cond' d rfl ready
  apply (accepts_expect ready).bind
  intro _ d _ ready
  apply (accepts_index _ ready least).bind
  rintro _ d rfl ready
  cases location with
  | none =>
      apply (passes_eat ready (by simp [locationKinds])).bind
      rintro _ d rfl ready
      exact accepts_pure ready rfl
  | some s =>
      apply (accepts_eat ready).bind
      rintro _ d rfl ready
      apply (accepts_string ready).bind
      rintro _ d rfl ready
      exact accepts_pure ready rfl

theorem accepts_body {ks : List TokenKind} {kind : StmtKind} (derives : IsStmtKind ks kind)
    (ready : c.Ready (ks ++ .mark .semicolon :: rest)) :
    body.Accepts (fun kind' => kind'.bare = kind) c (.mark .semicolon :: rest) := by
  have first := ready.kind_eq
  cases derives with
  | @assign ks target others value place expr =>
      rw [List.append_assoc] at ready
      obtain ⟨kind', d, run, accepted⟩ := accepts_assign place expr (by rwa [List.append_assoc])
      exact ⟨kind', d, (body_eq_assign place ready).trans run, accepted⟩
  | @declare name ks type typed =>
      have first : c.kind = .ident name := first
      have next : c.nextKind = .mark .colon := ready.stands.nextKind_eq
      apply accepts_here
      simp only [first, if_pos next]
      exact accepts_declare typed ready
  | @init name ks type others value typed init =>
      have first : c.kind = .ident name := first
      simp only [List.cons_append, List.append_assoc] at ready
      have next : c.nextKind = .mark .colon := ready.stands.nextKind_eq
      apply accepts_here
      simp only [first, if_pos next]
      exact accepts_init typed init ready
  | jump expr least =>
      have first : c.kind = .keyword .jump := first
      simp only [List.cons_append, List.append_assoc, List.nil_append] at ready
      apply accepts_here
      rw [first]
      apply (accepts_advance ready).bind
      intro _ d _ ready
      exact accepts_jump none expr least ready
  | @jumpFrom ks cond s n expr least =>
      have first : c.kind = .keyword .jump := first
      simp only [List.cons_append, List.append_assoc, List.nil_append] at ready
      apply accepts_here
      rw [first]
      apply (accepts_advance ready).bind
      intro _ d _ ready
      exact accepts_jump (some s) expr least ready
  | @goto n least =>
      have first : c.kind = .keyword .goto := first
      apply accepts_here
      rw [first]
      apply (accepts_advance ready).bind
      intro _ d _ ready
      apply (accepts_index _ ready least).bind
      rintro _ d rfl ready
      exact accepts_pure ready rfl
  | finish =>
      have first : c.kind = .keyword .finish := first
      apply accepts_here
      rw [first]
      exact accepts_word ready rfl
  | arbitrary =>
      have first : c.kind = .keyword .arbitrary := first
      apply accepts_here
      rw [first]
      exact accepts_word ready rfl
  | unreachable =>
      have first : c.kind = .keyword .unreachable := first
      apply accepts_here
      rw [first]
      exact accepts_word ready rfl

theorem accepts_parse {ks : List TokenKind} {stmt : Stmt} (derives : IsStmt ks stmt)
    (ready : c.Ready (ks ++ rest)) : parse.Accepts (fun stmt' => stmt'.bare = stmt) c rest := by
  obtain ⟨derives⟩ := derives
  rw [List.append_assoc] at ready
  apply accepts_here
  apply (accepts_body derives ready).bind
  rintro kind d rfl ready
  apply (accepts_expect ready).bind
  intro _ d _ ready
  exact accepts_spanFrom fun span => accepts_pure ready rfl

end Stmt

end JumpIR.Tree
