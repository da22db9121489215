import Mathlib.Data.List.Forall2
import JumpIR.Lowering.Generate
import JumpIR.Proofs.Lowering.Layout
import JumpIR.Proofs.Reference.Interpreter

/-!
# Functions of a program

`Compiles` relates a function as its text has it to the function of the program that it becomes.
Main statement: lowering relates the functions of a module, one by one.
-/

set_option autoImplicit false

namespace JumpIR.Lowering

/-! ### Locals -/

/-- The list has a local of that name, the first of which has the type. -/
def Declares (locals : List LocalDef) (name : String) (type : Ty) : Prop :=
  ∃ index found, locals.findIdx? (fun l => l.name == name) = some index ∧
    locals[index]? = some found ∧ found.type = type

theorem Declares.mono {locals more : List LocalDef} {name : String} {type : Ty}
    (declares : Declares locals name type) (grown : locals <+: more) :
    Declares more name type := by
  obtain ⟨index, found, first, here, typed⟩ := declares
  obtain ⟨rest, rfl⟩ := grown
  refine ⟨index, found, ?_, ?_, typed⟩
  · rw [List.findIdx?_append, first]
    rfl
  · rw [List.getElem?_append_left (List.getElem?_eq_some_iff.mp here).1]
    exact here

theorem declareLocal_ok {function : String} {locals more : List LocalDef} {name : Tree.Ident}
    {type : Ty} (done : declareLocal function locals name type = .ok more) :
    locals <+: more ∧ Declares more name.name type := by
  unfold declareLocal at done
  cases look : locals.find? fun l => l.name == name.name with
  | none =>
      rw [look] at done
      cases done
      refine ⟨List.prefix_append _ _, locals.length, ⟨name.name, type⟩, ?_,
        List.getElem?_concat_length, rfl⟩
      have absent : locals.findIdx? (fun l => l.name == name.name) = none := by
        rw [List.findIdx?_eq_none_iff]
        intro l member
        exact Bool.eq_false_iff.mpr (List.find?_eq_none.mp look l member)
      rw [List.findIdx?_append, absent]
      simp
  | some found =>
      rw [look] at done
      dsimp only at done
      split at done
      · rename_i typed
        cases done
        obtain ⟨holds, index, bound, here, first⟩ := List.find?_eq_some_iff_getElem.mp look
        refine ⟨List.prefix_rfl, index, found, ?_, ?_, typed⟩
        · rw [List.findIdx?_eq_some_iff_getElem]
          refine ⟨bound, here ▸ holds, ?_⟩
          intro other before
          exact fun impossible => absurd impossible (by simpa using first other before)
        · rw [List.getElem?_eq_getElem bound, here]
      · cases done

theorem declareLocals_ok {globals : Globals} {function : String} {stmts : List Tree.Stmt} :
    ∀ {locals more : List LocalDef}, declareLocals globals function stmts locals = .ok more →
      locals <+: more ∧ ∀ stmt ∈ stmts, ∀ name type init, stmt.kind = .declare name type init →
        ∃ known, globals.type type = .ok known ∧ Declares more name.name known := by
  induction stmts with
  | nil =>
      intro locals more done
      cases done
      refine ⟨List.prefix_rfl, ?_⟩
      intro stmt member
      cases member
  | cons first rest ih =>
      intro locals more done
      unfold declareLocals at done
      split at done
      · rename_i name type init kind
        obtain ⟨known, typed, done⟩ := bind_ok done
        obtain ⟨middle, declared, done⟩ := bind_ok done
        obtain ⟨grown, declares⟩ := declareLocal_ok declared
        obtain ⟨grown', others⟩ := ih done
        refine ⟨grown.trans grown', ?_⟩
        intro stmt member name' type' init' kind'
        rcases List.mem_cons.mp member with here | later
        · subst here
          cases kind.symm.trans kind'
          exact ⟨known, typed, declares.mono grown'⟩
        · exact others stmt later name' type' init' kind'
      · rename_i other
        obtain ⟨grown, others⟩ := ih done
        refine ⟨grown, ?_⟩
        intro stmt member name type init kind
        rcases List.mem_cons.mp member with here | later
        · subst here
          exact absurd kind (other name type init)
        · exact others stmt later name type init kind

/-! ### Bodies -/

/-- The body of a scope, cut at its leaders. -/
def Scope.cut (s : Scope) : Body := ⟨s, leaders s.decl.body⟩

theorem lowerBody_ok (scope : Scope) {supports after : List SupportDef} {blocks : List Block}
    (lists : scope.globals.Lists supports)
    (lowered : lowerBody scope supports = .ok (blocks, after)) :
    Nonempty (scope.cut.Layout blocks after) ∧ supports <+: after ∧ scope.globals.Lists after := by
  unfold lowerBody at lowered
  split at lowered
  · rename_i empty
    cases lowered
    have isEmpty : scope.cut.scope.decl.body = [] := List.isEmpty_iff.mp empty
    have trap : scope.cut.trap = .unreachable s!"{scope.name}: empty body" := if_pos empty
    have layout := Body.Layout.ofEmpty isEmpty supports rfl
    rw [trap] at layout
    exact ⟨⟨layout⟩, List.prefix_rfl, lists⟩
  · rename_i nonempty
    obtain ⟨g, built, done⟩ := bind_ok lowered
    cases done
    exact Body.exists_layout (b := scope.cut) rfl
      (fun empty => nonempty (List.isEmpty_iff.mpr empty))
      lists built

/-! ### Functions -/

/-- The function `d` of a program that lists `supports` does what `f` says. -/
structure Compiles (supports : List SupportDef) (f : Reference.Function) (d : FunctionDef) :
    Prop where
  name : d.name = f.name
  params : d.params = (List.range f.scope.decl.params.length).map LocalId.mk
  locals : d.locals = f.scope.locals
  result : d.result = f.result
  entry : d.entry = ⟨0⟩
  mayRaise : d.mayRaise = f.scope.globals.mayRaise f.name
  declares : ∀ stmt ∈ f.body, ∀ name type init, stmt.kind = .declare name type init →
    ∃ known, f.scope.globals.type type = .ok known ∧ Declares f.scope.locals name.name known
  layout : Nonempty (f.scope.cut.Layout d.blocks supports)
  declared : Reference.Function.declare f.scope.globals f.scope.decl = .ok f
  body : ∃ before after, lowerBody f.scope before = .ok (d.blocks, after)

theorem Compiles.mono {supports more : List SupportDef} {f : Reference.Function} {d : FunctionDef}
    (compiles : Compiles supports f d) (grown : supports <+: more) : Compiles more f d :=
  { compiles with layout := compiles.layout.elim fun layout => ⟨layout.mono grown⟩ }

theorem lowerFunction_ok {globals : Globals} {decl : Tree.FunctionDecl}
    {supports after : List SupportDef} {d : FunctionDef} (lists : globals.Lists supports)
    (lowered : lowerFunction globals decl supports = .ok (d, after)) :
    ∃ f, Reference.Function.declare globals decl = .ok f ∧ f.scope.globals = globals ∧
      f.scope.decl = decl ∧ Compiles after f d ∧ supports <+: after ∧ globals.Lists after := by
  obtain ⟨⟨paramTypes, result⟩, signed, lowered⟩ := bind_ok lowered
  obtain ⟨params, paramsDone, lowered⟩ := bind_ok lowered
  obtain ⟨locals, localsDone, lowered⟩ := bind_ok lowered
  obtain ⟨⟨blocks, last⟩, body, lowered⟩ := bind_ok lowered
  cases lowered
  obtain ⟨layout, grown, lists'⟩ := lowerBody_ok ⟨globals, decl, locals⟩ lists body
  have declared : Reference.Function.declare globals decl =
      .ok ⟨⟨globals, decl, locals⟩, result⟩ := by
    unfold Reference.Function.declare
    rw [bind_of_ok signed]
    dsimp only
    rw [bind_of_ok paramsDone, bind_of_ok localsDone]
  exact ⟨⟨⟨globals, decl, locals⟩, result⟩, declared, rfl, rfl,
    ⟨rfl, rfl, rfl, rfl, rfl, rfl, (declareLocals_ok localsDone).2, layout, declared,
      supports, after, body⟩, grown, lists'⟩

theorem lowerFunctions_ok {globals : Globals} {decls : List Tree.FunctionDecl} :
    ∀ {supports after : List SupportDef} {defs : List FunctionDef}, globals.Lists supports →
      lowerFunctions globals decls supports = .ok (defs, after) →
      ∃ functions, Reference.Function.declareAll globals decls = .ok functions ∧
        functions.map (fun f => f.scope.decl) = decls ∧
        (∀ f ∈ functions, f.scope.globals = globals) ∧
        List.Forall₂ (Compiles after) functions defs ∧ supports <+: after ∧
        globals.Lists after := by
  induction decls with
  | nil =>
      intro supports after defs lists lowered
      cases lowered
      refine ⟨[], rfl, rfl, ?_, .nil, List.prefix_rfl, lists⟩
      intro f member
      cases member
  | cons decl rest ih =>
      intro supports after defs lists lowered
      obtain ⟨⟨d, middle⟩, first, lowered⟩ := bind_ok lowered
      obtain ⟨⟨others, last⟩, later, lowered⟩ := bind_ok lowered
      cases lowered
      obtain ⟨f, declared, inGlobals, ofDecl, compiles, grown, lists'⟩ :=
        lowerFunction_ok lists first
      obtain ⟨functions, declaredAll, decls', inGlobals', related, grown', listsAll⟩ :=
        ih lists' later
      refine ⟨f :: functions, ?_, ?_, ?_, .cons (compiles.mono grown') related,
        grown.trans grown', listsAll⟩
      · unfold Reference.Function.declareAll
        rw [bind_of_ok declared, bind_of_ok declaredAll]
      · rw [List.map_cons, ofDecl, decls']
      · intro g member
        rcases List.mem_cons.mp member with here | later
        · rw [here]
          exact inGlobals
        · exact inGlobals' g later

end JumpIR.Lowering
