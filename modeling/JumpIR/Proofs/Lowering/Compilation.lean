import JumpIR.Compile.Pipeline
import JumpIR.Proofs.Diagnostic.Collection
import JumpIR.Proofs.Lowering.Function

/-!
# Compilations

A text that compiles gives a `Compilation`: its linked module, what the names of the module mean,
and the program, function by function. The number of a function is its position in the module.
-/

set_option autoImplicit false

namespace JumpIR.Lowering

/-! ### Numbers of functions -/

/-- Each name has the number of its position. -/
def Numbers (names : List String) (pairs : List (String × FuncId)) : Prop :=
  pairs.length = names.length ∧ ∀ name id, (name, id) ∈ pairs → names[id.index]? = some name

theorem Numbers.assign {names : List String} {pairs : List (String × FuncId)}
    (numbers : Numbers names pairs) {name : String} (fresh : name ∉ names) :
    Numbers (names ++ [name]) (Lowering.assign name ⟨pairs.length⟩ pairs) := by
  obtain ⟨length, positions⟩ := numbers
  have kept : pairs.filter (fun pair => !(pair.1 == name)) = pairs := by
    rw [List.filter_eq_self]
    rintro ⟨other, id⟩ member
    have listed := List.mem_of_getElem? (positions other id member)
    have differ : other ≠ name := fun same => fresh (same ▸ listed)
    rw [beq_eq_false_iff_ne.mpr differ]
    rfl
  unfold Lowering.assign
  rw [kept]
  refine ⟨?_, ?_⟩
  · rw [List.length_cons, List.length_append, length]
    rfl
  · intro other id member
    rcases List.mem_cons.mp member with here | later
    · cases here
      rw [length]
      exact List.getElem?_concat_length
    · have found := positions other id later
      rw [List.getElem?_append_left (List.getElem?_eq_some_iff.mp found).1]
      exact found

theorem mem_of_lookup {name : String} {id : FuncId} {pairs : List (String × FuncId)}
    (found : pairs.lookup name = some id) : (name, id) ∈ pairs := by
  induction pairs with
  | nil => cases found
  | cons pair rest ih =>
      obtain ⟨key, value⟩ := pair
      rw [List.lookup_cons] at found
      by_cases same : (name == key) = true
      · rw [same] at found
        cases found
        rw [eq_of_beq same]
        exact List.mem_cons_self
      · rw [Bool.eq_false_iff.mpr same] at found
        exact List.mem_cons_of_mem _ (ih found)

theorem numberAll_numbers {symbols : SymbolTable} {decls : List Tree.Decl} :
    ∀ (names : List String) {defs done : TypeDefs}, numberAll symbols decls defs = .ok done →
      Numbers names defs.numbers.functions →
      (names ++ (decls.filterMap Tree.Decl.function?).map (·.name.name)).Nodup →
      Numbers (names ++ (decls.filterMap Tree.Decl.function?).map (·.name.name))
        done.numbers.functions := by
  induction decls with
  | nil =>
      intro names defs done numbered numbers _distinct
      cases numbered
      rw [List.filterMap_nil, List.map_nil, List.append_nil]
      exact numbers
  | cons decl rest ih =>
      intro names defs done numbered numbers distinct
      cases decl with
      | value v => exact ih names numbered numbers distinct
      | register r => exact ih names numbered numbers distinct
      | enum e =>
          obtain ⟨symbol, _found, numbered⟩ := bind_ok numbered
          exact ih names numbered numbers distinct
      | union u =>
          obtain ⟨symbol, _found, numbered⟩ := bind_ok numbered
          exact ih names numbered numbers distinct
      | function f =>
          have split : names ++ ((Tree.Decl.function f :: rest).filterMap Tree.Decl.function?).map
              (·.name.name) =
              (names ++ [f.name.name]) ++ (rest.filterMap Tree.Decl.function?).map (·.name.name) :=
            (List.append_assoc names [f.name.name] _).symm
          rw [split] at distinct ⊢
          refine ih (names ++ [f.name.name]) numbered (numbers.assign ?_) distinct
          intro member
          have parts := (List.nodup_append.mp (List.nodup_append.mp distinct).1).2.2
          exact parts _ member _ List.mem_cons_self rfl

theorem defineAll_numbers {symbols : SymbolTable} {decls : List Tree.Decl} :
    ∀ {types done : TypeDefs} {registers after : RegisterDefs},
      defineAll symbols decls types registers = .ok (done, after) →
      done.numbers = types.numbers := by
  induction decls with
  | nil =>
      intro types done registers after defined
      cases defined
      rfl
  | cons decl rest ih =>
      intro types done registers after defined
      cases decl with
      | value v => exact ih defined
      | enum e => exact ih defined
      | function f => exact ih defined
      | register r =>
          obtain ⟨type, _typed, defined⟩ := bind_ok defined
          exact ih defined
      | union u =>
          obtain ⟨variants, _made, defined⟩ := bind_ok defined
          obtain ⟨symbol, _found, defined⟩ := bind_ok defined
          refine (ih defined).trans ?_
          unfold setVariants
          split <;> rfl

theorem declareGlobals_ok {m : Tree.Module} {symbols : SymbolTable} {options : Options}
    {globals : Globals} {types : Program}
    (declared : declareGlobals m symbols options = .ok (globals, types))
    (distinct : (m.functions.map (·.name.name)).Nodup) :
    Numbers (m.functions.map (·.name.name)) globals.numbers.functions ∧
      globals.raising = m.raising ∧ globals.options = options := by
  obtain ⟨numbered, first, declared⟩ := bind_ok declared
  obtain ⟨⟨defined, registers⟩, second, done⟩ := bind_ok declared
  cases done
  refine ⟨?_, rfl, rfl⟩
  change Numbers _ defined.numbers.functions
  rw [defineAll_numbers second]
  exact numberAll_numbers [] first ⟨rfl, fun _ _ member => nomatch member⟩ distinct

/-! ### Linked modules -/

theorem nodup_of_checkBodies {table : SymbolTable} {decls : List Tree.FunctionDecl} :
    ∀ {seen : List String}, Tree.checkBodies table seen decls = [] →
      (decls.map (·.name.name)).Nodup ∧ ∀ name ∈ decls.map (·.name.name), name ∉ seen := by
  induction decls with
  | nil =>
      intro seen _checked
      refine ⟨List.nodup_nil, ?_⟩
      intro name member
      cases member
  | cons decl rest ih =>
      intro seen checked
      unfold Tree.checkBodies at checked
      obtain ⟨here, later⟩ := List.append_eq_nil_iff.mp checked
      obtain ⟨distinct, unseen⟩ := ih later
      have fresh : decl.name.name ∉ seen := by
        intro member
        rw [if_pos (List.contains_iff_mem.mpr member)] at here
        cases here
      refine ⟨List.nodup_cons.mpr ⟨?_, distinct⟩, ?_⟩
      · intro member
        exact unseen _ member List.mem_cons_self
      · intro name member
        rcases List.mem_cons.mp member with same | other
        · exact same ▸ fresh
        · intro seenToo
          exact unseen name other (List.mem_cons_of_mem _ seenToo)

theorem hasErrors_ofReports {fault : Type} [Cause fault] (source : SourceText)
    (reports : List (Report fault))
    (clean : (Diagnostics.ofReports source reports).hasErrors = false) : reports = [] := by
  rw [Diagnostics.ofReports_eq_ofList] at clean
  by_contra some
  have reported : reports.map (Report.diagnostic source) ≠ [] :=
    fun none => some (List.map_eq_nil_iff.mp none)
  exact Bool.false_ne_true (clean.symm.trans (Diagnostics.hasErrors_ofList.mpr reported))

/-- The module that is read from the text and its linked one, both without a fault. -/
structure Links (source : SourceText) (m : Tree.Module) (l : LinkedModule) : Prop where
  tokens : (tokensOf source.chars).2 = []
  parsed : Tree.Module.ofTokens (tokensOf source.chars).1 = (m, [])
  linked : m.link = (l, [])

theorem links_of_linked {source : SourceText} {l : LinkedModule} (done : source.linked = .ok l) :
    ∃ m, Links source m l := by
  unfold SourceText.linked Tree.Module.ofSource at done
  dsimp only at done
  split at done
  · cases done
  · rename_i read
    split at done
    · cases done
    · rename_i clean
      cases done
      have total := of_decide_eq_false (Bool.eq_false_iff.mpr read)
      change ¬ 0 < Diagnostics.total _ + Diagnostics.total _ at total
      have tokens := hasErrors_ofReports source (tokensOf source.chars).2
        (decide_eq_false (by omega))
      have parsed := hasErrors_ofReports source
        (Tree.Module.ofTokens (tokensOf source.chars).1).2 (decide_eq_false (by omega))
      have linked := hasErrors_ofReports source _ (Bool.eq_false_iff.mpr clean)
      exact ⟨_, tokens, Prod.ext rfl parsed, Prod.ext rfl linked⟩

theorem Links.nodup {source : SourceText} {m : Tree.Module} {l : LinkedModule}
    (links : Links source m l) : (l.tree.functions.map (·.name.name)).Nodup := by
  have linked := congrArg Prod.fst links.linked
  have clean := congrArg Prod.snd links.linked
  subst linked
  exact (nodup_of_checkBodies (List.append_eq_nil_iff.mp clean).2).1

/-! ### Compilations -/

/-- A module and the program that it is compiled into. -/
structure Compilation where
  linked : LinkedModule
  options : Options
  globals : Globals
  /-- The declared types and registers, without functions. -/
  types : Program
  functions : List Reference.Function
  program : Program
  declared : declareGlobals linked.tree linked.symbols options = .ok (globals, types)
  ofDecls : Reference.Function.declareAll globals linked.tree.functions = .ok functions
  decls : functions.map (fun f => f.scope.decl) = linked.tree.functions
  inGlobals : ∀ f ∈ functions, f.scope.globals = globals
  enums : program.enums = types.enums
  unions : program.unions = types.unions
  registers : program.registers = types.registers
  lists : globals.Lists program.supports
  compiles : List.Forall₂ (Compiles program.supports) functions program.functions
  distinct : (linked.tree.functions.map (·.name.name)).Nodup

theorem exists_compilation {source : SourceText} {options : Options} {program : Program}
    (compiled : source.compile options = .ok program) :
    ∃ c : Compilation, source.linked = .ok c.linked ∧ c.options = options ∧
      c.program = program := by
  obtain ⟨m, linked, generated⟩ := bind_ok compiled
  cases lowered : generate m.tree m.symbols options with
  | error fault =>
      rw [lowered] at generated
      cases generated
  | ok made =>
      rw [lowered] at generated
      cases generated
      obtain ⟨⟨globals, types⟩, declared, lowered⟩ := bind_ok lowered
      obtain ⟨⟨defs, supports⟩, bodies, lowered⟩ := bind_ok lowered
      cases lowered
      have none : globals.Lists [] := fun op member => nomatch member
      obtain ⟨tree, links⟩ := links_of_linked linked
      obtain ⟨functions, ofDecls, decls, inGlobals, compiles, _grown, lists⟩ :=
        lowerFunctions_ok none bodies
      exact ⟨⟨m, options, globals, types, functions,
        { types with supports := supports, functions := defs }, declared, ofDecls, decls, inGlobals,
        rfl, rfl, rfl, lists, compiles, links.nodup⟩, linked, rfl, rfl⟩

namespace Compilation

variable (c : Compilation)

theorem names : c.functions.map Reference.Function.name =
    c.linked.tree.functions.map (·.name.name) := by
  rw [← c.decls, List.map_map]
  rfl

theorem raising_eq : c.globals.raising = c.linked.tree.raising :=
  (declareGlobals_ok c.declared c.distinct).2.1

theorem options_eq : c.globals.options = c.options :=
  (declareGlobals_ok c.declared c.distinct).2.2

variable {c}

/-- The function of a position, on both sides. -/
theorem compiles_of_getElem? {index : Nat} {f : Reference.Function}
    (found : c.functions[index]? = some f) :
    ∃ d, c.program.functions[index]? = some d ∧ Compiles c.program.supports f d :=
  exists_source_at c.compiles found

theorem functionId?_eq (name : String) :
    c.program.functionId? name =
      (c.functions.findIdx? fun f => f.name == name).map FuncId.mk := by
  have same : c.program.functions.findIdx? (fun d => d.name == name) =
      c.functions.findIdx? fun f => f.name == name := by
    have related := c.compiles
    generalize c.functions = functions at related
    generalize c.program.functions = defs at related
    induction related with
    | nil => rfl
    | cons compiles _others ih =>
        rw [List.findIdx?_cons, List.findIdx?_cons, compiles.name, ih]
  unfold Program.functionId?
  rw [same]

theorem function_of_functionId? {name : String} {id : FuncId}
    (found : c.program.functionId? name = some id) :
    ∃ f d, c.functions.find? (fun f => f.name == name) = some f ∧
      c.program.function? id = some d ∧ Compiles c.program.supports f d := by
  rw [functionId?_eq] at found
  obtain ⟨index, first, rfl⟩ := Option.map_eq_some_iff.mp found
  obtain ⟨bound, holds, before⟩ := List.findIdx?_eq_some_iff_getElem.mp first
  obtain ⟨d, there, compiles⟩ := compiles_of_getElem? (List.getElem?_eq_getElem bound)
  refine ⟨c.functions[index], d, ?_, there, compiles⟩
  rw [List.find?_eq_some_iff_getElem]
  refine ⟨holds, index, bound, rfl, ?_⟩
  intro other earlier
  have differ := before other earlier
  simp only [Bool.not_eq_true] at differ
  rw [differ]
  rfl

theorem function_of_lookup {name : String} {id : FuncId}
    (found : c.globals.numbers.functions.lookup name = some id) :
    ∃ f d, c.functions.find? (fun f => f.name == name) = some f ∧
      c.program.function? id = some d ∧ Compiles c.program.supports f d := by
  have position := (declareGlobals_ok c.declared c.distinct).1.2 name id (mem_of_lookup found)
  rw [← c.names, List.getElem?_map] at position
  obtain ⟨f, here, named⟩ := Option.map_eq_some_iff.mp position
  obtain ⟨d, there, compiles⟩ := compiles_of_getElem? here
  refine ⟨f, d, ?_, there, compiles⟩
  obtain ⟨bound, at'⟩ := List.getElem?_eq_some_iff.mp here
  rw [List.find?_eq_some_iff_getElem]
  refine ⟨beq_iff_eq.mpr named, id.index, bound, at', ?_⟩
  intro other before
  have distinct := c.distinct
  rw [← c.names] at distinct
  have differ := (List.pairwise_iff_getElem.mp distinct) other id.index (by simp; omega)
    (by simp; exact bound) before
  rw [List.getElem_map, List.getElem_map, at', named] at differ
  simp [differ]

end Compilation

end JumpIR.Lowering
