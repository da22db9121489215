import JumpIR.Proofs.Lowering.Operations
import JumpIR.Proofs.Lowering.Targets
import JumpIR.Proofs.Reference.Correctness

/-!
# Compiled programs are closed

Main statement: `compile_closed`. Every number in a compiled program is in range, and it is the
number of what the text names in that place.
-/

set_option autoImplicit false

namespace JumpIR

namespace Lowering.Compilation

variable {c : Compilation} {f : Reference.Function} {d : FunctionDef}

/-- The locals of a function are declared by its parameters, and then by its statements. -/
theorem declared_of_compiles (member : f ∈ c.functions)
    (compiles : Compiles c.program.supports f d) :
    ∃ types params, c.globals.signature f.scope.decl = .ok (types, d.result) ∧
      declareParams f.name f.scope.decl.params types [] = .ok params ∧
      declareLocals c.globals f.name f.body params = .ok d.locals := by
  have declared := compiles.declared
  rw [c.inGlobals f member] at declared
  obtain ⟨⟨types, result⟩, signed, declared⟩ := bind_ok declared
  obtain ⟨params, paramsDone, declared⟩ := bind_ok declared
  obtain ⟨locals, localsDone, declared⟩ := bind_ok declared
  have same : (⟨⟨c.globals, f.scope.decl, locals⟩, result⟩ : Reference.Function) = f :=
    Except.ok.inj declared
  refine ⟨types, params, ?_, paramsDone, ?_⟩
  · rw [compiles.result, ← congrArg (·.result) same]
    exact signed
  · rw [compiles.locals, ← congrArg (·.scope.locals) same]
    exact localsDone

/-- The signature of a function is that of the value with its name. -/
theorem signature_of_compiles (describes : c.globals.Describes c.linked.tree c.program)
    {types : List Ty} (signed : c.globals.signature f.scope.decl = .ok (types, d.result)) :
    ∃ v params result span, .value v ∈ c.linked.tree.decls ∧
      v.name.name = f.scope.decl.name.name ∧ v.type = .function params result span ∧
      params.length = f.scope.decl.params.length ∧ result.Denotes c.program d.result ∧
      Tree.TypeExpr.AllDenote c.program params types := by
  obtain ⟨info, params, result, span, known, kind, type, arity, ofParams, ofResult⟩ :=
    Globals.info_of_signature signed
  obtain ⟨inTable, named⟩ := describes.info_of_info? known
  obtain ⟨v, inModule, sameName, sameType, _value⟩ := Tree.mem_infosFrom_value inTable kind
  have isFunction : v.type = .function params result span :=
    Option.some.inj (sameType.symm.trans type)
  obtain ⟨denoteParams, denotesResult⟩ :=
    describes.denotes_of_value inModule isFunction ofParams ofResult
  exact ⟨v, params, result, span, inModule, sameName.symm.trans named, isFunction, arity,
    denotesResult, denoteParams⟩

/-- Every local is a parameter or a declared name, with the type that the text gives it. -/
theorem hasLocal_of_compiles (describes : c.globals.Describes c.linked.tree c.program)
    (member : f ∈ c.functions) {types : List Ty} {params : List LocalDef}
    {paramTypes : List Tree.TypeExpr}
    (paramsDone : declareParams f.name f.scope.decl.params types [] = .ok params)
    (localsDone : declareLocals c.globals f.name f.body params = .ok d.locals)
    (denote : Tree.TypeExpr.AllDenote c.program paramTypes types) :
    ∀ l ∈ d.locals, f.scope.decl.HasLocal c.program paramTypes l := by
  intro l inLocals
  rcases source_of_declareLocals localsDone l inLocals with
    inParams | ⟨stmt, inBody, name, declType, init, isDeclare, localNamed, typed⟩
  · rcases source_of_declareParams paramsDone l inParams with
      impossible | ⟨index, name, here, typed, localNamed⟩
    · cases impossible
    · obtain ⟨paramType, there, denotes⟩ := exists_source_at denote.related.flip typed
      exact .param here there localNamed denotes
  · refine .declared inBody isDeclare localNamed (describes.denotes_of_type declType ?_ typed)
    intro ref inType
    have inDecls := Tree.Module.mem_functions.mp (decl_mem member)
    refine describes.knows_of_mem inDecls ref ?_
    refine List.mem_flatMap.mpr ⟨stmt, inBody, ?_⟩
    rw [Tree.Stmt.refs, isDeclare]
    exact inType

theorem becomes_of_compiles (describes : c.globals.Describes c.linked.tree c.program)
    (member : f ∈ c.functions) (compiles : Compiles c.program.supports f d) :
    f.scope.decl.Becomes c.linked.tree c.program d := by
  obtain ⟨before, after, body⟩ := compiles.body
  obtain ⟨nonempty, leaves⟩ := Body.bound_lowerBody body
  obtain ⟨layout⟩ := compiles.layout
  have names : f.scope.globals.Describes c.linked.tree c.program := by
    rw [c.inGlobals f member]
    exact describes
  refine ⟨compiles.name, nonempty, ?_, ?_, ?_, ?_⟩
  · rw [compiles.entry]
    exact List.length_pos_iff.mpr nonempty
  · obtain ⟨types, params, signed, paramsDone, localsDone⟩ := declared_of_compiles member compiles
    obtain ⟨v, paramTypes, result, span, inModule, named, isFunction, arity, denotes, denote⟩ :=
      signature_of_compiles describes signed
    exact ⟨v, paramTypes, result, span, inModule, named, isFunction, arity, denotes,
      hasLocal_of_compiles describes member paramsDone localsDone denote⟩
  · intro block inBlocks op inOps
    obtain ⟨site, found⟩ := Site.exists_hasOp inBlocks inOps
    exact layout.yields names compiles.locals found
  · intro block inBlocks
    refine ⟨(leaves block inBlocks).successors, ?_⟩
    intro cond inConds
    rcases (leaves block inBlocks).asks inConds with
      pending | ⟨stmt, inBody, value, target, location, kind, lowered⟩
    · exact Or.inl pending
    · exact Or.inr ⟨stmt, inBody, value, target, location, kind,
        Scope.denotes_of_operand names compiles.locals value lowered⟩

theorem becomes {source : SourceText} (linked : source.linked = .ok c.linked) :
    c.linked.tree.Becomes c.program := by
  have describes := c.describes linked
  refine ⟨describes.enums, ?_, ?_, ?_, ?_⟩
  · refine related_imp describes.unions ?_
    intro u member d fills
    have inModule := Tree.Module.mem_unions.mp member
    refine ⟨fills.name, related_imp (variantDefs_ok fills.variants) ?_⟩
    rintro v inUnion variant ⟨named, typed⟩
    refine ⟨named, describes.denotes_of_type v.payload ?_ typed⟩
    intro ref inPayload
    exact describes.knows_of_mem inModule ref (List.mem_flatMap.mpr ⟨v, inUnion, inPayload⟩)
  · refine related_imp describes.registers.defs ?_
    rintro r member d ⟨named, typed⟩
    have inModule := Tree.Module.mem_registers.mp member
    exact ⟨named, describes.denotes_of_type r.type (describes.knows_of_mem inModule) typed⟩
  · intro op member
    obtain ⟨span, found⟩ := describes.supports op member
    exact describes.binds_of_support found
  · rw [← c.decls, List.forall₂_map_left_iff]
    exact related_imp c.compiles
      fun f member d compiles => becomes_of_compiles describes member compiles

end Lowering.Compilation

/-- A text that compiles gives a closed program, in which each number stands for what the text
names. -/
theorem compile_closed {source : SourceText} {options : Lowering.Options} {program : Program}
    (compiled : source.compile options = .ok program) :
    program.Closed ∧ ∃ linked, source.linked = .ok linked ∧ linked.tree.names.Nodup ∧
      linked.tree.Becomes program := by
  obtain ⟨c, linked, rfl, rfl⟩ := Lowering.exists_compilation compiled
  have becomes := c.becomes linked
  exact ⟨becomes.closed, c.linked, linked, (c.describes linked).distinct, becomes⟩

/-- A text with a variant of each sort, a register, a support operation and two functions. -/
def shapeText : SourceText := .ofString "shape" (String.join [
  "register zlast : %enum zcolor\n",
  "union zshape \x7b zdot: %unit, zbox: %enum zcolor \x7d\n",
  "enum zcolor \x7b zred, zgreen \x7d\n",
  "val zneg = \"not\" : (%bool) -> %bool\n",
  "val zmain : (%unit) -> %bool\n",
  "fn zmain(zu) \x7b return = zpaint(zbox(zred)); end; \x7d\n",
  "val zpaint : (%union zshape) -> %bool\n",
  "fn zpaint(zs) \x7b jump zs is zbox goto 3; zlast = zs as zbox; goto 4;\n",
  "  zlast = zgreen; return = zneg(true); end; \x7d\n"])

theorem exists_compile_shapeText : ∃ program, shapeText.compile .default = .ok program := by
  have works : (shapeText.compile .default).toOption.isSome = true := by
    decide +kernel
  cases compiled : shapeText.compile .default with
  | error faults =>
      rw [compiled] at works
      cases works
  | ok program => exact ⟨program, rfl⟩

theorem compile_closed_shapeText : ∃ program, shapeText.compile .default = .ok program ∧
    program.Closed ∧ ∃ linked, shapeText.linked = .ok linked ∧ linked.tree.names.Nodup ∧
      linked.tree.Becomes program := by
  obtain ⟨program, compiled⟩ := exists_compile_shapeText
  exact ⟨program, compiled, compile_closed compiled⟩

end JumpIR
