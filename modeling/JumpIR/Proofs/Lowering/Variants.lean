import JumpIR.Proofs.Lowering.Closed

/-!
# Numbers of variants

The position of a variant in its type is its number at every stage: in the symbol table, in the
definition of the program, and wherever a body names the variant. Main statement:
`compile_numbersVariants`.
-/

set_option autoImplicit false

namespace JumpIR

/-! ### Positions -/

/-- With distinct names, a name is found at its own position. -/
theorem findIdx?_of_distinct {α : Type} {name : α → String} {list : List α}
    (distinct : (list.map name).Nodup) {index : Nat} {a : α} (here : list[index]? = some a) :
    list.findIdx? (fun b => name b == name a) = some index := by
  obtain ⟨bound, rfl⟩ := List.getElem?_eq_some_iff.mp here
  rw [List.findIdx?_eq_some_iff_getElem]
  refine ⟨bound, beq_self_eq_true _, ?_⟩
  intro other before same
  have differ := List.pairwise_iff_getElem.mp distinct other index (by simp; omega)
    (by simpa using bound) before
  rw [List.getElem_map, List.getElem_map] at differ
  exact differ (eq_of_beq same)

theorem findIdx?_of_not_mem {α : Type} {name : α → String} {list : List α} {other : String}
    (absent : other ∉ list.map name) : list.findIdx? (fun b => name b == other) = none := by
  rw [List.findIdx?_eq_none_iff]
  intro b member
  rw [beq_eq_false_iff_ne]
  intro same
  exact absent (List.mem_map.mpr ⟨b, member, same⟩)

/-! ### Entries of variants -/

/-- The table has the variant as one of the type, with that number. -/
def SymbolTable.HasVariant (table : SymbolTable) (type variant : String) (kind : SymbolKind)
    (number : SymbolValue) : Prop :=
  ∃ info parent, table.info? variant = some info ∧ info.kind = kind ∧ info.value = number ∧
    info.parent = some parent ∧ table.lookup? type = some parent

namespace Tree

open SymbolTable

/-- The entry of a variant stands behind the one of its type, and leads back to it. -/
theorem hasVariant_of_split {infos before after variants : List SymbolInfo}
    {holder info : SymbolInfo} (distinct : (infos.map (·.name)).Nodup)
    (split : infos = before ++ holder :: variants ++ after)
    (member : info ∈ variants) (child : info.parent = some ⟨before.length⟩) :
    (ofList infos).HasVariant holder.name info.name info.kind info.value := by
  refine ⟨info, ⟨before.length⟩, ?_, rfl, rfl, child, ?_⟩
  · rw [info?_eq_some distinct]
    exact ⟨by simp [split, member], rfl⟩
  · rw [lookup?_eq_some distinct]
    exact ⟨holder, by simp [split], rfl⟩

theorem hasVariant_ordinal {decls : List Decl} {e : EnumDecl} {index : Nat} {v : Ident}
    (distinct : ((infosFrom 0 0 decls).map (·.name)).Nodup) (member : .enum e ∈ decls)
    (here : e.variants[index]? = some v) :
    (ofList (infosFrom 0 0 decls)).HasVariant e.name.name v.name .enumVariant (.ordinal index) := by
  obtain ⟨k, there⟩ := List.getElem?_of_mem member
  obtain ⟨before, after, split⟩ := infosFrom_split 0 0 there
  exact hasVariant_of_split distinct split
    (List.mem_map.mpr ⟨(v, index), List.mem_zipIdx_iff_getElem?.mpr here, rfl⟩) (by simp)

theorem hasVariant_tag {decls : List Decl} {u : UnionDecl} {index : Nat} {v : UnionVariant}
    (distinct : ((infosFrom 0 0 decls).map (·.name)).Nodup) (member : .union u ∈ decls)
    (here : u.variants[index]? = some v) :
    (ofList (infosFrom 0 0 decls)).HasVariant u.name.name v.name.name .unionVariant
      (.tag index) := by
  obtain ⟨k, there⟩ := List.getElem?_of_mem member
  obtain ⟨before, after, split⟩ := infosFrom_split 0 0 there
  exact hasVariant_of_split distinct split
    (List.mem_map.mpr ⟨(v, index), List.mem_zipIdx_iff_getElem?.mpr here, rfl⟩) (by simp)

theorem nodup_variants_enum {m : Module} (distinct : m.names.Nodup) {e : EnumDecl}
    (member : .enum e ∈ m.decls) : (e.variants.map (·.name)).Nodup :=
  (List.nodup_cons.mp ((List.nodup_flatMap.mp distinct).1 _ member)).2

theorem nodup_variants_union {m : Module} (distinct : m.names.Nodup) {u : UnionDecl}
    (member : .union u ∈ m.decls) : (u.variants.map (·.name.name)).Nodup :=
  (List.nodup_cons.mp ((List.nodup_flatMap.mp distinct).1 _ member)).2

end Tree

namespace Lowering

/-! ### What a variant stands for -/

namespace Globals.Places

variable {g : Globals} {m : Tree.Module} {p : Program}

theorem enumConst?_of_variant (places : g.Places m p) {e : Tree.EnumDecl} {position index : Nat}
    {v : Tree.Ident} (listed : m.enums[position]? = some e) (here : e.variants[index]? = some v) :
    g.enumConst? v.name = some (.enum ⟨position⟩ index) := by
  have member := Tree.Module.mem_enums.mp (List.mem_of_getElem? listed)
  obtain ⟨info, parent, known, kind, value, child, ofType⟩ :=
    Tree.hasVariant_ordinal places.nodup_infos member here
  rw [← places.symbols] at known ofType
  have numbered := (places.enumIds parent ⟨position⟩).mpr ⟨e, listed, ofType⟩
  simp [enumConst?, known, kind, value, child, numbered]

theorem variant?_of_variant (places : g.Places m p) {u : Tree.UnionDecl} {position index : Nat}
    {v : Tree.UnionVariant} (listed : m.unions[position]? = some u)
    (here : u.variants[index]? = some v) :
    g.variant? v.name.name = some (⟨position⟩, index) := by
  have member := Tree.Module.mem_unions.mp (List.mem_of_getElem? listed)
  obtain ⟨info, parent, known, kind, value, child, ofType⟩ :=
    Tree.hasVariant_tag places.nodup_infos member here
  rw [← places.symbols] at known ofType
  have numbered := (places.unionIds parent ⟨position⟩).mpr ⟨u, listed, ofType⟩
  simp [variant?, known, kind, value, child, numbered]

/-- Two entries of one name are the same. -/
theorem info_unique (places : g.Places m p) {info info' : SymbolInfo}
    (member : info ∈ Tree.infosFrom 0 0 m.decls) (member' : info' ∈ Tree.infosFrom 0 0 m.decls)
    (same : info.name = info'.name) : info = info' :=
  List.inj_on_of_nodup_map places.nodup_infos member member' same

/-- A name that is not one of a register stands for none. -/
theorem register?_eq_none (places : g.Places m p) {name : String} {info : SymbolInfo}
    (known : g.symbols.info? name = some info) (kind : info.kind ≠ .register) :
    g.register? name = none := by
  obtain ⟨member, named⟩ := places.info_of_info? known
  cases found : g.register? name with
  | none => rfl
  | some id =>
      obtain ⟨r, position, same⟩ := (places.registers.ids name id).mp found
      have declared := Tree.Module.mem_registers.mp (List.mem_of_getElem? position)
      obtain ⟨other, inTable, otherNamed, isRegister⟩ := Tree.exists_info_of_register declared
      have sameName : info.name = other.name :=
        named.trans ((Option.some.inj same).symm.trans otherNamed.symm)
      exact absurd (places.info_unique member inTable sameName ▸ isRegister) kind

end Globals.Places

/-- The position of a variant in its enum is its ordinal at every stage. A name in a body stands for
the variant unless a local has that name; no register can. -/
structure Globals.NumbersEnum (g : Globals) (p : Program) (e : Tree.EnumDecl) (id : EnumId)
    (d : EnumDef) : Prop where
  listed : p.enum? id = some d
  name : d.name = e.name.name
  symbol : ∀ i v, e.variants[i]? = some v →
    g.symbols.HasVariant e.name.name v.name .enumVariant (.ordinal i)
  ordinal : ∀ i v, e.variants[i]? = some v → d.ordinal? v.name = some i
  variant : ∀ i v, e.variants[i]? = some v → d.variant? i = some v.name
  beyond : ∀ i, e.variants.length ≤ i → d.variant? i = none
  other : ∀ name, name ∉ e.variants.map (·.name) → d.ordinal? name = none
  value : ∀ i v, e.variants[i]? = some v → ∀ (s : Scope) (use : Tree.Ident) (span : Span),
    s.globals = g → use.name = v.name → s.local? use.name = none →
    s.operand (.name use span) = .ok (.const (.enum id i))

/-- The position of a variant in its union is its tag at every stage. In a body it is tested for,
projected from, and constructed, in an expression and as a whole right-hand side. -/
structure Globals.NumbersUnion (g : Globals) (p : Program) (u : Tree.UnionDecl) (id : UnionId)
    (d : UnionDef) : Prop where
  listed : p.union? id = some d
  name : d.name = u.name.name
  symbol : ∀ i v, u.variants[i]? = some v →
    g.symbols.HasVariant u.name.name v.name.name .unionVariant (.tag i)
  tag : ∀ i v, u.variants[i]? = some v → d.tag? v.name.name = some i
  variant : ∀ i v, u.variants[i]? = some v →
    ∃ payload, g.type v.payload = .ok payload ∧ d.variant? i = some ⟨v.name.name, payload⟩
  beyond : ∀ i, u.variants.length ≤ i → d.variant? i = none
  other : ∀ name, name ∉ u.variants.map (·.name.name) → d.tag? name = none
  test : ∀ i v, u.variants[i]? = some v →
    ∀ (s : Scope) (value : Tree.Expr) (use : Tree.Ident) (span : Span),
    s.globals = g → use.name = v.name.name → s.operand (.isNot value use span) =
      (s.operand value).map fun o => .prim .not [.isVariant o id i]
  projection : ∀ i v, u.variants[i]? = some v →
    ∀ (s : Scope) (value : Tree.Expr) (use : Tree.Ident) (span : Span),
    s.globals = g → use.name = v.name.name → s.operand (.project value use span) =
      (s.operand value).map fun o => .asVariant o id i
  construction : ∀ i v, u.variants[i]? = some v →
    ∀ (s : Scope) (args : List Tree.Expr) (use : Tree.Ident) (span : Span),
    s.globals = g → use.name = v.name.name → s.operand (.call use args span) =
      (s.operands args).map (Scope.construct id i)
  assignment : ∀ i v, u.variants[i]? = some v →
    ∀ (b : Body) (index : Nat) (dest : Place) (args : List Tree.Expr) (use : Tree.Ident)
      (span : Span) (graph : Graph),
    b.scope.globals = g → use.name = v.name.name →
    b.assign index dest (.call use args span) graph =
      (b.scope.operands args).bind fun items =>
        b.pushOp (.assign dest (Scope.construct id i items)) graph

namespace Globals.Places

variable {g : Globals} {m : Tree.Module} {p : Program}

theorem numbersEnum (places : g.Places m p) {e : Tree.EnumDecl} (declared : .enum e ∈ m.decls) :
    ∃ id d, g.NumbersEnum p e id d := by
  obtain ⟨position, listed⟩ := List.getElem?_of_mem (Tree.Module.mem_enums.mpr declared)
  have distinct := Tree.nodup_variants_enum places.distinct declared
  have distinctDef : (e.def.variants.map id).Nodup := by
    rw [List.map_id]
    exact distinct
  have position? : ∀ (i : Nat) (v : Tree.Ident), e.variants[i]? = some v →
      e.def.variants[i]? = some v.name := by
    intro i v here
    rw [Tree.EnumDecl.def, List.getElem?_map, here]
    rfl
  refine ⟨⟨position⟩, e.def, ?_, rfl, ?_, ?_, position?, ?_, ?_, ?_⟩
  · rw [Program.enum?, places.enums, List.getElem?_map, listed]
    rfl
  · intro i v here
    rw [places.symbols]
    exact Tree.hasVariant_ordinal places.nodup_infos declared here
  · intro i v here
    exact findIdx?_of_distinct distinctDef (position? i v here)
  · intro i beyond
    exact List.getElem?_eq_none (by simpa [Tree.EnumDecl.def] using beyond)
  · intro name absent
    have absentDef : name ∉ e.def.variants.map id := by
      rw [List.map_id]
      exact absent
    exact findIdx?_of_not_mem absentDef
  · intro i v here s use span inGlobals same notLocal
    obtain ⟨info, _parent, known, kind, _numbered⟩ :=
      Tree.hasVariant_ordinal places.nodup_infos declared here
    rw [← places.symbols, ← same] at known
    have notRegister := places.register?_eq_none known (by rw [kind]; decide)
    have constant := places.enumConst?_of_variant listed here
    rw [← same] at constant
    rw [Scope.operand, Scope.nameOperand, notLocal, inGlobals, notRegister, constant]

theorem numbersUnion (places : g.Places m p) {u : Tree.UnionDecl} (declared : .union u ∈ m.decls) :
    ∃ id d, g.NumbersUnion p u id d := by
  obtain ⟨position, listed⟩ := List.getElem?_of_mem (Tree.Module.mem_unions.mpr declared)
  obtain ⟨d, inProgram, fills⟩ := exists_source_at places.unions listed
  have related := variantDefs_ok fills.variants
  have names : d.variants.map (·.name) = u.variants.map (·.name.name) :=
    map_eq_of_related (related.imp fun _ _ made => made.1)
  have distinct : (d.variants.map (·.name)).Nodup :=
    names ▸ Tree.nodup_variants_union places.distinct declared
  have found : ∀ (i : Nat) (v : Tree.UnionVariant), u.variants[i]? = some v →
      ∀ use : Tree.Ident, use.name = v.name.name → g.variant? use.name = some (⟨position⟩, i) := by
    intro i v here use same
    rw [same]
    exact places.variant?_of_variant listed here
  refine ⟨⟨position⟩, d, inProgram, fills.name, ?_, ?_, ?_, ?_, ?_, ?_, ?_, ?_, ?_⟩
  · intro i v here
    rw [places.symbols]
    exact Tree.hasVariant_tag places.nodup_infos declared here
  · intro i v here
    obtain ⟨variant, there, named, _payload⟩ := exists_source_at related here
    rw [← named]
    exact findIdx?_of_distinct distinct there
  · intro i v here
    obtain ⟨variant, there, named, payload⟩ := exists_source_at related here
    refine ⟨variant.payload, payload, ?_⟩
    rw [UnionDef.variant?, there, ← named]
  · intro i beyond
    exact List.getElem?_eq_none (related.length_eq ▸ beyond)
  · intro name absent
    exact findIdx?_of_not_mem (names ▸ absent)
  · intro i v here s value use span inGlobals same
    rw [Scope.operand, Scope.variant, inGlobals, found i v here use same]
    change (s.operand value >>= _) = _
    cases s.operand value <;> rfl
  · intro i v here s value use span inGlobals same
    rw [Scope.operand, Scope.variant, inGlobals, found i v here use same]
    change (s.operand value >>= _) = _
    cases s.operand value <;> rfl
  · intro i v here s args use span inGlobals same
    rw [Scope.operand, Globals.target?, inGlobals, found i v here use same]
    change (s.operands args >>= _) = _
    cases s.operands args <;> rfl
  · intro i v here b index dest args use span graph inGlobals same
    rw [Body.assign, Globals.target?, inGlobals, found i v here use same]
    rfl

end Globals.Places

/-- The functions of the program are made, in order, of the bodies of the text. -/
theorem Compilation.bodies (c : Compilation) :
    List.Forall₂ (fun f d => ∃ before after,
        lowerBody ⟨c.globals, f, d.locals⟩ before = .ok (d.blocks, after))
      c.linked.tree.functions c.program.functions := by
  rw [← c.decls, List.forall₂_map_left_iff]
  refine related_imp c.compiles ?_
  intro f member d compiles
  obtain ⟨before, after, body⟩ := compiles.body
  have scope : f.scope = ⟨c.globals, f.scope.decl, d.locals⟩ := by
    rw [compiles.locals, ← c.inGlobals f member]
  exact ⟨before, after, scope ▸ body⟩

end Lowering

/-- In a text that compiles, the variants of every enum and of every union are numbered by their
positions, in the table, in the program, and in the bodies that its functions are made of. -/
theorem compile_numbersVariants {source : SourceText} {options : Lowering.Options}
    {program : Program} (compiled : source.compile options = .ok program) :
    ∃ linked globals types, source.linked = .ok linked ∧
      Lowering.declareGlobals linked.tree linked.symbols options = .ok (globals, types) ∧
      globals.symbols = linked.symbols ∧
      List.Forall₂ (fun f d => ∃ before after,
          Lowering.lowerBody ⟨globals, f, d.locals⟩ before = .ok (d.blocks, after))
        linked.tree.functions program.functions ∧
      (∀ e, .enum e ∈ linked.tree.decls → ∃ id d, globals.NumbersEnum program e id d) ∧
      ∀ u, .union u ∈ linked.tree.decls → ∃ id d, globals.NumbersUnion program u id d := by
  obtain ⟨c, linked, rfl, rfl⟩ := Lowering.exists_compilation compiled
  have describes := c.describes linked
  have symbols := (Lowering.declareGlobals_defines c.declared describes.distinct).1
  refine ⟨c.linked, c.globals, c.types, linked, c.declared, symbols, c.bodies, ?_, ?_⟩
  · exact fun e declared => describes.numbersEnum declared
  · exact fun u declared => describes.numbersUnion declared

theorem compile_numbersVariants_shapeText :
    ∃ program linked, ∃ globals : Lowering.Globals, shapeText.compile .default = .ok program ∧
      shapeText.linked = .ok linked ∧
      (∀ e, .enum e ∈ linked.tree.decls → ∃ id d, globals.NumbersEnum program e id d) ∧
      ∀ u, .union u ∈ linked.tree.decls → ∃ id d, globals.NumbersUnion program u id d := by
  obtain ⟨program, compiled⟩ := exists_compile_shapeText
  obtain ⟨linked, globals, _types, read, _declared, _symbols, _bodies, enums, unions⟩ :=
    compile_numbersVariants compiled
  exact ⟨program, linked, globals, compiled, read, enums, unions⟩

end JumpIR
