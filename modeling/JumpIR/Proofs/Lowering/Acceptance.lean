import JumpIR.Proofs.Lowering.Meaning

/-!
# Modules that are accepted

Lowering accepts a linked module exactly if it is admissible. Main statement:
`succeeds_generate_iff`.
-/

set_option autoImplicit false

namespace JumpIR.Lowering

open SymbolTable JumpIR.Tree

/-! ### Global definitions -/

section Declared

variable {symbols : SymbolTable} {decls : List Decl}

theorem symbolOf_ok {name : Ident} {id : SymbolId} (found : symbols.lookup? name.name = some id) :
    symbolOf symbols name = .ok id := by
  rw [symbolOf, found]

theorem succeeds_numberAll
    (known : ∀ decl ∈ decls, ∀ name ∈ decl.names, ∃ id, symbols.lookup? name = some id) :
    ∀ defs : TypeDefs, Succeeds (numberAll symbols decls defs) := by
  induction decls with
  | nil => exact fun defs => succeeds_ok defs
  | cons decl rest ih =>
      intro defs
      have later := ih fun other member => known other (List.mem_cons_of_mem decl member)
      have here := known decl List.mem_cons_self
      cases decl with
      | value _ | register _ | function _ => exact later _
      | enum e =>
          obtain ⟨id, found⟩ := here e.name.name List.mem_cons_self
          rw [numberAll, bind_of_ok (symbolOf_ok found)]
          exact later _
      | union u =>
          obtain ⟨id, found⟩ := here u.name.name List.mem_cons_self
          rw [numberAll, bind_of_ok (symbolOf_ok found)]
          exact later _

/-- The functions with a number are those with a body. -/
theorem isSome_numberAll {name : String} :
    ∀ {defs done : TypeDefs}, numberAll symbols decls defs = .ok done →
      ((done.numbers.functions.lookup name).isSome = true ↔
        (defs.numbers.functions.lookup name).isSome = true ∨
          ∃ f, .function f ∈ decls ∧ f.name.name = name) := by
  induction decls with
  | nil =>
      intro defs done numbered
      cases numbered
      simp
  | cons decl rest ih =>
      intro defs done numbered
      cases decl with
      | value _ => simpa using ih numbered
      | register _ => simpa using ih numbered
      | enum e =>
          obtain ⟨symbol, _found, numbered⟩ := bind_ok numbered
          simpa using ih numbered
      | union u =>
          obtain ⟨symbol, _found, numbered⟩ := bind_ok numbered
          simpa using ih numbered
      | function f =>
          rw [ih numbered]
          dsimp only
          rw [lookup_assign]
          by_cases same : name = f.name.name
          · simp [same]
          · have differ : f.name.name ≠ name := fun alike => same alike.symm
            simp [same, differ]

theorem succeeds_variantDefs_iff {numbers : Numbering} {variants : List UnionVariant} :
    Succeeds (variantDefs numbers variants) ↔
      ∀ v ∈ variants, Succeeds (numbers.type v.payload) := by
  induction variants with
  | nil => simp [variantDefs]
  | cons v rest ih =>
      rw [variantDefs, List.forall_mem_cons, ← ih]
      exact succeeds_bind_iff fun _payload _typed => succeeds_bind_left fun _ => succeeds_ok _

theorem numbers_setVariants (types : TypeDefs) (symbol : SymbolId) (variants : List VariantDef) :
    (setVariants types symbol variants).numbers = types.numbers := by
  unfold setVariants
  split <;> rfl

theorem succeeds_defineAll_iff
    (known : ∀ decl ∈ decls, ∀ name ∈ decl.names, ∃ id, symbols.lookup? name = some id) :
    ∀ (types : TypeDefs) (registers : RegisterDefs),
      Succeeds (defineAll symbols decls types registers) ↔
        ∀ decl ∈ decls, ∀ type ∈ decl.stored, Succeeds (types.numbers.type type) := by
  induction decls with
  | nil =>
      intro types registers
      simp [defineAll]
  | cons decl rest ih =>
      intro types registers
      have later := ih fun other member => known other (List.mem_cons_of_mem decl member)
      have here := known decl List.mem_cons_self
      rw [List.forall_mem_cons]
      cases decl with
      | value _ | enum _ | function _ =>
          rw [defineAll, later]
          simp [Decl.stored]
      | register r =>
          rw [defineAll, succeeds_bind_iff fun _type _typed => later _ _]
          simp [Decl.stored]
      | union u =>
          obtain ⟨id, found⟩ := here u.name.name List.mem_cons_self
          have payloads : Succeeds (variantDefs types.numbers u.variants) ↔
              ∀ type ∈ (Decl.union u).stored, Succeeds (types.numbers.type type) := by
            rw [succeeds_variantDefs_iff, Decl.stored, List.forall_mem_map]
          rw [defineAll, ← payloads]
          refine succeeds_bind_iff fun variants _made => ?_
          rw [bind_of_ok (symbolOf_ok found), ← numbers_setVariants types id variants]
          exact later _ _

end Declared

/-- The names of a linked module are in its table. -/
theorem lookup?_of_names {m : Module} {symbols : SymbolTable}
    (entries : symbols = ofList (infosFrom 0 0 m.decls)) :
    ∀ decl ∈ m.decls, ∀ name ∈ decl.names, ∃ id, symbols.lookup? name = some id := by
  intro decl member name named
  rw [← Option.ne_none_iff_exists', entries, ne_eq, lookup?_eq_none, names_infosFrom, not_not]
  exact List.mem_flatMap.mpr ⟨decl, member, named⟩

/-- The global definitions of a linked module are accepted exactly if it stores no functions. -/
theorem succeeds_declareGlobals_iff {m : Module} {l : LinkedModule} (distinct : m.names.Nodup)
    (resolved : Resolved m l) (options : Options) :
    Succeeds (declareGlobals l.tree l.symbols options) ↔
      ∀ decl ∈ l.tree.decls, ∀ type ∈ decl.stored, type.form.isData = true := by
  have entries : l.symbols = ofList (infosFrom 0 0 l.tree.decls) := by
    rw [← resolved.entries]
    rfl
  have names : l.tree.names.Nodup := resolved.nodup distinct
  have known := lookup?_of_names entries
  obtain ⟨defs, numbered⟩ := succeeds_numberAll known ⟨⟨[], [], []⟩, [], []⟩
  have none : Numbered l.symbols [] [] ⟨⟨[], [], []⟩, [], []⟩ :=
    ⟨rfl, rfl, by simp [Positions], by simp [Positions]⟩
  have before := numberAll_numbered numbered none (nodup_enums names) (nodup_unions names)
  have each : ∀ decl ∈ l.tree.decls, ∀ type ∈ decl.stored,
      (Succeeds (defs.numbers.type type) ↔ type.form.isData = true) := by
    intro decl member type stored
    refine Numbering.succeeds_type_iff type fun ref inType => ?_
    obtain ⟨id, info, links, here, named, kind⟩ := resolved.links ref
      (List.mem_flatMap.mpr ⟨decl, member, decl.refs_of_stored stored ref inType⟩)
    exact Numbering.has_of_positions entries names before.enumIds before.unionIds links here named
      kind
  rw [declareGlobals, bind_of_ok numbered, succeeds_bind_left fun _ => succeeds_ok _,
    succeeds_defineAll_iff known]
  constructor
  · intro all decl member type stored
    exact (each decl member type stored).mp (all decl member type stored)
  · intro all decl member type stored
    exact (each decl member type stored).mpr (all decl member type stored)

/-! ### Locals -/

/-- The locals are those that are declared, each with the meaning of its type. -/
structure Reflects (g : Globals) (locals : List LocalDef) (declared : List (String × TypeForm)) :
    Prop where
  consistent : Consistent declared
  of_local : ∀ l ∈ locals, ∃ form, (l.name, form) ∈ declared ∧ g.meaning form = some l.type
  of_declared : ∀ d ∈ declared, ∃ l ∈ locals, l.name = d.1 ∧ g.meaning d.2 = some l.type

namespace Reflects

variable {g : Globals} {m : Module} {p : Program} {function : String}
  {locals more : List LocalDef} {declared : List (String × TypeForm)}

theorem none (g : Globals) : Reflects g [] [] where
  consistent := by simp [Consistent]
  of_local := by simp
  of_declared := by simp

theorem local?_iff (reflects : Reflects g locals declared) {s : Scope} (inScope : s.locals = locals)
    (name : String) : (s.local? name).isSome = true ↔ name ∈ declared.map Prod.fst := by
  rw [Scope.local?, inScope, Option.isSome_map, List.findIdx?_isSome, List.any_eq_true,
    List.mem_map]
  constructor
  · rintro ⟨l, member, named⟩
    obtain ⟨form, declared, _meant⟩ := reflects.of_local l member
    exact ⟨_, declared, eq_of_beq named⟩
  · rintro ⟨d, member, rfl⟩
    obtain ⟨l, inLocals, named, _meant⟩ := reflects.of_declared d member
    exact ⟨l, inLocals, beq_iff_eq.mpr named⟩

/-- A declared type has the meaning of the first local with its name. -/
theorem type_of_find? (reflects : Reflects g locals declared) {name : String} {found : LocalDef}
    (look : locals.find? (fun l => l.name == name) = some found) {d : String × TypeForm}
    (member : d ∈ declared) (named : d.1 = name) : g.meaning d.2 = some found.type := by
  obtain ⟨form, listed, meant⟩ := reflects.of_local found (List.mem_of_find?_eq_some look)
  have found' := List.find?_some look
  have sameName : found.name = name := eq_of_beq found'
  have same := reflects.consistent d member _ listed (named.trans sameName.symm)
  rw [same]
  exact meant

/-- A local that is declared again has the type of before. -/
theorem form_of_declareLocal (reflects : Reflects g locals declared) (places : g.Places m p)
    {name : Ident} {form : TypeForm} {type : Ty} (meant : g.meaning form = some type)
    (done : Lowering.declareLocal function locals name type = .ok more) :
    ∀ d ∈ declared, d.1 = name.name → d.2 = form := by
  intro d member named
  unfold Lowering.declareLocal at done
  cases look : locals.find? fun l => l.name == name.name with
  | none =>
      obtain ⟨l, inLocals, sameName, _meant⟩ := reflects.of_declared d member
      exact absurd (beq_iff_eq.mpr (sameName.trans named)) (List.find?_eq_none.mp look l inLocals)
  | some found =>
      have before := reflects.type_of_find? look member named
      rw [look] at done
      dsimp only at done
      split at done
      · rename_i typed
        exact places.meaning_injective (typed ▸ before) meant
      · cases done

theorem declareLocal (reflects : Reflects g locals declared) (places : g.Places m p) {name : Ident}
    {form : TypeForm} {type : Ty} (meant : g.meaning form = some type)
    (done : Lowering.declareLocal function locals name type = .ok more) :
    Reflects g more (declared ++ [(name.name, form)]) := by
  have sameForm := reflects.form_of_declareLocal places meant done
  obtain ⟨grown, index, found, first, here, typed⟩ := declareLocal_ok done
  constructor
  · intro d member d' member' same
    rw [List.mem_append, List.mem_singleton] at member member'
    rcases member with member | rfl <;> rcases member' with member' | rfl
    · exact reflects.consistent d member d' member' same
    · exact sameForm d member same
    · exact (sameForm d' member' same.symm).symm
    · rfl
  · intro l member
    have source : l ∈ locals ∨ l = ⟨name.name, type⟩ := by
      rcases declareLocal_cases done with rfl | rfl
      · exact Or.inl member
      · simpa using member
    rcases source with before | rfl
    · obtain ⟨form, listed, meant⟩ := reflects.of_local l before
      exact ⟨form, List.mem_append_left _ listed, meant⟩
    · exact ⟨form, by simp, meant⟩
  · intro d member
    rw [List.mem_append, List.mem_singleton] at member
    rcases member with member | rfl
    · obtain ⟨l, inLocals, named, meant⟩ := reflects.of_declared d member
      exact ⟨l, grown.subset inLocals, named, meant⟩
    · obtain ⟨bound, named, _before⟩ := List.findIdx?_eq_some_iff_getElem.mp first
      obtain rfl : more[index] = found := Option.some.inj
        ((List.getElem?_eq_getElem bound).symm.trans here)
      exact ⟨_, List.getElem_mem bound, eq_of_beq named, by rw [typed]; exact meant⟩

theorem succeeds_declareLocal (reflects : Reflects g locals declared) (function : String)
    {name : Ident} {form : TypeForm} {type : Ty} (meant : g.meaning form = some type)
    (consistent : Consistent (declared ++ [(name.name, form)])) :
    Succeeds (Lowering.declareLocal function locals name type) := by
  unfold Lowering.declareLocal
  cases look : locals.find? fun l => l.name == name.name with
  | none => exact succeeds_ok _
  | some found =>
      obtain ⟨form', listed, meant'⟩ := reflects.of_local found (List.mem_of_find?_eq_some look)
      have found' := List.find?_some look
      have same : form' = form := consistent _ (List.mem_append_left _ listed) (name.name, form)
        (by simp) (eq_of_beq found')
      have typed : found.type = type := Option.some.inj (meant'.symm.trans (same ▸ meant))
      dsimp only
      rw [if_pos typed]
      exact succeeds_ok _

theorem declareParams (places : g.Places m p) {names : List Ident} :
    ∀ {forms : List TypeForm} {types : List Ty} {locals more : List LocalDef}
      {declared : List (String × TypeForm)}, Reflects g locals declared →
      g.meanings forms = some types →
      Lowering.declareParams function names types locals = .ok more →
      Reflects g more (declared ++ (names.map (·.name)).zip forms) := by
  induction names with
  | nil =>
      intro forms types locals more declared reflects _meant done
      cases done
      rw [List.map_nil, List.zip_nil_left, List.append_nil]
      exact reflects
  | cons name rest ih =>
      intro forms types locals more declared reflects meant done
      cases forms with
      | nil =>
          cases meant
          cases done
          rw [List.zip_nil_right, List.append_nil]
          exact reflects
      | cons form forms =>
          rw [Globals.meanings] at meant
          obtain ⟨type, first, meant⟩ := Option.bind_eq_some_iff.mp meant
          obtain ⟨others, all, rfl⟩ := Option.map_eq_some_iff.mp meant
          obtain ⟨middle, declaredHere, done⟩ := bind_ok done
          rw [List.map_cons, List.zip_cons_cons, List.append_cons]
          exact ih (reflects.declareLocal places first declaredHere) all done

theorem succeeds_declareParams (function : String) (places : g.Places m p) {names : List Ident} :
    ∀ {forms : List TypeForm} {types : List Ty} {locals : List LocalDef}
      {declared : List (String × TypeForm)}, Reflects g locals declared →
      g.meanings forms = some types →
      Consistent (declared ++ (names.map (·.name)).zip forms) →
      Succeeds (Lowering.declareParams function names types locals) := by
  induction names with
  | nil =>
      intro forms types locals declared _reflects _meant _consistent
      exact succeeds_ok _
  | cons name rest ih =>
      intro forms types locals declared reflects meant consistent
      cases forms with
      | nil =>
          cases meant
          exact succeeds_ok _
      | cons form forms =>
          rw [Globals.meanings] at meant
          obtain ⟨type, first, meant⟩ := Option.bind_eq_some_iff.mp meant
          obtain ⟨others, all, rfl⟩ := Option.map_eq_some_iff.mp meant
          rw [List.map_cons, List.zip_cons_cons, List.append_cons] at consistent
          have first' := consistent.of_subset (List.subset_append_left _ _)
          obtain ⟨middle, done⟩ := reflects.succeeds_declareLocal function first first'
          rw [Lowering.declareParams, bind_of_ok done]
          exact ih (reflects.declareLocal places first done) all consistent

theorem declareLocals (places : g.Places m p) {stmts : List Stmt} :
    ∀ {locals more : List LocalDef} {declared : List (String × TypeForm)},
      (∀ stmt ∈ stmts, ∀ ref ∈ stmt.refs, g.Knows ref) → Reflects g locals declared →
      Lowering.declareLocals g function stmts locals = .ok more →
      Reflects g more (declared ++ stmts.filterMap Stmt.declaration?) := by
  induction stmts with
  | nil =>
      intro locals more declared _known reflects done
      cases done
      rw [List.filterMap_nil, List.append_nil]
      exact reflects
  | cons stmt rest ih =>
      intro locals more declared known reflects done
      have here := known stmt List.mem_cons_self
      have later := fun other member => known other (List.mem_cons_of_mem stmt member)
      obtain ⟨kind, span⟩ := stmt
      cases kind with
      | declare name type init =>
          obtain ⟨lowered, typed, done⟩ := bind_ok done
          obtain ⟨middle, declaredHere, done⟩ := bind_ok done
          have meant := places.meaning_of_type type here typed
          rw [Stmt.declarations_declare, List.append_cons]
          exact ih later (reflects.declareLocal places meant declaredHere) done
      | _ =>
          rw [List.filterMap_cons_none rfl]
          exact ih later reflects done

theorem succeeds_declareLocals (function : String) (places : g.Places m p) {stmts : List Stmt} :
    ∀ {locals : List LocalDef} {declared : List (String × TypeForm)},
      (∀ stmt ∈ stmts, ∀ ref ∈ stmt.refs, g.Knows ref ∧ g.numbers.Has ref) →
      Reflects g locals declared → Consistent (declared ++ stmts.filterMap Stmt.declaration?) →
      (∀ d ∈ stmts.filterMap Stmt.declaration?, d.2.isData = true) →
      Succeeds (Lowering.declareLocals g function stmts locals) := by
  induction stmts with
  | nil =>
      intro locals declared _known _reflects _consistent _data
      exact succeeds_ok _
  | cons stmt rest ih =>
      intro locals declared known reflects consistent data
      have here := known stmt List.mem_cons_self
      have later := fun other member => known other (List.mem_cons_of_mem stmt member)
      obtain ⟨kind, span⟩ := stmt
      cases kind with
      | declare name type init =>
          rw [Stmt.declarations_declare] at consistent data
          rw [List.append_cons] at consistent
          obtain ⟨dataHere, dataLater⟩ := List.forall_mem_cons.mp data
          obtain ⟨lowered, typed⟩ : Succeeds (g.type type) :=
            (Numbering.succeeds_type_iff type fun ref member => (here ref member).2).mpr dataHere
          have meant := places.meaning_of_type type (fun ref member => (here ref member).1) typed
          have first := consistent.of_subset (List.subset_append_left _ _)
          obtain ⟨middle, done⟩ := reflects.succeeds_declareLocal function meant first
          rw [Lowering.declareLocals]
          dsimp only
          rw [bind_of_ok typed, bind_of_ok done]
          exact ih later (reflects.declareLocal places meant done) consistent dataLater
      | _ =>
          rw [List.filterMap_cons_none rfl] at consistent data
          exact ih later reflects consistent data

end Reflects

/-! ### Functions -/

namespace Globals.Resolves

variable {g : Globals} {m : Module} {p : Program} {f : FunctionDecl}

/-- The signature of a function is the type of the value with its name. -/
theorem signature_of_value (resolves : g.Resolves m p) (declared : .function f ∈ m.decls)
    {v : ValueDecl} (inModule : .value v ∈ m.decls) (named : v.name.name = f.name.name)
    {params : List TypeExpr} {result : TypeExpr} {span : Span}
    (type : v.type = .function params result span) (count : params.length = f.params.length)
    {types : List Ty} {resultType : Ty} (ofParams : g.types params = .ok types)
    (ofResult : g.type result = .ok resultType) :
    g.signature f = .ok (types, resultType) := by
  obtain ⟨info, known, kind, typed, _value⟩ := resolves.info?_of_value inModule
  obtain ⟨w, inModule', named', unbound⟩ := resolves.signed f declared
  obtain ⟨info', known', _kind, _typed, value⟩ := resolves.info?_of_value inModule'
  -- The value with this type and the one without a binding have one entry.
  rw [named] at known
  rw [named', known] at known'
  cases known'
  rw [unbound] at value
  unfold Globals.signature
  dsimp only
  rw [known]
  dsimp only
  rw [kind, value, typed, type]
  simp only [Option.map_none, Option.getD_none, count, if_true, ofParams, ofResult]
  rfl

/-- A body is lowered in a scope of the declared locals exactly if its statements fit. -/
theorem succeeds_lowerBody_iff (resolves : g.Resolves m p) {params : List TypeForm}
    {locals : List LocalDef} (reflects : Reflects g locals (f.declarations params))
    (supports : List SupportDef) : Succeeds (lowerBody ⟨g, f, locals⟩ supports) ↔
      ∀ stmt ∈ f.body, stmt.kind.Admissible
        (m.meanings ((f.declarations params).map Prod.fst)) f.body.length := by
  have known := reflects.local?_iff (s := ⟨g, f, locals⟩) rfl
  refine Lowering.succeeds_lowerBody_iff (resolves.means rfl known) ?_ supports
  intro stmt member name type init kind
  rw [known]
  refine List.mem_map.mpr ⟨(name.name, type.form), ?_, rfl⟩
  refine List.mem_append_right _ (List.mem_filterMap.mpr ⟨stmt, member, ?_⟩)
  rw [Stmt.declaration?, kind]

theorem admissible_of_lowerFunction (resolves : g.Resolves m p) (declared : .function f ∈ m.decls)
    {supports : List SupportDef} (lowered : Succeeds (lowerFunction g f supports)) :
    ∃ decl ∈ m.decls, ∃ params result, decl.Signs f.name.name params result ∧
      f.Admissible m params result := by
  obtain ⟨_made, lowered⟩ := lowered
  obtain ⟨⟨types, resultType⟩, signed, lowered⟩ := bind_ok lowered
  obtain ⟨middle, paramsDone, lowered⟩ := bind_ok lowered
  obtain ⟨locals, localsDone, lowered⟩ := bind_ok lowered
  obtain ⟨blocks, body, _done⟩ := bind_ok lowered
  obtain ⟨info, params, result, span, known, kind, type, count, ofParams, ofResult⟩ :=
    info_of_signature signed
  obtain ⟨member, named⟩ := resolves.info_of_info? known
  obtain ⟨v, inModule, sameName, sameType, _value⟩ := mem_infosFrom_value member kind
  have isFunction : v.type = .function params result span :=
    Option.some.inj (sameType.symm.trans type)
  obtain ⟨meantParams, meantResult⟩ :=
    resolves.meanings_of_function inModule isFunction ofParams ofResult
  have inBody : ∀ stmt ∈ f.body, ∀ ref ∈ stmt.refs, g.Knows ref := by
    intro stmt member ref inStmt
    exact resolves.knows_of_mem declared ref (List.mem_flatMap.mpr ⟨stmt, member, inStmt⟩)
  have afterParams := (Reflects.none g).declareParams resolves.toPlaces meantParams paramsDone
  have reflects := afterParams.declareLocals resolves.toPlaces inBody localsDone
  refine ⟨.value v, inModule, TypeExpr.forms params, result.form,
    ⟨sameName.symm.trans named, by rw [isFunction, TypeExpr.form]⟩, ?_,
    isData_of_meaning _ meantResult, ?_, reflects.consistent, ?_⟩
  · rw [TypeExpr.forms_eq_map, List.length_map]
    exact count
  · intro d member
    obtain ⟨l, _inLocals, _named, meant⟩ := reflects.of_declared d member
    exact isData_of_meaning d.2 meant
  · exact (resolves.succeeds_lowerBody_iff reflects supports).mp ⟨blocks, body⟩

theorem lowerFunction_of_admissible (resolves : g.Resolves m p) (declared : .function f ∈ m.decls)
    {decl : Decl} (inModule : decl ∈ m.decls) {params : List TypeForm} {result : TypeForm}
    (signs : decl.Signs f.name.name params result) (admissible : f.Admissible m params result)
    (supports : List SupportDef) : Succeeds (lowerFunction g f supports) := by
  obtain ⟨v, rfl, named, written⟩ := signs.exists_value
  obtain ⟨ps, r, span, type, rfl, rfl⟩ := TypeExpr.exists_of_form written
  have count : ps.length = f.params.length := by
    have length := admissible.count
    rwa [TypeExpr.forms_eq_map, List.length_map] at length
  obtain ⟨types, resultType, ofParams, ofResult⟩ := resolves.exists_types_of_function inModule type
    (TypeForm.allData_iff.mpr admissible.data_params) admissible.result
  have signed := resolves.signature_of_value declared inModule named type count ofParams ofResult
  have meant := (resolves.meanings_of_function inModule type ofParams ofResult).1
  have inBody : ∀ stmt ∈ f.body, ∀ ref ∈ stmt.refs, g.Knows ref ∧ g.numbers.Has ref := by
    intro stmt member ref inStmt
    have inDecl : ref ∈ (Decl.function f).refs := List.mem_flatMap.mpr ⟨stmt, member, inStmt⟩
    exact ⟨resolves.knows_of_mem declared ref inDecl,
      resolves.has_of_mem (List.mem_flatMap.mpr ⟨_, declared, inDecl⟩)⟩
  obtain ⟨middle, paramsDone⟩ := Reflects.succeeds_declareParams f.name.name resolves.toPlaces
    (.none g) meant (admissible.consistent.of_subset (List.subset_append_left _ _))
  have afterParams := (Reflects.none g).declareParams resolves.toPlaces meant paramsDone
  obtain ⟨locals, localsDone⟩ := afterParams.succeeds_declareLocals f.name.name resolves.toPlaces
    inBody admissible.consistent fun d member => admissible.data d (List.mem_append_right _ member)
  have reflects := afterParams.declareLocals resolves.toPlaces
    (fun stmt member ref inStmt => (inBody stmt member ref inStmt).1) localsDone
  obtain ⟨blocks, body⟩ :=
    (resolves.succeeds_lowerBody_iff reflects supports).mpr admissible.body
  rw [lowerFunction, bind_of_ok signed]
  dsimp only
  rw [bind_of_ok paramsDone, bind_of_ok localsDone, bind_of_ok body]
  exact succeeds_ok _

end Globals.Resolves

/-! ### Modules -/

theorem succeeds_lowerFunctions_iff {g : Globals} {fs : List FunctionDecl}
    {accepted : FunctionDecl → Prop} (each : ∀ f ∈ fs, ∀ supports,
      Succeeds (lowerFunction g f supports) ↔ accepted f) :
    ∀ supports, Succeeds (lowerFunctions g fs supports) ↔ ∀ f ∈ fs, accepted f := by
  induction fs with
  | nil =>
      intro supports
      simp [lowerFunctions]
  | cons f rest ih =>
      intro supports
      have later := ih fun other member => each other (List.mem_cons_of_mem f member)
      rw [List.forall_mem_cons, ← each f List.mem_cons_self supports, lowerFunctions]
      refine succeeds_bind_iff fun made _lowered => ?_
      rw [succeeds_bind_left fun _ => succeeds_ok _]
      exact later made.2

theorem resolves_of_declareGlobals {m : Module} (clean : m.link.2 = []) {options : Options}
    {globals : Globals} {types : Program}
    (declared : declareGlobals m.link.1.tree m.link.1.symbols options = .ok (globals, types)) :
    globals.Resolves m.link.1.tree types := by
  have distinct := distinct_of_clean clean
  have resolved := resolved_of_link distinct clean
  obtain ⟨_symbols, places⟩ := places_of_resolved distinct resolved declared
  refine ⟨places, ?_, ?_⟩
  · intro name
    obtain ⟨numbered, first, declared⟩ := bind_ok declared
    obtain ⟨⟨defined, registers⟩, second, done⟩ := bind_ok declared
    cases done
    change (defined.numbers.functions.lookup name).isSome = true ↔ _
    rw [defineAll_numbers second, isSome_numberAll first]
    simp
  · intro f member
    exact signed_of_clean clean f (Module.mem_functions.mpr member)

/-- Lowering accepts a linked module exactly if it is admissible. -/
theorem succeeds_generate_iff {m : Module} (clean : m.link.2 = []) (options : Options) :
    Succeeds (generate m.link.1.tree m.link.1.symbols options) ↔ m.Admissible := by
  have distinct := distinct_of_clean clean
  have resolved := resolved_of_link distinct clean
  have stored := succeeds_declareGlobals_iff distinct resolved options
  -- Linking changes nothing but the symbols of types, so both modules are admissible or neither is.
  rw [← admissible_unlinked, ← resolved.unchanged, admissible_unlinked, generate, succeeds_bind]
  have functions : ∀ globals types,
      declareGlobals m.link.1.tree m.link.1.symbols options = .ok (globals, types) →
      (Succeeds (lowerFunctions globals m.link.1.tree.functions []) ↔
        ∀ f ∈ m.link.1.tree.functions, ∃ decl ∈ m.link.1.tree.decls, ∃ params result,
          decl.Signs f.name.name params result ∧
            f.Admissible m.link.1.tree params result) := by
    intro globals types declared
    have resolves := resolves_of_declareGlobals clean declared
    refine succeeds_lowerFunctions_iff (fun f member supports => ?_) []
    have inDecls := Module.mem_functions.mp member
    constructor
    · exact resolves.admissible_of_lowerFunction inDecls
    · rintro ⟨decl, inModule, params, result, signs, admissible⟩
      exact resolves.lowerFunction_of_admissible inDecls inModule signs admissible supports
  constructor
  · rintro ⟨⟨globals, types⟩, declared, lowered⟩
    rw [succeeds_bind_left fun _ => succeeds_ok _, functions globals types declared] at lowered
    refine ⟨stored.mp ⟨_, declared⟩, ?_⟩
    intro f member
    exact lowered f (Module.mem_functions.mpr member)
  · intro admissible
    obtain ⟨⟨globals, types⟩, declared⟩ := stored.mpr admissible.stored
    refine ⟨(globals, types), declared, ?_⟩
    rw [succeeds_bind_left fun _ => succeeds_ok _, functions globals types declared]
    intro f member
    exact admissible.functions f (Module.mem_functions.mp member)

end JumpIR.Lowering
