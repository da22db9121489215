import JumpIR.Proofs.Symbol.Entries

/-!
# Linked modules

Main statement: `clean_iff_wellNamed`. Linking accepts exactly the modules whose names fit, and
links all of what it accepts.
-/

set_option autoImplicit false

namespace JumpIR.Tree

open SymbolTable

/-! ### What links leave alone -/

theorem TypeExpr.isFunction_unlinked (type : TypeExpr) :
    type.unlinked.isFunction = type.isFunction := by
  cases type <;> rfl

theorem Decl.names_unlinked (decl : Decl) : decl.unlinked.names = decl.names := by
  cases decl with
  | union u => simp [Decl.unlinked, names, UnionVariant.unlinked]
  | _ => rfl

/-- Types apart, the entries of a declaration do not depend on links. -/
theorem Decl.untyped_unlinked (decl : Decl) (index first : Nat) :
    (decl.unlinked.infos index first).map untyped = (decl.infos index first).map untyped := by
  cases decl with
  | union u =>
      simp [Decl.unlinked, infos, untyped, UnionVariant.unlinked, List.zipIdx_map,
        Function.comp_def]
  | _ => rfl

theorem untyped_infosFrom_unlinked (decls : List Decl) (index first : Nat) :
    (infosFrom index first (decls.map Decl.unlinked)).map untyped =
      (infosFrom index first decls).map untyped := by
  induction decls generalizing index first with
  | nil => rfl
  | cons decl rest ih =>
      have length : (decl.unlinked.infos index first).length = (decl.infos index first).length := by
        have same := congrArg List.length (decl.untyped_unlinked index first)
        simpa using same
      rw [List.map_cons, infosFrom, infosFrom, List.map_append, List.map_append,
        decl.untyped_unlinked, length, ih]

theorem names_functions_unlinked (decls : List Decl) :
    ((decls.map Decl.unlinked).filterMap Decl.function?).map (·.name.name) =
      (decls.filterMap Decl.function?).map (·.name.name) := by
  rw [List.map_filterMap, List.map_filterMap, List.filterMap_map]
  congr 1
  funext decl
  cases decl <;> rfl

/-! ### Bodies -/

theorem bodyFault?_eq_none {infos : List SymbolInfo} (distinct : (infos.map (·.name)).Nodup)
    {name : String} :
    bodyFault? (ofList infos) name = none ↔ ∃ info ∈ infos, info.name = name ∧
      info.kind = .value ∧ (∀ symbol, info.value ≠ .support symbol) ∧
      (info.type.map TypeExpr.isFunction).getD false = true := by
  unfold bodyFault?
  cases found : (ofList infos).info? name with
  | none =>
      constructor
      · intro impossible
        cases impossible
      · rintro ⟨info, member, named, _signed⟩
        cases found.symm.trans ((info?_eq_some distinct).mpr ⟨member, named⟩)
  | some info =>
      dsimp only
      constructor
      · intro signed
        obtain ⟨member, named⟩ := (info?_eq_some distinct).mp found
        refine ⟨info, member, named, ?_⟩
        split at signed
        · cases signed
        · rename_i kind unbound
          split at signed
          · rename_i isFunction
            exact ⟨kind, unbound, isFunction⟩
          · cases signed
        · cases signed
      · rintro ⟨other, member, named, kind, unbound, isFunction⟩
        cases found.symm.trans ((info?_eq_some distinct).mpr ⟨member, named⟩)
        split
        · rename_i symbol _kind bound
          exact absurd bound (unbound symbol)
        · rw [if_pos isFunction]
        · rename_i noValue _
          exact absurd kind noValue

theorem checkBodies_eq_nil {table : SymbolTable} {decls : List FunctionDecl} {seen : List String} :
    checkBodies table seen decls = [] ↔ (decls.map (·.name.name)).Nodup ∧
      (∀ f ∈ decls, f.name.name ∉ seen) ∧ ∀ f ∈ decls, bodyFault? table f.name.name = none := by
  induction decls generalizing seen with
  | nil => simp [checkBodies]
  | cons decl rest ih =>
      unfold checkBodies
      rw [List.append_eq_nil_iff, ih]
      by_cases before : decl.name.name ∈ seen
      · simp [before]
      · have apart : (∀ f ∈ rest, f.name.name ∉ decl.name.name :: seen) ↔
            decl.name.name ∉ rest.map (·.name.name) ∧ ∀ f ∈ rest, f.name.name ∉ seen := by
          constructor
          · intro unseen
            refine ⟨?_, fun f member inSeen => unseen f member (List.mem_cons_of_mem _ inSeen)⟩
            intro member
            obtain ⟨f, inRest, same⟩ := List.mem_map.mp member
            exact unseen f inRest (same ▸ List.mem_cons_self)
          · rintro ⟨fresh, unseen⟩ f member inSeen
            rcases List.mem_cons.mp inSeen with same | inSeen
            · exact fresh (List.mem_map.mpr ⟨f, member, same⟩)
            · exact unseen f member inSeen
        have first : (bodyFault? table decl.name.name).map
            (fun cause => (⟨cause, decl.name.span⟩ : Report LinkFault)) = none ↔
            bodyFault? table decl.name.name = none := Option.map_eq_none_iff
        simp only [List.contains_eq_mem, before, decide_false, Bool.false_eq_true, if_false,
          Option.toList_eq_nil_iff, first, apart, List.map_cons, List.nodup_cons,
          List.forall_mem_cons, not_false_eq_true, true_and]
        constructor
        · rintro ⟨none, distinct, ⟨fresh, unseen⟩, others⟩
          exact ⟨⟨fresh, distinct⟩, unseen, none, others⟩
        · rintro ⟨⟨fresh, distinct⟩, unseen, none, others⟩
          exact ⟨none, distinct, ⟨fresh, unseen⟩, others⟩

/-! ### Linking -/

/-- What linking makes of a module that it accepts. -/
structure Resolved (m : Module) (linked : LinkedModule) : Prop where
  unchanged : linked.tree.unlinked = m.unlinked
  links : ∀ ref ∈ linked.tree.refs, ∃ id info, ref.definition = some id ∧
    linked.symbols.get? id = some info ∧ info.name = ref.name.name ∧
    info.kind = ref.sort.symbolKind
  /-- Each declaration has its entries, with positions, parents and linked types. -/
  entries : linked.symbols.infos.toList = infosFrom 0 0 linked.tree.decls
  names : linked.symbols.infos.toList.map (·.name) = m.names

theorem Resolved.nodup {m : Module} {linked : LinkedModule} (resolved : Resolved m linked)
    (distinct : m.names.Nodup) : linked.tree.names.Nodup := by
  have same := resolved.names
  rw [resolved.entries, names_infosFrom] at same
  rw [Module.names, same]
  exact distinct

/-- The table while names are linked, which has no types yet. -/
private def bare (m : Module) : SymbolTable := ofList ((infosFrom 0 0 m.decls).map untyped)

/-- The declarations of a module behind linking. -/
private def linkedDecls (m : Module) : List Decl := (linkEach (Decl.link (bare m)) m.decls).1

private theorem names_bare (m : Module) :
    ((infosFrom 0 0 m.decls).map untyped).map (·.name) = m.names := by
  rw [names_untyped, names_infosFrom]
  rfl

private theorem linkedDecls_unlinked (m : Module) :
    (linkedDecls m).map Decl.unlinked = m.decls.map Decl.unlinked :=
  (decls_links (bare m) m.decls).unchanged

private theorem names_linkedDecls (m : Module) (index first : Nat) :
    (infosFrom index first (linkedDecls m)).map (·.name) = m.names := by
  rw [names_infosFrom]
  have same := congrArg (·.flatMap Decl.names) (linkedDecls_unlinked m)
  simpa [List.flatMap_map, Decl.names_unlinked, Module.names] using same

private theorem untyped_linkedDecls (m : Module) :
    (infosFrom 0 0 (linkedDecls m)).map untyped = (infosFrom 0 0 m.decls).map untyped := by
  rw [← untyped_infosFrom_unlinked, linkedDecls_unlinked, untyped_infosFrom_unlinked]

theorem link_eq {m : Module} (distinct : m.names.Nodup) :
    m.link = (⟨{ m with decls := linkedDecls m }, ofList (infosFrom 0 0 (linkedDecls m))⟩,
      (linkEach (Decl.link (bare m)) m.decls).2 ++
        checkBodies (ofList (infosFrom 0 0 (linkedDecls m))) []
          ((linkedDecls m).filterMap Decl.function?)) := by
  have clean := (Definitions.declareAll_clean_iff m).mpr distinct
  have table := Definitions.declareAll_table distinct
  have recorded := @recordAll_infosFrom (linkedDecls m) 0 0 [] (by
      rw [List.nil_append, names_linkedDecls]
      exact distinct)
  rw [List.nil_append, List.nil_append, untyped_linkedDecls] at recorded
  unfold Module.link
  simp only [clean, table, List.nil_append]
  change (LinkedModule.mk { m with decls := linkedDecls m } (recordAll 0 (linkedDecls m) (bare m)),
    _ ++ checkBodies (recordAll 0 (linkedDecls m) (bare m)) []
      ((linkedDecls m).filterMap Decl.function?)) = _
  rw [bare, recorded]

/-! ### What is accepted -/

private theorem resolves_iff {m : Module} (distinct : m.names.Nodup) (ref : TypeRef) :
    ref.Resolves (bare m) ↔ m.Defines ref.name.name ref.sort := by
  rw [← exists_info_of_sort]
  have bareDistinct : (((infosFrom 0 0 m.decls).map untyped).map (·.name)).Nodup := by
    rw [names_bare]
    exact distinct
  constructor
  · rintro ⟨id, resolved⟩
    obtain ⟨info, here, named, kind⟩ := (resolveName_ok bareDistinct).mp resolved
    obtain ⟨typed, member, rfl⟩ := List.mem_map.mp (List.mem_of_getElem? here)
    exact ⟨typed, member, named, kind⟩
  · rintro ⟨info, member, named, kind⟩
    obtain ⟨index, here⟩ := List.getElem?_of_mem (List.mem_map_of_mem (f := untyped) member)
    exact ⟨⟨index⟩, (resolveName_ok bareDistinct).mpr ⟨untyped info, here, named, kind⟩⟩

private theorem value_mem_of_unlinked {decls others : List Decl}
    (same : decls.map Decl.unlinked = others.map Decl.unlinked) {v : ValueDecl}
    (member : .value v ∈ decls) : ∃ w, .value w ∈ others ∧ w.name = v.name ∧
      w.binding = v.binding ∧ w.type.isFunction = v.type.isFunction := by
  have inBoth := List.mem_map_of_mem (f := Decl.unlinked) member
  rw [same] at inBoth
  obtain ⟨other, inOthers, alike⟩ := List.mem_map.mp inBoth
  cases other with
  | value w =>
      simp only [Decl.unlinked, Decl.value.injEq, ValueDecl.mk.injEq] at alike
      obtain ⟨name, binding, type, _span⟩ := alike
      refine ⟨w, inOthers, name, binding, ?_⟩
      rw [← w.type.isFunction_unlinked, type, v.type.isFunction_unlinked]
  | _ => cases alike

private theorem bodyFault?_linked {m : Module} (distinct : m.names.Nodup) (name : String) :
    bodyFault? (ofList (infosFrom 0 0 (linkedDecls m))) name = none ↔
      ∃ v, .value v ∈ m.decls ∧ v.name.name = name ∧ v.binding = none ∧
        v.type.isFunction = true := by
  rw [bodyFault?_eq_none (by rw [names_linkedDecls]; exact distinct)]
  constructor
  · rintro ⟨info, member, rfl, kind, unbound, isFunction⟩
    obtain ⟨v, listed, named, typed, valued⟩ := mem_infosFrom_value member kind
    obtain ⟨w, inModule, name, binding, function⟩ :=
      value_mem_of_unlinked (linkedDecls_unlinked m) listed
    refine ⟨w, inModule, name ▸ named.symm, ?_, ?_⟩
    · rw [binding]
      cases bound : v.binding with
      | none => rfl
      | some symbol =>
          rw [bound] at valued
          exact absurd valued (unbound symbol)
    · rw [typed] at isFunction
      exact function.trans isFunction
  · rintro ⟨v, inModule, rfl, unbound, isFunction⟩
    obtain ⟨w, listed, name, binding, function⟩ :=
      value_mem_of_unlinked (linkedDecls_unlinked m).symm inModule
    obtain ⟨info, member, named, kind, typed, valued⟩ := exists_info_of_value listed
    refine ⟨info, member, named.trans (congrArg Ident.name name), kind, ?_, ?_⟩
    · rw [valued, binding, unbound]
      intro symbol impossible
      cases impossible
    · rw [typed]
      exact function.trans isFunction

private theorem checkBodies_linked {m : Module} (distinct : m.names.Nodup) :
    checkBodies (ofList (infosFrom 0 0 (linkedDecls m))) []
        ((linkedDecls m).filterMap Decl.function?) = [] ↔
      (m.functions.map (·.name.name)).Nodup ∧ ∀ f ∈ m.functions, ∃ v, .value v ∈ m.decls ∧
        v.name.name = f.name.name ∧ v.binding = none ∧ v.type.isFunction = true := by
  have names : ((linkedDecls m).filterMap Decl.function?).map (·.name.name) =
      m.functions.map (·.name.name) := by
    rw [← names_functions_unlinked, linkedDecls_unlinked, names_functions_unlinked]
    rfl
  have each : ∀ (fs : List FunctionDecl) (p : String → Prop),
      (∀ f ∈ fs, p f.name.name) ↔ ∀ name ∈ fs.map (·.name.name), p name := by
    intro fs p
    simp
  rw [checkBodies_eq_nil, names]
  simp only [bodyFault?_linked distinct, List.not_mem_nil, not_false_eq_true, implies_true,
    true_and]
  rw [each _ fun name => ∃ v, .value v ∈ m.decls ∧ v.name.name = name ∧ v.binding = none ∧
    v.type.isFunction = true, names, ← each]

theorem distinct_of_clean {m : Module} (clean : m.link.2 = []) : m.names.Nodup := by
  have none := (List.append_eq_nil_iff.mp (List.append_eq_nil_iff.mp clean).1).1
  exact (Definitions.declareAll_clean_iff m).mp none

theorem resolved_of_link {m : Module} (distinct : m.names.Nodup)
    (clean : m.link.2 = []) : Resolved m m.link.1 := by
  rw [link_eq distinct] at clean ⊢
  have linksClean := (List.append_eq_nil_iff.mp clean).1
  refine ⟨?_, ?_, rfl, names_linkedDecls m 0 0⟩
  · exact congrArg (fun decls => { m with decls := decls }) (linkedDecls_unlinked m)
  · intro ref member
    obtain ⟨id, definition, resolved⟩ := (decls_links (bare m) m.decls).linked linksClean ref member
    obtain ⟨info, here, named, kind⟩ := (resolveName_ok (by
      rw [names_bare]
      exact distinct)).mp resolved
    rw [← untyped_linkedDecls, List.getElem?_map] at here
    obtain ⟨typed, there, rfl⟩ := Option.map_eq_some_iff.mp here
    refine ⟨id, typed, definition, ?_, named, kind⟩
    rw [get?_ofList]
    exact there

/-- Each body of a linked module has a value that no support operation is bound to. -/
theorem signed_of_clean {m : Module} (clean : m.link.2 = []) :
    ∀ f ∈ m.link.1.tree.functions, ∃ v, .value v ∈ m.link.1.tree.decls ∧
      v.name.name = f.name.name ∧ v.binding = none := by
  have distinct := distinct_of_clean clean
  rw [link_eq distinct] at clean ⊢
  obtain ⟨_oneBody, _unseen, faultless⟩ :=
    checkBodies_eq_nil.mp (List.append_eq_nil_iff.mp clean).2
  intro f member
  obtain ⟨info, inTable, named, kind, unbound, _isFunction⟩ :=
    (bodyFault?_eq_none (by rw [names_linkedDecls]; exact distinct)).mp (faultless f member)
  obtain ⟨v, declared, sameName, _type, value⟩ := mem_infosFrom_value inTable kind
  refine ⟨v, declared, sameName.symm.trans named, ?_⟩
  cases bound : v.binding with
  | none => rfl
  | some symbol =>
      rw [bound] at value
      exact absurd value (unbound symbol)

theorem wellNamed_iff_clean (m : Module) : WellNamed m ↔ m.link.2 = [] := by
  by_cases distinct : m.names.Nodup
  · have references : (linkEach (Decl.link (bare m)) m.decls).2 = [] ↔
        ∀ ref ∈ m.refs, m.Defines ref.name.name ref.sort := by
      rw [(decls_links (bare m) m.decls).clean]
      simp only [resolves_iff distinct]
      rfl
    rw [link_eq distinct, List.append_eq_nil_iff, references, checkBodies_linked distinct]
    constructor
    · rintro ⟨_, defined, oneBody, signed⟩
      exact ⟨defined, oneBody, signed⟩
    · rintro ⟨defined, oneBody, signed⟩
      exact ⟨distinct, defined, oneBody, signed⟩
  · exact ⟨fun fit => absurd fit.distinct distinct,
      fun clean => absurd (distinct_of_clean clean) distinct⟩

/-- Linking reports nothing exactly if the names of a module fit, and then everything is linked. -/
theorem clean_iff_wellNamed (m : Module) :
    (m.link.2 = [] ↔ WellNamed m) ∧ (m.link.2 = [] → Resolved m m.link.1) := by
  refine ⟨(wellNamed_iff_clean m).symm, ?_⟩
  intro clean
  exact resolved_of_link (distinct_of_clean clean) clean

end JumpIR.Tree
