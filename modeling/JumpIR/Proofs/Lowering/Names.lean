import Mathlib.Data.List.Nodup
import JumpIR.Proofs.Lowering.Compilation
import JumpIR.Proofs.Lowering.Numbering
import JumpIR.Proofs.Symbol.Linking

/-!
# Names in a body

The numbers that names are given in a body stand for what the module has under these names.
-/

set_option autoImplicit false

namespace JumpIR.Lowering

open SymbolTable

/-- The numbers of a module's definitions are their positions in the program. -/
structure Globals.Defines (g : Globals) (m : Tree.Module) (p : Program) : Prop where
  enumIds : Positions (fun e => g.symbols.lookup? e.name.name) EnumId.index m.enums g.numbers.enums
  unionIds : Positions (fun u => g.symbols.lookup? u.name.name) UnionId.index m.unions
    g.numbers.unions
  registers : Registers g.numbers m.registers ⟨g.registers, p.registers⟩
  enums : p.enums = m.enums.map Tree.EnumDecl.def
  unions : List.Forall₂ (Fills g.numbers) m.unions p.unions

/-- The named type holds the symbol of an entry with its name. -/
def Globals.Knows (g : Globals) (ref : Tree.TypeRef) : Prop :=
  ∃ id info, ref.definition = some id ∧ g.symbols.get? id = some info ∧
    info.name = ref.name.name ∧ info.kind = ref.sort.symbolKind

/-- The symbols of a module are those of its types and registers in the program. -/
structure Globals.Places (g : Globals) (m : Tree.Module) (p : Program) : Prop extends
    g.Defines m p where
  symbols : g.symbols = ofList (Tree.infosFrom 0 0 m.decls)
  distinct : m.names.Nodup
  links : ∀ ref ∈ m.refs, g.Knows ref

/-- The names of a module mean what a program lists. -/
structure Globals.Describes (g : Globals) (m : Tree.Module) (p : Program) : Prop extends
    g.Places m p where
  supports : g.Lists p.supports
  functions : ∀ name id, g.numbers.functions.lookup name = some id →
    ∃ d, p.function? id = some d ∧ d.name = name

/-! ### Compilations -/

theorem declareGlobals_defines {m : Tree.Module} {symbols : SymbolTable} {options : Options}
    {globals : Globals} {types : Program}
    (declared : declareGlobals m symbols options = .ok (globals, types))
    (distinct : m.names.Nodup) : globals.symbols = symbols ∧ globals.Defines m types := by
  obtain ⟨first, numbered, declared⟩ := bind_ok declared
  obtain ⟨⟨second, defs⟩, defined, done⟩ := bind_ok declared
  cases done
  have none : Numbered symbols [] [] ⟨⟨[], [], []⟩, [], []⟩ :=
    ⟨rfl, rfl, by simp [Positions], by simp [Positions]⟩
  have before := numberAll_numbered numbered none (nodup_enums distinct) (nodup_unions distinct)
  have same := defineAll_numbers defined
  obtain ⟨filled, sameEnums⟩ := defineAll_unions defined before.unionIds before.unionDefs .nil
  have noRegisters : Registers first.numbers [] ⟨[], []⟩ := ⟨by simp [Positions], .nil⟩
  have enumIds := before.enumIds
  have unionIds := before.unionIds
  rw [← same] at enumIds unionIds filled noRegisters
  refine ⟨rfl, enumIds, unionIds, ?_, sameEnums.trans before.enumDefs, filled⟩
  exact defineAll_registers defined same.symm noRegisters (nodup_registers distinct)

theorem Links.resolved {source : SourceText} {m : Tree.Module} {l : LinkedModule}
    (links : Links source m l) : m.names.Nodup ∧ Tree.Resolved m l := by
  have linked := congrArg Prod.fst links.linked
  have clean := congrArg Prod.snd links.linked
  subst linked
  have distinct := Tree.distinct_of_clean clean
  exact ⟨distinct, Tree.resolved_of_link distinct clean⟩

/-- What is declared for a linked module is what its names mean. -/
theorem places_of_resolved {m : Tree.Module} {l : LinkedModule} {options : Options}
    {globals : Globals} {types : Program} (distinct : m.names.Nodup) (resolved : Tree.Resolved m l)
    (declared : declareGlobals l.tree l.symbols options = .ok (globals, types)) :
    globals.symbols = l.symbols ∧ globals.Places l.tree types := by
  have names := resolved.nodup distinct
  obtain ⟨symbols, defines⟩ := declareGlobals_defines declared names
  refine ⟨symbols, defines, ?_, names, ?_⟩
  · rw [symbols, ← resolved.entries]
    rfl
  · unfold Globals.Knows
    rw [symbols]
    exact resolved.links

theorem Compilation.describes {c : Compilation} {source : SourceText}
    (linked : source.linked = .ok c.linked) :
    c.globals.Describes c.linked.tree c.program := by
  obtain ⟨m, links⟩ := links_of_linked linked
  obtain ⟨distinct, resolved⟩ := links.resolved
  obtain ⟨_symbols, places⟩ := places_of_resolved distinct resolved c.declared
  refine ⟨⟨⟨places.enumIds, places.unionIds, ?_, ?_, ?_⟩, places.symbols, places.distinct,
    places.links⟩, c.lists, ?_⟩
  · rw [c.registers]
    exact places.registers
  · rw [c.enums]
    exact places.enums
  · rw [c.unions]
    exact places.unions
  · intro name id found
    obtain ⟨f, d, first, numbered, compiles⟩ := Compilation.function_of_lookup found
    have named := List.find?_some first
    exact ⟨d, numbered, compiles.name.trans (eq_of_beq named)⟩

/-! ### Types -/

namespace Globals.Places

variable {g : Globals} {m : Tree.Module} {p : Program}

theorem nodup_infos (places : g.Places m p) :
    ((Tree.infosFrom 0 0 m.decls).map (·.name)).Nodup := by
  rw [Tree.names_infosFrom]
  exact places.distinct

/-- A symbol is the number of the entry that carries its name. -/
theorem info_of_lookup? (places : g.Places m p) {name : String} {id : SymbolId}
    (found : g.symbols.lookup? name = some id) :
    ∃ info, (Tree.infosFrom 0 0 m.decls)[id.index]? = some info ∧ info.name = name := by
  rw [places.symbols] at found
  exact (lookup?_eq_some places.nodup_infos).mp found

theorem info_of_info? (places : g.Places m p) {name : String} {info : SymbolInfo}
    (found : g.symbols.info? name = some info) :
    info ∈ Tree.infosFrom 0 0 m.decls ∧ info.name = name := by
  rw [places.symbols] at found
  exact (info?_eq_some places.nodup_infos).mp found

theorem enum_of_lookup (places : g.Places m p) {symbol : SymbolId} {id : EnumId}
    {info : SymbolInfo} (numbered : g.numbers.enums.lookup symbol = some id)
    (here : (Tree.infosFrom 0 0 m.decls)[symbol.index]? = some info) :
    ∃ e ∈ m.enums, p.enum? id = some e.def ∧ e.name.name = info.name := by
  obtain ⟨e, position, known⟩ := (places.enumIds symbol id).mp numbered
  obtain ⟨found, there, named⟩ := places.info_of_lookup? known
  cases here.symm.trans there
  refine ⟨e, List.mem_of_getElem? position, ?_, named.symm⟩
  unfold Program.enum?
  rw [places.enums, List.getElem?_map, position]
  rfl

theorem union_of_lookup (places : g.Places m p) {symbol : SymbolId} {id : UnionId}
    {info : SymbolInfo} (numbered : g.numbers.unions.lookup symbol = some id)
    (here : (Tree.infosFrom 0 0 m.decls)[symbol.index]? = some info) :
    ∃ u ∈ m.unions, ∃ d, p.union? id = some d ∧ Fills g.numbers u d ∧ u.name.name = info.name := by
  obtain ⟨u, position, known⟩ := (places.unionIds symbol id).mp numbered
  obtain ⟨found, there, named⟩ := places.info_of_lookup? known
  cases here.symm.trans there
  obtain ⟨d, listed, fills⟩ := exists_source_at places.unions position
  exact ⟨u, List.mem_of_getElem? position, d, listed, fills, named.symm⟩

mutual

/-- A linked type becomes a type of the program that names the same enums and unions. -/
theorem denotes_of_type (places : g.Places m p) : ∀ (t : Tree.TypeExpr) {type : Ty},
    (∀ ref ∈ t.refs, g.Knows ref) → g.numbers.type t = .ok type → t.Denotes p type
  | .base type span, _, _, lowered => by
      cases type <;> (cases lowered; exact .base)
  | .tuple items span, _, known, lowered => by
      rw [Numbering.type] at lowered
      obtain ⟨types, all, done⟩ := bind_ok lowered
      cases done
      exact .tuple (allDenote_of_types places items known all)
  | .named .enum name definition span, _, known, lowered => by
      rw [Numbering.type] at lowered
      split at lowered
      · rename_i id numbered
        cases lowered
        obtain ⟨symbol, info, links, here, named, _kind⟩ := known _ List.mem_cons_self
        dsimp only at links
        rw [links, Option.bind_some] at numbered
        rw [places.symbols, get?_ofList] at here
        obtain ⟨e, _inModule, listed, sameName⟩ := places.enum_of_lookup numbered here
        refine .enum ?_
        rw [Program.enumName?, listed]
        exact congrArg some (sameName.trans named)
      · cases lowered
  | .named .union name definition span, _, known, lowered => by
      rw [Numbering.type] at lowered
      split at lowered
      · rename_i id numbered
        cases lowered
        obtain ⟨symbol, info, links, here, named, _kind⟩ := known _ List.mem_cons_self
        dsimp only at links
        rw [links, Option.bind_some] at numbered
        rw [places.symbols, get?_ofList] at here
        obtain ⟨u, _inModule, d, listed, fills, sameName⟩ :=
          places.union_of_lookup numbered here
        refine .union ?_
        rw [Program.unionName?, listed]
        exact congrArg some (fills.name.trans (sameName.trans named))
      · cases lowered
  | .function params result span, _, _, lowered => by
      rw [Numbering.type] at lowered
      cases lowered

theorem allDenote_of_types (places : g.Places m p) :
    ∀ (ts : List Tree.TypeExpr) {types : List Ty}, (∀ ref ∈ Tree.TypeExpr.allRefs ts, g.Knows ref) →
      g.numbers.types ts = .ok types → Tree.TypeExpr.AllDenote p ts types
  | [], _, _, lowered => by
      cases lowered
      exact .nil
  | t :: rest, _, known, lowered => by
      rw [Numbering.types] at lowered
      obtain ⟨type, first, lowered⟩ := bind_ok lowered
      obtain ⟨types, others, done⟩ := bind_ok lowered
      cases done
      rw [Tree.TypeExpr.allRefs] at known
      exact .cons
        (denotes_of_type places t (fun ref member => known ref (List.mem_append_left _ member))
          first)
        (allDenote_of_types places rest
          (fun ref member => known ref (List.mem_append_right _ member)) others)

end

/-! ### Variants and registers -/

theorem registerName?_of_register? (places : g.Places m p) {name : String} {id : RegisterId}
    (found : g.register? name = some id) : p.registerName? id = some name := by
  obtain ⟨r, position, same⟩ := (places.registers.ids name id).mp found
  obtain ⟨d, listed, named, _typed⟩ := exists_source_at places.registers.defs position
  unfold Program.registerName? Program.register?
  rw [listed, Option.map_some, named]
  exact same

/-- A name with an ordinal is that of the variant with this position. -/
theorem ordinalName?_of_enumConst? (places : g.Places m p) {name : String} {id : EnumId}
    {ordinal : Nat} (found : g.enumConst? name = some (.enum id ordinal)) :
    p.ordinalName? id ordinal = some name := by
  unfold Globals.enumConst? at found
  obtain ⟨info, known, found⟩ := Option.bind_eq_some_iff.mp found
  obtain ⟨member, named⟩ := places.info_of_info? known
  split at found
  · rename_i n parent kind value child
    obtain ⟨id', numbered, same⟩ := Option.bind_eq_some_iff.mp found
    cases same
    obtain ⟨decl, inModule, holder, here, sameName, position⟩ :=
      Tree.exists_type_of_parent member child
    obtain ⟨e, inEnums, listed, sameEnum⟩ := places.enum_of_lookup numbered here
    rcases position with ⟨e', n', v, rfl, at', sameVariant, _kind, sameValue⟩ |
      ⟨_, _, _, _, _, _, otherKind, _⟩
    · cases value.symm.trans sameValue
      have inEnums' : e' ∈ m.enums := List.mem_filterMap.mpr ⟨.enum e', inModule, rfl⟩
      have same := List.inj_on_of_nodup_map (nodup_enums places.distinct) inEnums' inEnums
        (sameName.symm.trans sameEnum.symm)
      subst same
      unfold Program.ordinalName? EnumDef.variant?
      rw [listed, Option.bind_some, Tree.EnumDecl.def, List.getElem?_map, at', ← named, sameVariant]
      rfl
    · cases kind.symm.trans otherKind
  · cases found

/-- A name with a tag is that of the variant with this position. -/
theorem variantName?_of_variant? (places : g.Places m p) {name : String} {union : UnionId}
    {tag : Nat} (found : g.variant? name = some (union, tag)) :
    p.variantName? union tag = some name := by
  unfold Globals.variant? at found
  obtain ⟨info, known, found⟩ := Option.bind_eq_some_iff.mp found
  obtain ⟨member, named⟩ := places.info_of_info? known
  split at found
  · rename_i n parent kind value child
    obtain ⟨id, numbered, same⟩ := Option.bind_eq_some_iff.mp found
    cases same
    obtain ⟨decl, inModule, holder, here, sameName, position⟩ :=
      Tree.exists_type_of_parent member child
    obtain ⟨u, inUnions, d, listed, fills, sameUnion⟩ := places.union_of_lookup numbered here
    rcases position with ⟨_, _, _, _, _, _, otherKind, _⟩ |
      ⟨u', n', v, rfl, at', sameVariant, _kind, sameValue⟩
    · cases kind.symm.trans otherKind
    · cases value.symm.trans sameValue
      have inUnions' : u' ∈ m.unions := List.mem_filterMap.mpr ⟨.union u', inModule, rfl⟩
      have same := List.inj_on_of_nodup_map (nodup_unions places.distinct) inUnions' inUnions
        (sameName.symm.trans sameUnion.symm)
      subst same
      obtain ⟨variant, there, variantNamed, _payload⟩ :=
        exists_source_at (variantDefs_ok fills.variants) at'
      unfold Program.variantName? UnionDef.variant?
      rw [listed, Option.bind_eq_bind, Option.bind_some, there, Option.bind_eq_bind,
        Option.bind_some, variantNamed, ← named, sameVariant]
  · cases found

/-! ### Declared values -/

theorem knows_of_mem (places : g.Places m p) {decl : Tree.Decl} (member : decl ∈ m.decls) :
    ∀ ref ∈ decl.refs, g.Knows ref :=
  fun ref inDecl => places.links ref (List.mem_flatMap.mpr ⟨decl, member, inDecl⟩)

/-- The parameters and the result of a value with a function type. -/
theorem denotes_of_value (places : g.Places m p) {v : Tree.ValueDecl}
    (declared : .value v ∈ m.decls) {params : List Tree.TypeExpr} {result : Tree.TypeExpr}
    {span : Span} (type : v.type = .function params result span) {types : List Ty} {resultType : Ty}
    (ofParams : g.types params = .ok types) (ofResult : g.type result = .ok resultType) :
    Tree.TypeExpr.AllDenote p params types ∧ result.Denotes p resultType := by
  have known := places.knows_of_mem declared
  rw [Tree.Decl.refs, type, Tree.TypeExpr.refs] at known
  exact ⟨places.allDenote_of_types params
      (fun ref member => known ref (List.mem_append_left _ member)) ofParams,
    places.denotes_of_type result
      (fun ref member => known ref (List.mem_append_right _ member)) ofResult⟩

end Globals.Places

/-! ### Calls -/

namespace Globals.Describes

variable {g : Globals} {m : Tree.Module} {p : Program}

theorem binds_of_support (describes : g.Describes m p) {name : String} {span : Span}
    {op : SupportDef} (found : g.target? name span = .ok (some (.support op))) :
    ∃ v, .value v ∈ m.decls ∧ v.Binds p op := by
  obtain ⟨info, params, result, typeSpan, known, kind, value, type, ofParams, ofResult⟩ :=
    info_of_support found
  obtain ⟨member, named⟩ := describes.info_of_info? known
  obtain ⟨v, declared, sameName, sameType, sameValue⟩ := Tree.mem_infosFrom_value member kind
  have isFunction : v.type = .function params result typeSpan :=
    Option.some.inj (sameType.symm.trans type)
  refine ⟨v, declared, ?_, ?_, params, result, typeSpan, isFunction,
    describes.denotes_of_value declared isFunction ofParams ofResult⟩
  · rw [← sameName, named, (target?_support found).1]
  · rw [value] at sameValue
    cases binding : v.binding with
    | none =>
        rw [binding] at sameValue
        cases sameValue
    | some symbol =>
        rw [binding] at sameValue
        cases sameValue
        rfl

theorem calls_of_support (describes : g.Describes m p) {name : String} {span : Span}
    {op : SupportDef} {id : SupportId}
    (found : g.target? name span = .ok (some (.support op))) (listed : p.support? id = some op) :
    m.Calls p name (.support id) := by
  obtain ⟨v, declared, binds⟩ := describes.binds_of_support found
  exact .support listed (target?_support found).1 declared binds

theorem calls_of_function (describes : g.Describes m p) {name : String} {span : Span} {id : FuncId}
    {mayRaise : Bool} (found : g.target? name span = .ok (some (.function id mayRaise))) :
    m.Calls p name (.function id) := by
  obtain ⟨d, numbered, named⟩ := describes.functions name id (target?_function found).1
  exact .function numbered named

end Globals.Describes

end JumpIR.Lowering
