import JumpIR.Proofs.Lowering.Progress
import JumpIR.Proofs.Lowering.Variants

/-!
# Meanings of names in a linked module

The type that a written type becomes is told by its form, and what a name stands for in a body by
the declarations of the module. Main statements: `Places.type_eq_iff` and `Resolves.means`.
-/

set_option autoImplicit false

namespace JumpIR.Lowering

open SymbolTable JumpIR.Tree

/-! ### Types that are lowered -/

namespace Numbering

variable {numbers : Numbering}

/-- The symbol that the named type holds has a number. -/
def Has (numbers : Numbering) (ref : TypeRef) : Prop :=
  match ref.sort with
  | .enum => ∃ id, ref.definition.bind (numbers.enums.lookup ·) = some id
  | .union => ∃ id, ref.definition.bind (numbers.unions.lookup ·) = some id

mutual

/-- A linked type is lowered exactly if no function stands in it. -/
theorem succeeds_type_iff : ∀ t : TypeExpr, (∀ ref ∈ t.refs, numbers.Has ref) →
    (Succeeds (numbers.type t) ↔ t.form.isData = true)
  | .base type span, _ => by
      cases type <;> simp [Numbering.type, TypeExpr.form, BaseType.form, TypeForm.isData]
  | .tuple items span, known => by
      rw [Numbering.type, TypeExpr.form, TypeForm.isData, succeeds_bind_left fun _ => succeeds_ok _]
      exact succeeds_types_iff items known
  | .named .enum name definition span, known => by
      obtain ⟨id, numbered⟩ := known _ List.mem_cons_self
      dsimp only at numbered
      rw [Numbering.type, numbered]
      simp [TypeExpr.form, TypeForm.isData]
  | .named .union name definition span, known => by
      obtain ⟨id, numbered⟩ := known _ List.mem_cons_self
      dsimp only at numbered
      rw [Numbering.type, numbered]
      simp [TypeExpr.form, TypeForm.isData]
  | .function params result span, _ => by
      simp [Numbering.type, TypeExpr.form, TypeForm.isData]

theorem succeeds_types_iff : ∀ ts : List TypeExpr, (∀ ref ∈ TypeExpr.allRefs ts, numbers.Has ref) →
    (Succeeds (numbers.types ts) ↔ TypeForm.allData (TypeExpr.forms ts) = true)
  | [], _ => by simp [Numbering.types, TypeExpr.forms, TypeForm.allData]
  | t :: rest, known => by
      rw [TypeExpr.allRefs] at known
      rw [Numbering.types, TypeExpr.forms, TypeForm.allData, Bool.and_eq_true,
        ← succeeds_type_iff t fun ref member => known ref (List.mem_append_left _ member)]
      refine succeeds_bind_iff fun _type _lowered => ?_
      rw [succeeds_bind_left fun _ => succeeds_ok _]
      exact succeeds_types_iff rest fun ref member => known ref (List.mem_append_right _ member)

end

end Numbering

/-! ### Forms and types -/

mutual

/-- The type of the program that is written in this form. -/
def Globals.meaning (g : Globals) : TypeForm → Option Ty
  | .unit => some .unit
  | .bool => some .bool
  | .int => some .int
  | .bit => some .bit
  | .bits width => some (.bits width)
  | .string => some .string
  | .tuple items => (g.meanings items).map .tuple
  | .named .enum name => ((g.symbols.lookup? name).bind (g.numbers.enums.lookup ·)).map .enum
  | .named .union name => ((g.symbols.lookup? name).bind (g.numbers.unions.lookup ·)).map .union
  | .function _ _ => none

def Globals.meanings (g : Globals) : List TypeForm → Option (List Ty)
  | [] => some []
  | form :: rest => (g.meaning form).bind fun type => (g.meanings rest).map (type :: ·)

end

mutual

/-- How a type of the program is written. -/
def Written (p : Program) : Ty → TypeForm
  | .unit => .unit
  | .bool => .bool
  | .int => .int
  | .bit => .bit
  | .bits width => .bits width
  | .string => .string
  | .tuple items => .tuple (AllWritten p items)
  | .enum id => .named .enum ((p.enumName? id).getD "")
  | .union id => .named .union ((p.unionName? id).getD "")

def AllWritten (p : Program) : List Ty → List TypeForm
  | [] => []
  | type :: rest => Written p type :: AllWritten p rest

end

namespace Globals.Places

variable {g : Globals} {m : Module} {p : Program}

/-- The symbol that a linked name holds is the one of that name. -/
theorem lookup?_of_knows (places : g.Places m p) {ref : TypeRef} (known : g.Knows ref) :
    ref.definition = g.symbols.lookup? ref.name.name := by
  obtain ⟨id, info, links, here, named, _kind⟩ := known
  rw [places.symbols, get?_ofList] at here
  rw [links, places.symbols]
  exact ((lookup?_eq_some places.nodup_infos).mpr ⟨info, here, named⟩).symm

mutual

/-- What a linked type is lowered to is the meaning of its form. -/
theorem meaning_of_type (places : g.Places m p) : ∀ (t : TypeExpr) {type : Ty},
    (∀ ref ∈ t.refs, g.Knows ref) → g.numbers.type t = .ok type → g.meaning t.form = some type
  | .base type span, _, _, lowered => by
      cases type <;> (cases lowered; rfl)
  | .tuple items span, _, known, lowered => by
      rw [Numbering.type] at lowered
      obtain ⟨types, all, done⟩ := bind_ok lowered
      cases done
      rw [TypeExpr.form, Globals.meaning, meanings_of_types places items known all]
      rfl
  | .named .enum name definition span, _, known, lowered => by
      have links := places.lookup?_of_knows (known _ List.mem_cons_self)
      dsimp only at links
      rw [Numbering.type, links] at lowered
      rw [TypeExpr.form, Globals.meaning]
      split at lowered
      · rename_i id numbered
        cases lowered
        rw [numbered]
        rfl
      · cases lowered
  | .named .union name definition span, _, known, lowered => by
      have links := places.lookup?_of_knows (known _ List.mem_cons_self)
      dsimp only at links
      rw [Numbering.type, links] at lowered
      rw [TypeExpr.form, Globals.meaning]
      split at lowered
      · rename_i id numbered
        cases lowered
        rw [numbered]
        rfl
      · cases lowered
  | .function params result span, _, _, lowered => by
      rw [Numbering.type] at lowered
      cases lowered

theorem meanings_of_types (places : g.Places m p) : ∀ (ts : List TypeExpr) {types : List Ty},
    (∀ ref ∈ TypeExpr.allRefs ts, g.Knows ref) → g.numbers.types ts = .ok types →
      g.meanings (TypeExpr.forms ts) = some types
  | [], _, _, lowered => by
      cases lowered
      rfl
  | t :: rest, _, known, lowered => by
      rw [Numbering.types] at lowered
      obtain ⟨type, first, lowered⟩ := bind_ok lowered
      obtain ⟨types, others, done⟩ := bind_ok lowered
      cases done
      rw [TypeExpr.allRefs] at known
      rw [TypeExpr.forms, Globals.meanings,
        meaning_of_type places t (fun ref member => known ref (List.mem_append_left _ member))
          first,
        meanings_of_types places rest
          (fun ref member => known ref (List.mem_append_right _ member)) others]
      rfl

end

mutual

/-- A form is read off its meaning. -/
theorem written_of_meaning (places : g.Places m p) : ∀ (form : TypeForm) {type : Ty},
    g.meaning form = some type → Written p type = form
  | .unit, _, meant | .bool, _, meant | .int, _, meant | .bit, _, meant | .bits _, _, meant
  | .string, _, meant => by
      cases meant
      rfl
  | .tuple items, _, meant => by
      rw [Globals.meaning] at meant
      obtain ⟨types, all, rfl⟩ := Option.map_eq_some_iff.mp meant
      rw [Written, allWritten_of_meanings places items all]
  | .named .enum name, _, meant => by
      rw [Globals.meaning] at meant
      obtain ⟨id, found, rfl⟩ := Option.map_eq_some_iff.mp meant
      obtain ⟨symbol, known, numbered⟩ := Option.bind_eq_some_iff.mp found
      obtain ⟨info, here, named⟩ := places.info_of_lookup? known
      obtain ⟨e, _declared, listed, sameName⟩ := places.enum_of_lookup numbered here
      rw [Written, Program.enumName?, listed, Option.map_some, Option.getD_some]
      exact congrArg _ (sameName.trans named)
  | .named .union name, _, meant => by
      rw [Globals.meaning] at meant
      obtain ⟨id, found, rfl⟩ := Option.map_eq_some_iff.mp meant
      obtain ⟨symbol, known, numbered⟩ := Option.bind_eq_some_iff.mp found
      obtain ⟨info, here, named⟩ := places.info_of_lookup? known
      obtain ⟨u, _declared, d, listed, fills, sameName⟩ := places.union_of_lookup numbered here
      rw [Written, Program.unionName?, listed, Option.map_some, Option.getD_some, fills.name]
      exact congrArg _ (sameName.trans named)
  | .function _ _, _, meant => by
      rw [Globals.meaning] at meant
      cases meant

theorem allWritten_of_meanings (places : g.Places m p) : ∀ (forms : List TypeForm)
    {types : List Ty}, g.meanings forms = some types → AllWritten p types = forms
  | [], _, meant => by
      cases meant
      rfl
  | form :: rest, _, meant => by
      rw [Globals.meanings] at meant
      obtain ⟨type, first, meant⟩ := Option.bind_eq_some_iff.mp meant
      obtain ⟨types, others, rfl⟩ := Option.map_eq_some_iff.mp meant
      rw [AllWritten, written_of_meaning places form first,
        allWritten_of_meanings places rest others]

end

/-- Two forms mean one type only if they are the same. -/
theorem meaning_injective (places : g.Places m p) {form form' : TypeForm} {type : Ty}
    (meant : g.meaning form = some type) (meant' : g.meaning form' = some type) : form = form' :=
  (places.written_of_meaning form meant).symm.trans (places.written_of_meaning form' meant')

end Globals.Places

mutual

/-- A form that has a meaning is one of values. -/
theorem Globals.isData_of_meaning {g : Globals} : ∀ (form : TypeForm) {type : Ty},
    g.meaning form = some type → form.isData = true
  | .unit, _, _ | .bool, _, _ | .int, _, _ | .bit, _, _ | .bits _, _, _ | .string, _, _
  | .named _ _, _, _ => rfl
  | .tuple items, _, meant => by
      rw [Globals.meaning] at meant
      obtain ⟨types, all, _same⟩ := Option.map_eq_some_iff.mp meant
      exact allData_of_meanings items all
  | .function _ _, _, meant => by
      rw [Globals.meaning] at meant
      cases meant

theorem Globals.allData_of_meanings {g : Globals} : ∀ (forms : List TypeForm) {types : List Ty},
    g.meanings forms = some types → TypeForm.allData forms = true
  | [], _, _ => rfl
  | form :: rest, _, meant => by
      rw [Globals.meanings] at meant
      obtain ⟨type, first, meant⟩ := Option.bind_eq_some_iff.mp meant
      obtain ⟨types, others, _same⟩ := Option.map_eq_some_iff.mp meant
      rw [TypeForm.allData, isData_of_meaning form first, allData_of_meanings rest others]
      rfl

end

theorem Globals.length_of_meanings {g : Globals} {forms : List TypeForm} {types : List Ty}
    (meant : g.meanings forms = some types) : types.length = forms.length := by
  induction forms generalizing types with
  | nil =>
      cases meant
      rfl
  | cons form rest ih =>
      rw [Globals.meanings] at meant
      obtain ⟨type, _first, meant⟩ := Option.bind_eq_some_iff.mp meant
      obtain ⟨others, all, rfl⟩ := Option.map_eq_some_iff.mp meant
      exact congrArg Nat.succ (ih all)

/-! ### Numbers -/

/-- In a table with the entries of a module, the symbols of its types have numbers. -/
theorem Numbering.has_of_positions {m : Module} {symbols : SymbolTable} {numbers : Numbering}
    (entries : symbols = ofList (infosFrom 0 0 m.decls)) (distinct : m.names.Nodup)
    (enumIds : Positions (fun e : EnumDecl => symbols.lookup? e.name.name) EnumId.index m.enums
      numbers.enums)
    (unionIds : Positions (fun u : UnionDecl => symbols.lookup? u.name.name) UnionId.index m.unions
      numbers.unions)
    {ref : TypeRef} {id : SymbolId} {info : SymbolInfo} (links : ref.definition = some id)
    (here : symbols.get? id = some info) (named : info.name = ref.name.name)
    (kind : info.kind = ref.sort.symbolKind) : numbers.Has ref := by
  rw [entries, get?_ofList] at here
  have found : symbols.lookup? ref.name.name = some id := by
    rw [entries]
    exact (lookup?_eq_some (by rw [names_infosFrom]; exact distinct)).mpr ⟨info, here, named⟩
  have defines := exists_info_of_sort.mp ⟨info, List.mem_of_getElem? here, named, kind⟩
  obtain ⟨sort, name, definition⟩ := ref
  cases links
  cases sort with
  | enum =>
      obtain ⟨e, declared, sameName⟩ := defines
      obtain ⟨position, listed⟩ := List.getElem?_of_mem (Module.mem_enums.mpr declared)
      exact ⟨⟨position⟩, (enumIds id ⟨position⟩).mpr
        ⟨e, listed, (congrArg symbols.lookup? sameName).trans found⟩⟩
  | union =>
      obtain ⟨u, declared, sameName⟩ := defines
      obtain ⟨position, listed⟩ := List.getElem?_of_mem (Module.mem_unions.mpr declared)
      exact ⟨⟨position⟩, (unionIds id ⟨position⟩).mpr
        ⟨u, listed, (congrArg symbols.lookup? sameName).trans found⟩⟩

theorem Globals.Places.has_of_mem {g : Globals} {m : Module} {p : Program} (places : g.Places m p)
    {ref : TypeRef} (member : ref ∈ m.refs) : g.numbers.Has ref := by
  obtain ⟨id, info, links, here, named, kind⟩ := places.links ref member
  exact Numbering.has_of_positions places.symbols places.distinct places.enumIds places.unionIds
    links here named kind

/-! ### Names in a body -/

/-- A linked module whose functions have numbers and signatures. -/
structure Globals.Resolves (g : Globals) (m : Module) (p : Program) : Prop extends
    g.Places m p where
  bodies : ∀ name, (g.numbers.functions.lookup name).isSome = true ↔
    ∃ f, .function f ∈ m.decls ∧ f.name.name = name
  signed : ∀ f, .function f ∈ m.decls → ∃ v, .value v ∈ m.decls ∧ v.name.name = f.name.name ∧
    v.binding = none

namespace Globals.Places

variable {g : Globals} {m : Module} {p : Program}

theorem register?_iff (places : g.Places m p) {name : String} :
    (∃ id, g.register? name = some id) ↔ ∃ decl ∈ m.decls, decl.Stores name := by
  constructor
  · rintro ⟨id, found⟩
    obtain ⟨r, position, same⟩ := (places.registers.ids name id).mp found
    exact ⟨.register r, Module.mem_registers.mp (List.mem_of_getElem? position),
      Option.some.inj same⟩
  · rintro ⟨decl, declared, stores⟩
    cases decl with
    | register r =>
        obtain ⟨position, listed⟩ := List.getElem?_of_mem (Module.mem_registers.mpr declared)
        exact ⟨⟨position⟩, (places.registers.ids name ⟨position⟩).mpr
          ⟨r, listed, congrArg some stores⟩⟩
    | _ => cases stores

theorem enumConst?_iff (places : g.Places m p) {name : String} :
    (∃ c, g.enumConst? name = some c) ↔ ∃ decl ∈ m.decls, decl.HasOrdinal name := by
  constructor
  · rintro ⟨c, found⟩
    obtain ⟨id, ordinal, rfl⟩ := enumConst?_eq found
    have named := places.ordinalName?_of_enumConst? found
    obtain ⟨d, listed, there⟩ := Option.bind_eq_some_iff.mp named
    rw [Program.enum?, places.enums, List.getElem?_map] at listed
    obtain ⟨e, position, rfl⟩ := Option.map_eq_some_iff.mp listed
    obtain ⟨v, inEnum, sameName⟩ := List.mem_map.mp (List.mem_of_getElem? there)
    exact ⟨.enum e, Module.mem_enums.mp (List.mem_of_getElem? position), v, inEnum, sameName⟩
  · rintro ⟨decl, declared, has⟩
    cases decl with
    | enum e =>
        obtain ⟨v, inEnum, rfl⟩ := has
        obtain ⟨position, listed⟩ := List.getElem?_of_mem (Module.mem_enums.mpr declared)
        obtain ⟨index, here⟩ := List.getElem?_of_mem inEnum
        exact ⟨_, places.enumConst?_of_variant listed here⟩
    | _ => cases has

theorem variant?_iff (places : g.Places m p) {name : String} :
    (∃ found, g.variant? name = some found) ↔ ∃ decl ∈ m.decls, decl.HasTag name := by
  constructor
  · rintro ⟨⟨id, tag⟩, found⟩
    have named := places.variantName?_of_variant? found
    obtain ⟨d, listed, there⟩ := Option.bind_eq_some_iff.mp named
    obtain ⟨variant, inUnion, sameName⟩ := Option.bind_eq_some_iff.mp there
    obtain ⟨u, declared, fills⟩ := exists_source places.unions (List.mem_of_getElem? listed)
    obtain ⟨v, inDecl, alike, _payload⟩ :=
      exists_source (variantDefs_ok fills.variants) (List.mem_of_getElem? inUnion)
    exact ⟨.union u, Module.mem_unions.mp declared, v, inDecl,
      alike.symm.trans (Option.some.inj sameName)⟩
  · rintro ⟨decl, declared, has⟩
    cases decl with
    | union u =>
        obtain ⟨v, inUnion, rfl⟩ := has
        obtain ⟨position, listed⟩ := List.getElem?_of_mem (Module.mem_unions.mpr declared)
        obtain ⟨index, here⟩ := List.getElem?_of_mem inUnion
        exact ⟨_, places.variant?_of_variant listed here⟩
    | _ => cases has

/-- What the type of a value with a function type is lowered to is the meaning of its form. -/
theorem meanings_of_function (places : g.Places m p) {v : ValueDecl}
    (declared : .value v ∈ m.decls) {params : List TypeExpr} {result : TypeExpr} {span : Span}
    (type : v.type = .function params result span) {types : List Ty} {resultType : Ty}
    (ofParams : g.types params = .ok types) (ofResult : g.type result = .ok resultType) :
    g.meanings (TypeExpr.forms params) = some types ∧ g.meaning result.form = some resultType := by
  have refs := places.knows_of_mem declared
  rw [Decl.refs, type, TypeExpr.refs] at refs
  exact ⟨places.meanings_of_types params
      (fun ref member => refs ref (List.mem_append_left _ member)) ofParams,
    places.meaning_of_type result
      (fun ref member => refs ref (List.mem_append_right _ member)) ofResult⟩

theorem exists_types_of_function (places : g.Places m p) {v : ValueDecl}
    (declared : .value v ∈ m.decls) {params : List TypeExpr} {result : TypeExpr} {span : Span}
    (type : v.type = .function params result span)
    (dataParams : TypeForm.allData (TypeExpr.forms params) = true)
    (dataResult : result.form.isData = true) :
    ∃ types resultType, g.types params = .ok types ∧ g.type result = .ok resultType := by
  have refs : ∀ ref ∈ v.type.refs, g.numbers.Has ref := fun ref inType =>
    places.has_of_mem (List.mem_flatMap.mpr ⟨.value v, declared, inType⟩)
  rw [type, TypeExpr.refs] at refs
  obtain ⟨types, ofParams⟩ := (Numbering.succeeds_types_iff params fun ref member =>
    refs ref (List.mem_append_left _ member)).mpr dataParams
  obtain ⟨resultType, ofResult⟩ := (Numbering.succeeds_type_iff result fun ref member =>
    refs ref (List.mem_append_right _ member)).mpr dataResult
  exact ⟨types, resultType, ofParams, ofResult⟩

/-- The entry of a declared value. -/
theorem info?_of_value (places : g.Places m p) {v : ValueDecl} (declared : .value v ∈ m.decls) :
    ∃ info, g.symbols.info? v.name.name = some info ∧ info.kind = .value ∧
      info.type = some v.type ∧ info.value = (v.binding.map .support).getD .none := by
  obtain ⟨info, member, named, kind, type, value⟩ := exists_info_of_value declared
  refine ⟨info, ?_, kind, type, value⟩
  rw [places.symbols, info?_eq_some places.nodup_infos]
  exact ⟨member, named⟩

/-- What a value's name stands for in a call. -/
theorem target?_of_value (places : g.Places m p) {v : ValueDecl} (declared : .value v ∈ m.decls)
    (span : Span) : g.target? v.name.name span = match v.binding with
      | some symbol => do
          let op ← g.supportDef v.name.name symbol (some v.type) span
          .ok (some (.support op))
      | none => .ok ((g.numbers.functions.lookup v.name.name).map fun id =>
          .function id (g.mayRaise v.name.name)) := by
  obtain ⟨info, known, kind, type, value⟩ := places.info?_of_value declared
  have noVariant : g.variant? v.name.name = none := by
    simp [Globals.variant?, known, kind]
  unfold Globals.target?
  rw [noVariant, known]
  dsimp only
  rw [kind, type, value]
  cases v.binding <;> rfl

end Globals.Places

namespace Globals.Resolves

variable {g : Globals} {m : Module} {p : Program}

/-- A call goes through exactly if a declaration takes it. -/
theorem target?_iff (resolves : g.Resolves m p) {name : String} {span : Span} {count : Nat} :
    (∃ target : Target, g.target? name span = .ok (some target) ∧ target.Takes count) ↔
      ∃ decl ∈ m.decls, decl.Takes name count := by
  constructor
  · rintro ⟨target, found, takes⟩
    cases target with
    | constructor union tag =>
        obtain ⟨decl, declared, has⟩ :=
          resolves.variant?_iff.mp ⟨_, target?_constructor found⟩
        cases decl with
        | union u => exact ⟨_, declared, has⟩
        | _ => cases has
    | function id mayRaise =>
        obtain ⟨f, declared, named⟩ := (resolves.bodies name).mp
          (Option.isSome_of_eq_some (target?_function found).1)
        exact ⟨_, declared, named⟩
    | support op =>
        obtain ⟨info, params, result, typeSpan, known, kind, value, type, ofParams, ofResult⟩ :=
          info_of_support found
        obtain ⟨member, named⟩ := resolves.info_of_info? known
        obtain ⟨v, declared, sameName, sameType, sameValue⟩ := mem_infosFrom_value member kind
        have isFunction : v.type = .function params result typeSpan :=
          Option.some.inj (sameType.symm.trans type)
        obtain ⟨meantParams, meantResult⟩ :=
          resolves.meanings_of_function declared isFunction ofParams ofResult
        refine ⟨.value v, declared, sameName.symm.trans named, ?_, TypeExpr.forms params,
          result.form, ?_, allData_of_meanings _ meantParams, isData_of_meaning _ meantResult, ?_⟩
        · intro unbound
          rw [value, unbound] at sameValue
          cases sameValue
        · rw [isFunction, TypeExpr.form]
        · rw [← length_of_meanings meantParams]
          exact takes
  · rintro ⟨decl, declared, takes⟩
    cases decl with
    | enum _ | register _ => cases takes
    | union u =>
        obtain ⟨⟨union, tag⟩, found⟩ := resolves.variant?_iff.mpr ⟨.union u, declared, takes⟩
        refine ⟨.constructor union tag, ?_, trivial⟩
        rw [target?, found]
    | function f =>
        -- A body has no entry of its own: its name leads to the value that gives its type.
        obtain ⟨v, inModule, named, unbound⟩ := resolves.signed f declared
        obtain ⟨id, numbered⟩ := Option.isSome_iff_exists.mp
          ((resolves.bodies name).mpr ⟨f, declared, takes⟩)
        have sameName : v.name.name = name := named.trans takes
        refine ⟨.function id (g.mayRaise name), ?_, trivial⟩
        rw [← sameName, resolves.target?_of_value inModule, unbound, sameName, numbered]
        rfl
    | value v =>
        obtain ⟨rfl, bound, params, result, written, dataParams, dataResult, length⟩ := takes
        obtain ⟨symbol, binding⟩ := Option.ne_none_iff_exists'.mp bound
        obtain ⟨ps, r, typeSpan, type, rfl, rfl⟩ := TypeExpr.exists_of_form written
        obtain ⟨types, resultType, ofParams, ofResult⟩ :=
          resolves.exists_types_of_function declared type dataParams dataResult
        have meant := (resolves.meanings_of_function declared type ofParams ofResult).1
        refine ⟨.support ⟨v.name.name, symbol, types, resultType⟩, ?_, ?_⟩
        · rw [resolves.target?_of_value declared, binding, type]
          simp only [supportDef, ofParams, ofResult]
          rfl
        · exact (length_of_meanings meant).trans length

/-- In a body, every name means what the declarations of the module make of it. -/
theorem means (resolves : g.Resolves m p) {s : Scope} (inGlobals : s.globals = g)
    {locals : List String} (known : ∀ name, (s.local? name).isSome = true ↔ name ∈ locals) :
    s.Means (m.meanings locals) where
  value := by
    intro name
    change _ ↔ (_ ∨ _)
    simp only [and_or_left, exists_or, ← resolves.register?_iff, ← resolves.enumConst?_iff, ← known,
      ← inGlobals]
    unfold Scope.nameOperand
    cases s.local? name.name with
    | some id => simp
    | none =>
        cases s.globals.register? name.name with
        | some id => simp
        | none => cases s.globals.enumConst? name.name <;> simp
  place := by
    intro name path
    change _ ↔ (_ ∨ _)
    rw [← resolves.register?_iff, ← known, ← inGlobals, Scope.place]
    cases s.local? name.name with
    | some id => simp
    | none => cases s.globals.register? name.name <;> simp
  variant := by
    intro name
    rw [inGlobals]
    exact resolves.variant?_iff
  callee := by
    intro name span count
    rw [inGlobals]
    exact resolves.target?_iff

end Globals.Resolves

end JumpIR.Lowering
