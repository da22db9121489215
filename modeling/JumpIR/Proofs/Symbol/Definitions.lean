import JumpIR.Proofs.Symbol.Names

/-!
# Tables of distinct names

Defining the names of a module reports nothing exactly if the names are distinct, and then the table
lists their entries in order, so far without types. In such a table a name finds the one entry that
carries it.
-/

set_option autoImplicit false

namespace JumpIR

namespace SymbolTable

def ofList (infos : List SymbolInfo) : SymbolTable := ⟨infos.toArray⟩

variable {infos : List SymbolInfo} {info : SymbolInfo} {name : String} {id : SymbolId}

theorem get?_ofList : (ofList infos).get? id = infos[id.index]? := by
  simp [ofList, get?]

theorem lookup?_ofList : (ofList infos).lookup? name =
    (infos.findIdx? fun info => info.name == name).map SymbolId.mk := by
  simp [ofList, lookup?]

theorem lookup?_eq_none : (ofList infos).lookup? name = none ↔ name ∉ infos.map (·.name) := by
  rw [lookup?_ofList, Option.map_eq_none_iff, List.findIdx?_eq_none_iff]
  simp

/-- Where no two entries have one name, a name finds its entry. -/
theorem lookup?_eq_some (distinct : (infos.map (·.name)).Nodup) :
    (ofList infos).lookup? name = some id ↔ ∃ info, infos[id.index]? = some info ∧
      info.name = name := by
  rw [lookup?_ofList]
  constructor
  · intro found
    obtain ⟨index, first, rfl⟩ := Option.map_eq_some_iff.mp found
    obtain ⟨bound, named, _before⟩ := List.findIdx?_eq_some_iff_getElem.mp first
    exact ⟨infos[index], List.getElem?_eq_getElem bound, eq_of_beq named⟩
  · rintro ⟨info, here, rfl⟩
    obtain ⟨bound, same⟩ := List.getElem?_eq_some_iff.mp here
    rw [Option.map_eq_some_iff]
    refine ⟨id.index, ?_, rfl⟩
    rw [List.findIdx?_eq_some_iff_getElem]
    refine ⟨bound, by simp [same], ?_⟩
    intro other before equal
    have apart := List.pairwise_iff_getElem.mp distinct other id.index (by simp; omega)
      (by simp; omega) before
    rw [List.getElem_map, List.getElem_map, same] at apart
    exact apart (eq_of_beq equal)

theorem info?_eq_some (distinct : (infos.map (·.name)).Nodup) :
    (ofList infos).info? name = some info ↔ info ∈ infos ∧ info.name = name := by
  unfold info?
  rw [Option.bind_eq_some_iff]
  constructor
  · rintro ⟨id, found, here⟩
    obtain ⟨same, there, named⟩ := (lookup?_eq_some distinct).mp found
    rw [get?_ofList, there] at here
    cases here
    exact ⟨List.mem_of_getElem? there, named⟩
  · rintro ⟨member, named⟩
    obtain ⟨index, here⟩ := List.getElem?_of_mem member
    refine ⟨⟨index⟩, (lookup?_eq_some distinct).mpr ⟨info, here, named⟩, ?_⟩
    rw [get?_ofList]
    exact here

theorem insert_fresh (fresh : info.name ∉ infos.map (·.name)) :
    (ofList infos).insert info = .added ⟨infos.length⟩ (ofList (infos ++ [info])) := by
  unfold insert
  rw [lookup?_eq_none.mpr fresh]
  simp [ofList, size]

/-- A name that is there is rejected with the symbol of an entry that has it. -/
theorem insert_taken (there : info.name ∈ infos.map (·.name)) :
    ∃ holder entry, (ofList infos).insert info = .taken holder ∧
      (ofList infos).lookup? info.name = some holder ∧
      (ofList infos).get? holder = some entry ∧ entry.name = info.name := by
  cases found : (ofList infos).lookup? info.name with
  | none => exact absurd there (lookup?_eq_none.mp found)
  | some holder =>
      have first := found
      rw [lookup?_ofList, Option.map_eq_some_iff] at first
      rcases first with ⟨index, first, same⟩
      rcases List.findIdx?_eq_some_iff_getElem.mp first with ⟨bound, named, _before⟩
      refine ⟨holder, infos[index], ?_, rfl, ?_, eq_of_beq named⟩
      · unfold insert
        rw [found]
      · rw [get?_ofList, ← same, List.getElem?_eq_getElem bound]

end SymbolTable

namespace Tree

open SymbolTable

/-! ### Defining names -/

/-- An entry before its type is recorded. -/
def untyped (info : SymbolInfo) : SymbolInfo := { info with type := none }

theorem names_untyped (infos : List SymbolInfo) :
    (infos.map untyped).map (·.name) = infos.map (·.name) :=
  List.map_map

namespace Definitions

variable {infos : List SymbolInfo} {reports : LinkReports}

theorem define_fresh {name : Ident} {kind : SymbolKind} {value : SymbolValue} {decl : Nat}
    {parent : Option SymbolId} (fresh : name.name ∉ infos.map (·.name)) :
    define ⟨ofList infos, reports⟩ name kind value decl parent =
      (some ⟨infos.length⟩,
        ⟨ofList (infos ++ [⟨name.name, kind, none, value, decl, parent⟩]), reports⟩) := by
  unfold define
  dsimp only
  rw [insert_fresh fresh]

theorem define_taken (reports : LinkReports) (kind : SymbolKind) (value : SymbolValue) (decl : Nat)
    (parent : Option SymbolId) {name : Ident} (taken : name.name ∈ infos.map (·.name)) :
    ∃ report, define ⟨ofList infos, reports⟩ name kind value decl parent =
      (none, ⟨ofList infos, reports ++ [report]⟩) := by
  rcases @insert_taken infos ⟨name.name, kind, none, value, decl, parent⟩ taken with
    ⟨holder, entry, rejected, _found, here, _named⟩
  refine ⟨⟨.redefined name.name entry.kind, name.span⟩, ?_⟩
  unfold define
  dsimp only
  rw [rejected]
  dsimp only
  rw [here]

theorem nodup_concat (entry : SymbolInfo) (distinct : (infos.map (·.name)).Nodup)
    (fresh : entry.name ∉ infos.map (·.name)) :
    ((infos ++ [entry]).map (·.name)).Nodup := by
  rw [List.map_append, List.nodup_append]
  refine ⟨distinct, by simp, ?_⟩
  intro name member other same
  rw [List.map_singleton, List.mem_singleton] at same
  rintro rfl
  exact fresh (same ▸ member)

/-- Defines a type and then its variants, unless the name of the type is taken. -/
private def defineType (d : Definitions) (name : Ident) (typeKind kind : SymbolKind)
    (position : Nat → SymbolValue) (decl : Nat) (variants : List Ident) : Definitions :=
  match d.define name typeKind .none decl none with
  | (some parent, d) => defineVariants kind position decl parent 0 variants d
  | (none, d) => d

/-! Reports are only added. -/

theorem reports_define (d : Definitions) (name : Ident) (kind : SymbolKind) (value : SymbolValue)
    (decl : Nat) (parent : Option SymbolId) :
    d.reports <+: (d.define name kind value decl parent).2.reports := by
  unfold define
  split
  · exact List.prefix_rfl
  · split
    · exact List.prefix_append _ _
    · exact List.prefix_rfl

theorem reports_defineVariants {kind : SymbolKind} {position : Nat → SymbolValue} {decl : Nat}
    {parent : SymbolId} (names : List Ident) (n : Nat) (d : Definitions) :
    d.reports <+: (defineVariants kind position decl parent n names d).reports := by
  induction names generalizing n d with
  | nil => exact List.prefix_rfl
  | cons name rest ih => exact (reports_define d _ _ _ _ _).trans (ih _ _)

private theorem reports_defineType (d : Definitions) (name : Ident) (typeKind kind : SymbolKind)
    (position : Nat → SymbolValue) (decl : Nat) (variants : List Ident) :
    d.reports <+: (d.defineType name typeKind kind position decl variants).reports := by
  have defined := reports_define d name typeKind .none decl none
  unfold defineType
  generalize d.define name typeKind .none decl none = result at defined
  obtain ⟨parent | parent, d'⟩ := result
  · exact defined
  · exact defined.trans (reports_defineVariants _ _ _)

theorem reports_declare (decl : Decl) (index : Nat) (d : Definitions) :
    d.reports <+: (d.declare index decl).reports := by
  cases decl with
  | value v => exact reports_define d _ _ _ _ _
  | enum e => exact reports_defineType d _ _ _ _ _ _
  | union u => exact reports_defineType d _ _ _ _ _ _
  | function f => exact List.prefix_rfl
  | register r => exact reports_define d _ _ _ _ _

theorem reports_declareAll (decls : List Decl) (index : Nat) (d : Definitions) :
    d.reports <+: (declareAll index decls d).reports := by
  induction decls generalizing index d with
  | nil => exact List.prefix_rfl
  | cons decl rest ih => exact (reports_declare decl index d).trans (ih _ _)

/-- The entries of variants whose positions start at `n`. -/
def variantInfos (kind : SymbolKind) (position : Nat → SymbolValue) (decl : Nat)
    (parent : SymbolId) (n : Nat) (names : List Ident) : List SymbolInfo :=
  (names.zipIdx n).map fun (v, i) => ⟨v.name, kind, none, position i, decl, some parent⟩

section Variants

variable {kind : SymbolKind} {position : Nat → SymbolValue} {decl : Nat} {parent : SymbolId}

theorem defineVariants_fresh {names : List Ident} {n : Nat}
    (fresh : (infos.map (·.name) ++ names.map (·.name)).Nodup) :
    defineVariants kind position decl parent n names ⟨ofList infos, reports⟩ =
      ⟨ofList (infos ++ variantInfos kind position decl parent n names), reports⟩ := by
  induction names generalizing infos n with
  | nil => simp [defineVariants, variantInfos]
  | cons name rest ih =>
      have unused : name.name ∉ infos.map (·.name) := by
        intro member
        exact (List.nodup_append.mp fresh).2.2 _ member _ List.mem_cons_self rfl
      rw [defineVariants, define_fresh unused, ih]
      · simp [variantInfos]
      · simpa using fresh

theorem fresh_of_defineVariants {names : List Ident} {n : Nat}
    (distinct : (infos.map (·.name)).Nodup)
    (clean : (defineVariants kind position decl parent n names ⟨ofList infos, reports⟩).reports =
      []) : reports = [] ∧ (infos.map (·.name) ++ names.map (·.name)).Nodup := by
  induction names generalizing infos n reports with
  | nil => exact ⟨clean, by simpa using distinct⟩
  | cons name rest ih =>
      rw [defineVariants] at clean
      by_cases taken : name.name ∈ infos.map (·.name)
      · obtain ⟨report, same⟩ := define_taken reports kind (position n) decl (some parent) taken
        rw [same] at clean
        have impossible := (ih distinct clean).1
        simp at impossible
      · rw [define_fresh taken] at clean
        obtain ⟨none, fresh⟩ := ih (nodup_concat _ distinct taken) clean
        exact ⟨none, by simpa using fresh⟩

end Variants

private theorem declare_enum (d : Definitions) (index : Nat) (e : EnumDecl) :
    d.declare index (.enum e) =
      d.defineType e.name .enum .enumVariant .ordinal index e.variants := rfl

private theorem declare_union (d : Definitions) (index : Nat) (u : UnionDecl) :
    d.declare index (.union u) =
      d.defineType u.name .union .unionVariant .tag index (u.variants.map (·.name)) := rfl

private theorem names_variants (u : UnionDecl) :
    (u.variants.map (·.name)).map (·.name) = u.variants.map (·.name.name) := List.map_map

private theorem defineType_fresh {name : Ident} {typeKind kind : SymbolKind}
    {position : Nat → SymbolValue} {decl : Nat} {variants : List Ident}
    (fresh : (infos.map (·.name) ++ name.name :: variants.map (·.name)).Nodup) :
    defineType ⟨ofList infos, reports⟩ name typeKind kind position decl variants =
      ⟨ofList (infos ++ ⟨name.name, typeKind, none, .none, decl, none⟩ ::
        variantInfos kind position decl ⟨infos.length⟩ 0 variants), reports⟩ := by
  have unused : name.name ∉ infos.map (·.name) := by
    intro member
    exact (List.nodup_append.mp fresh).2.2 _ member _ List.mem_cons_self rfl
  unfold defineType
  rw [define_fresh unused]
  dsimp only
  rw [defineVariants_fresh (by simpa using fresh)]
  simp

private theorem fresh_of_defineType {name : Ident} {typeKind kind : SymbolKind}
    {position : Nat → SymbolValue} {decl : Nat} {variants : List Ident}
    (distinct : (infos.map (·.name)).Nodup)
    (clean : (defineType ⟨ofList infos, reports⟩ name typeKind kind position decl
      variants).reports = []) :
    reports = [] ∧ (infos.map (·.name) ++ name.name :: variants.map (·.name)).Nodup := by
  unfold defineType at clean
  by_cases taken : name.name ∈ infos.map (·.name)
  · obtain ⟨report, same⟩ := define_taken reports typeKind .none decl none taken
    rw [same] at clean
    simp at clean
  · rw [define_fresh taken] at clean
    obtain ⟨none, fresh⟩ := fresh_of_defineVariants (nodup_concat _ distinct taken) clean
    exact ⟨none, by simpa using fresh⟩

private theorem fresh_of_define {name : Ident} {kind : SymbolKind} {value : SymbolValue}
    {decl : Nat} (distinct : (infos.map (·.name)).Nodup)
    (clean : (define ⟨ofList infos, reports⟩ name kind value decl none).2.reports = []) :
    reports = [] ∧ (infos.map (·.name) ++ [name.name]).Nodup := by
  by_cases taken : name.name ∈ infos.map (·.name)
  · obtain ⟨report, same⟩ := define_taken reports kind value decl none taken
    rw [same] at clean
    simp at clean
  · rw [define_fresh taken] at clean
    refine ⟨clean, ?_⟩
    have grown := nodup_concat ⟨name.name, kind, none, value, decl, none⟩ distinct taken
    simpa using grown

/-! ### Declarations -/

theorem declare_fresh {decl : Decl} {index : Nat}
    (fresh : (infos.map (·.name) ++ decl.names).Nodup) :
    declare ⟨ofList infos, reports⟩ index decl =
      ⟨ofList (infos ++ (decl.infos index infos.length).map untyped), reports⟩ := by
  cases decl with
  | value v =>
      have unused : v.name.name ∉ infos.map (·.name) := by
        intro member
        exact (List.nodup_append.mp fresh).2.2 _ member _ List.mem_cons_self rfl
      cases binding : v.binding with
      | none => simp [declare, binding, define_fresh unused, Decl.infos, untyped]
      | some symbol => simp [declare, binding, define_fresh unused, Decl.infos, untyped]
  | enum e =>
      rw [declare_enum, defineType_fresh fresh]
      simp [Decl.infos, untyped, variantInfos, Function.comp_def]
  | union u =>
      rw [Decl.names, ← names_variants] at fresh
      rw [declare_union, defineType_fresh fresh]
      simp [Decl.infos, untyped, variantInfos, List.zipIdx_map, Function.comp_def]
  | function f => simp [declare, Decl.infos]
  | register r =>
      have unused : r.name.name ∉ infos.map (·.name) := by
        intro member
        exact (List.nodup_append.mp fresh).2.2 _ member _ List.mem_cons_self rfl
      simp [declare, define_fresh unused, Decl.infos, untyped]

theorem fresh_of_declare {decl : Decl} {index : Nat} (distinct : (infos.map (·.name)).Nodup)
    (clean : (declare ⟨ofList infos, reports⟩ index decl).reports = []) :
    reports = [] ∧ (infos.map (·.name) ++ decl.names).Nodup := by
  cases decl with
  | value v => exact fresh_of_define distinct clean
  | enum e => exact fresh_of_defineType distinct clean
  | union u =>
      rw [declare_union] at clean
      rw [Decl.names, ← names_variants]
      exact fresh_of_defineType distinct clean
  | function f => exact ⟨clean, by simpa [Decl.names] using distinct⟩
  | register r => exact fresh_of_define distinct clean

theorem declareAll_fresh {decls : List Decl} {index : Nat}
    (fresh : (infos.map (·.name) ++ decls.flatMap Decl.names).Nodup) :
    declareAll index decls ⟨ofList infos, reports⟩ =
      ⟨ofList (infos ++ (infosFrom index infos.length decls).map untyped), reports⟩ := by
  induction decls generalizing index infos with
  | nil => simp [declareAll, infosFrom]
  | cons decl rest ih =>
      rw [List.flatMap_cons, ← List.append_assoc] at fresh
      rw [declareAll, declare_fresh (List.nodup_append.mp fresh).1, ih]
      · simp [infosFrom]
      · rw [List.map_append, names_untyped, decl.names_infos]
        exact fresh

theorem fresh_of_declareAll {decls : List Decl} {index : Nat}
    (distinct : (infos.map (·.name)).Nodup)
    (clean : (declareAll index decls ⟨ofList infos, reports⟩).reports = []) :
    reports = [] ∧ (infos.map (·.name) ++ decls.flatMap Decl.names).Nodup := by
  induction decls generalizing index infos reports with
  | nil => exact ⟨clean, by simpa using distinct⟩
  | cons decl rest ih =>
      rw [declareAll] at clean
      have first : (declare ⟨ofList infos, reports⟩ index decl).reports = [] :=
        List.prefix_nil.mp (clean ▸ reports_declareAll rest (index + 1) _)
      obtain ⟨_, fresh⟩ := fresh_of_declare distinct first
      rw [declare_fresh fresh] at clean
      obtain ⟨none, others⟩ := ih (by
        rw [List.map_append, names_untyped, decl.names_infos]
        exact fresh) clean
      refine ⟨none, ?_⟩
      rw [List.map_append, names_untyped, decl.names_infos, List.append_assoc] at others
      exact others

/-- No name is reported exactly if all names are distinct. -/
theorem declareAll_clean_iff (m : Module) :
    (declareAll 0 m.decls ⟨.empty, []⟩).reports = [] ↔ m.names.Nodup := by
  constructor
  · intro clean
    exact (@fresh_of_declareAll [] [] m.decls 0 List.nodup_nil clean).2
  · intro distinct
    have done := @declareAll_fresh [] [] m.decls 0 distinct
    exact congrArg Definitions.reports done

/-- The table of distinct names, before the types are recorded. -/
theorem declareAll_table {m : Module} (distinct : m.names.Nodup) :
    (declareAll 0 m.decls ⟨.empty, []⟩).table = ofList ((infosFrom 0 0 m.decls).map untyped) := by
  have done := @declareAll_fresh [] [] m.decls 0 distinct
  exact congrArg Definitions.table done

end Definitions

end Tree

end JumpIR
