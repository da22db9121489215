import Mathlib.Data.List.Dedup
import JumpIR.Tree.Module
import JumpIR.Proofs.Symbol.Entries

/-!
# First definitions

The table of a module that may have faults. A name belongs to the first place that introduces it,
and every field of its entry but the type is what that place says. Types are recorded by name and
declaration alone, so the type is what the last typed place of the name in that declaration says.
Main statement: `entry_of_first`.
-/

set_option autoImplicit false

namespace JumpIR.Tree

open SymbolTable

/-! ### Places that introduce names -/

/-- The places where a declaration introduces names, behind others that have introduced the known
ones. The variants of a type whose own name is known are left out. -/
def Decl.places (decl : Decl) (index : Nat) (known : List String) : List SymbolInfo :=
  if decl.name.name ∈ known then (decl.infos index known.dedup.length).take 1
  else decl.infos index known.dedup.length

/-- The places of declarations that follow `index` other ones, which introduce the known names. -/
def placesFrom : (index : Nat) → (known : List String) → List Decl → List SymbolInfo
  | _, _, [] => []
  | index, known, decl :: rest =>
      decl.places index known ++
        placesFrom (index + 1) (known ++ (decl.places index known).map (·.name)) rest

/-- What holds of each place of a declaration of that number. -/
structure Decl.Introduces (decl : Decl) (index : Nat) (info : SymbolInfo) : Prop where
  number : info.decl = index
  root : info.parent = none → info.name = decl.name.name
  enum : info.kind = .enum ∨ info.kind = .enumVariant → ∃ e, decl = .enum e

theorem Decl.introduces {decl : Decl} {index first : Nat} {info : SymbolInfo}
    (listed : info ∈ decl.infos index first) : decl.Introduces index info := by
  cases decl with
  | value v =>
      cases List.mem_singleton.mp listed
      exact ⟨rfl, fun _ => rfl, by rintro (kind | kind) <;> cases kind⟩
  | enum e =>
      rcases List.mem_cons.mp listed with rfl | listed
      · exact ⟨rfl, fun _ => rfl, fun _ => ⟨e, rfl⟩⟩
      · obtain ⟨variant, _position, rfl⟩ := List.mem_map.mp listed
        exact ⟨rfl, nofun, fun _ => ⟨e, rfl⟩⟩
  | union u =>
      rcases List.mem_cons.mp listed with rfl | listed
      · exact ⟨rfl, fun _ => rfl, by rintro (kind | kind) <;> cases kind⟩
      · obtain ⟨variant, _position, rfl⟩ := List.mem_map.mp listed
        exact ⟨rfl, nofun, by rintro (kind | kind) <;> cases kind⟩
  | function f => cases listed
  | register r =>
      cases List.mem_singleton.mp listed
      exact ⟨rfl, fun _ => rfl, by rintro (kind | kind) <;> cases kind⟩

theorem exists_decl_of_place {decls : List Decl} {place : SymbolInfo} {index : Nat}
    {known : List String} (member : place ∈ placesFrom index known decls) :
    ∃ k decl first, decls[k]? = some decl ∧ place.decl = index + k ∧
      place ∈ decl.infos place.decl first := by
  induction decls generalizing index known with
  | nil => cases member
  | cons head rest ih =>
      rcases List.mem_append.mp member with here | later
      · have listed : place ∈ head.infos index known.dedup.length := by
          unfold Decl.places at here
          split at here
          · exact List.mem_of_mem_take here
          · exact here
        have number := (Decl.introduces listed).number
        refine ⟨0, head, known.dedup.length, rfl, number, ?_⟩
        rw [number]
        exact listed
      · obtain ⟨k, decl, first, found, number, listed⟩ := ih later
        refine ⟨k + 1, decl, first, found, ?_, listed⟩
        rw [number, Nat.add_assoc, Nat.add_comm 1 k]

/-! ### Tables of first entries -/

/-- The table has the first of the entries of each name, and the entry of a variant's type. -/
structure Firsts (infos entries : List SymbolInfo) : Prop where
  distinct : (infos.map (·.name)).Nodup
  names : ∀ name, name ∈ infos.map (·.name) ↔ name ∈ entries.map (·.name)
  first : ∀ info ∈ infos, entries.find? (·.name == info.name) = some info
  parents : ∀ info ∈ infos, ∀ parent, info.parent = some parent →
    ∃ holder, infos[parent.index]? = some holder ∧ holder.decl = info.decl ∧ holder.parent = none

namespace Firsts

variable {infos entries : List SymbolInfo} {reports : LinkReports}

theorem nil : Firsts [] [] where
  distinct := List.nodup_nil
  names _ := Iff.rfl
  first := List.forall_mem_nil _
  parents := List.forall_mem_nil _

theorem length (firsts : Firsts infos entries) :
    (entries.map (·.name)).dedup.length = infos.length := by
  have perm : (entries.map (·.name)).dedup.Perm (infos.map (·.name)) :=
    (List.perm_ext_iff_of_nodup (List.nodup_dedup _) firsts.distinct).mpr fun name => by
      rw [List.mem_dedup, firsts.names]
  rw [perm.length_eq, List.length_map]

theorem find?_append (firsts : Firsts infos entries) (more : List SymbolInfo) {info : SymbolInfo}
    (member : info ∈ infos) : (entries ++ more).find? (·.name == info.name) = some info := by
  rw [List.find?_append, firsts.first info member]
  rfl

/-- A place of a name that is there adds nothing. -/
theorem taken (firsts : Firsts infos entries) {entry : SymbolInfo}
    (there : entry.name ∈ infos.map (·.name)) : Firsts infos (entries ++ [entry]) where
  distinct := firsts.distinct
  names name := by
    rw [List.map_append, List.mem_append, ← firsts.names]
    constructor
    · exact Or.inl
    · rintro (before | here)
      · exact before
      · cases List.mem_singleton.mp here
        exact there
  first info member := firsts.find?_append _ member
  parents := firsts.parents

/-- A place of another name adds its entry. -/
theorem fresh (firsts : Firsts infos entries) (entry : SymbolInfo)
    (unused : entry.name ∉ infos.map (·.name))
    (held : ∀ parent, entry.parent = some parent → ∃ holder, infos[parent.index]? = some holder ∧
      holder.decl = entry.decl ∧ holder.parent = none) :
    Firsts (infos ++ [entry]) (entries ++ [entry]) where
  distinct := Definitions.nodup_concat entry firsts.distinct unused
  names name := by
    rw [List.map_append, List.map_append, List.mem_append, List.mem_append, firsts.names]
  first info member := by
    rcases List.mem_append.mp member with before | here
    · exact firsts.find?_append _ before
    · cases List.mem_singleton.mp here
      have absent : entries.find? (·.name == entry.name) = none := by
        rw [List.find?_eq_none]
        intro other listed same
        apply unused
        rw [firsts.names, ← beq_iff_eq.mp same]
        exact List.mem_map_of_mem listed
      rw [List.find?_append, absent]
      simp
  parents info member parent child := by
    have grow : ∀ holder, infos[parent.index]? = some holder →
        (infos ++ [entry])[parent.index]? = some holder := by
      intro holder here
      rw [List.getElem?_append_left (List.getElem?_eq_some_iff.mp here).1, here]
    rcases List.mem_append.mp member with before | here
    · obtain ⟨holder, there, same, whole⟩ := firsts.parents info before parent child
      exact ⟨holder, grow holder there, same, whole⟩
    · cases List.mem_singleton.mp here
      obtain ⟨holder, there, same, whole⟩ := held parent child
      exact ⟨holder, grow holder there, same, whole⟩

/-! Definitions keep a table of first entries. -/

section Definitions

open Definitions

/-- Defining one name adds its entry, if the name is not there. -/
theorem define (firsts : Firsts infos entries) (reports : LinkReports) (name : Ident)
    (kind : SymbolKind) (value : SymbolValue) (decl : Nat) :
    ∃ infos' reports', (Definitions.define ⟨ofList infos, reports⟩ name kind value decl none).2 =
        ⟨ofList infos', reports'⟩ ∧
      Firsts infos' (entries ++ [⟨name.name, kind, none, value, decl, none⟩]) := by
  by_cases there : name.name ∈ infos.map (·.name)
  · obtain ⟨report, defined⟩ := define_taken reports kind value decl none there
    rw [defined]
    exact ⟨infos, _, rfl, firsts.taken there⟩
  · rw [define_fresh there]
    exact ⟨_, reports, rfl, firsts.fresh _ there fun _ child => nomatch child⟩

theorem defineVariants (kind : SymbolKind) (position : Nat → SymbolValue) (decl : Nat)
    (parent : SymbolId) (names : List Ident) :
    ∀ {infos entries : List SymbolInfo} (reports : LinkReports) (n : Nat), Firsts infos entries →
    (∃ holder, infos[parent.index]? = some holder ∧ holder.decl = decl ∧ holder.parent = none) →
    ∃ infos' reports', Definitions.defineVariants kind position decl parent n names
        ⟨ofList infos, reports⟩ = ⟨ofList infos', reports'⟩ ∧
      Firsts infos' (entries ++ variantInfos kind position decl parent n names) := by
  induction names with
  | nil =>
      intro infos entries reports n firsts _held
      refine ⟨infos, reports, rfl, ?_⟩
      rw [variantInfos, List.zipIdx_nil, List.map_nil, List.append_nil]
      exact firsts
  | cons name rest ih =>
      intro infos entries reports n firsts held
      have split : entries ++ variantInfos kind position decl parent n (name :: rest) =
          (entries ++ [⟨name.name, kind, none, position n, decl, some parent⟩]) ++
            variantInfos kind position decl parent (n + 1) rest := by
        rw [List.append_assoc]
        rfl
      rw [split, Definitions.defineVariants]
      by_cases there : name.name ∈ infos.map (·.name)
      · obtain ⟨report, defined⟩ :=
          define_taken reports kind (position n) decl (some parent) there
        rw [defined]
        exact ih _ _ (firsts.taken there) held
      · rw [define_fresh there]
        obtain ⟨holder, here, same, whole⟩ := held
        refine ih _ _ (firsts.fresh _ there ?_) ⟨holder, ?_, same, whole⟩
        · intro id child
          cases child
          exact ⟨holder, here, same, whole⟩
        · rw [List.getElem?_append_left (List.getElem?_eq_some_iff.mp here).1, here]

/-- Defining a type adds its entry and those of its variants, if the name of the type is not
there. -/
theorem defineType (firsts : Firsts infos entries) (reports : LinkReports) (name : Ident)
    (typeKind kind : SymbolKind) (position : Nat → SymbolValue) (decl : Nat)
    (variants : List Ident) :
    ∃ infos' reports',
      (match Definitions.define ⟨ofList infos, reports⟩ name typeKind .none decl none with
        | (some parent, d) => Definitions.defineVariants kind position decl parent 0 variants d
        | (none, d) => d) = ⟨ofList infos', reports'⟩ ∧
      Firsts infos' (entries ++ if name.name ∈ entries.map (·.name)
        then [⟨name.name, typeKind, none, .none, decl, none⟩]
        else ⟨name.name, typeKind, none, .none, decl, none⟩ ::
          variantInfos kind position decl ⟨infos.length⟩ 0 variants) := by
  by_cases there : name.name ∈ infos.map (·.name)
  · obtain ⟨report, defined⟩ := define_taken reports typeKind .none decl none there
    rw [defined, if_pos ((firsts.names _).mp there)]
    exact ⟨infos, _, rfl, firsts.taken there⟩
  · rw [define_fresh there, if_neg fun listed => there ((firsts.names _).mpr listed)]
    have own := firsts.fresh ⟨name.name, typeKind, none, .none, decl, none⟩ there
      fun _ child => nomatch child
    obtain ⟨infos', reports', defined, firsts'⟩ := defineVariants kind position decl
      ⟨infos.length⟩ variants reports 0 own ⟨_, List.getElem?_concat_length, rfl, rfl⟩
    refine ⟨infos', reports', defined, ?_⟩
    rw [List.append_assoc] at firsts'
    exact firsts'

theorem declare (firsts : Firsts infos entries) (reports : LinkReports) (index : Nat)
    (decl : Decl) :
    ∃ infos' reports', Definitions.declare ⟨ofList infos, reports⟩ index decl =
        ⟨ofList infos', reports'⟩ ∧
      Firsts infos' (entries ++ (decl.places index (entries.map (·.name))).map untyped) := by
  unfold Decl.places
  rw [firsts.length]
  cases decl with
  | value v =>
      have value : Definitions.declare ⟨ofList infos, reports⟩ index (.value v) =
          (Definitions.define ⟨ofList infos, reports⟩ v.name .value
            ((v.binding.map .support).getD .none) index none).2 := by
        obtain ⟨name, binding, type, span⟩ := v
        cases binding <;> rfl
      have whole : ((Decl.value v).infos index infos.length).take 1 =
          (Decl.value v).infos index infos.length := rfl
      rw [value, whole, ite_self]
      exact firsts.define reports v.name .value _ index
  | enum e =>
      obtain ⟨infos', reports', defined, firsts'⟩ :=
        firsts.defineType reports e.name .enum .enumVariant .ordinal index e.variants
      refine ⟨infos', reports', defined, ?_⟩
      simpa [apply_ite, Decl.name, Decl.infos, untyped, variantInfos, Function.comp_def]
        using firsts'
  | union u =>
      obtain ⟨infos', reports', defined, firsts'⟩ := firsts.defineType reports u.name .union
        .unionVariant .tag index (u.variants.map (·.name))
      refine ⟨infos', reports', defined, ?_⟩
      simpa [apply_ite, Decl.name, Decl.infos, untyped, variantInfos, List.zipIdx_map,
        Function.comp_def] using firsts'
  | function f =>
      refine ⟨infos, reports, rfl, ?_⟩
      simpa [Decl.infos] using firsts
  | register r =>
      have whole : ((Decl.register r).infos index infos.length).take 1 =
          (Decl.register r).infos index infos.length := rfl
      rw [whole, ite_self]
      exact firsts.define reports r.name .register .none index

theorem declareAll (decls : List Decl) : ∀ {infos places : List SymbolInfo}
    (reports : LinkReports) (index : Nat), Firsts infos (places.map untyped) →
    ∃ infos' reports', Definitions.declareAll index decls ⟨ofList infos, reports⟩ =
        ⟨ofList infos', reports'⟩ ∧
      Firsts infos' ((places ++ placesFrom index (places.map (·.name)) decls).map untyped) := by
  induction decls with
  | nil =>
      intro infos places reports index firsts
      refine ⟨infos, reports, rfl, ?_⟩
      rw [placesFrom, List.append_nil]
      exact firsts
  | cons decl rest ih =>
      intro infos places reports index firsts
      obtain ⟨infos', reports', declared, firsts'⟩ := firsts.declare reports index decl
      rw [names_untyped, ← List.map_append] at firsts'
      -- The places so far are kept in full, since the numbers of later ones count their names.
      rw [Definitions.declareAll, declared, placesFrom, ← List.append_assoc, ← List.map_append]
      exact ih reports' (index + 1) firsts'

end Definitions

end Firsts

/-! ### Recorded types -/

/-- Where no value of `f` comes twice, an item has another one than the items around it. -/
theorem ne_of_nodup_middle {α : Type} {f : α → String} {before after : List α} {item : α}
    (distinct : ((before ++ item :: after).map f).Nodup) :
    ∀ other ∈ before ++ after, f other ≠ f item := by
  intro other listed same
  rw [List.map_append, List.map_cons, List.nodup_middle, List.nodup_cons, ← List.map_append,
    ← same] at distinct
  exact distinct.1 (List.mem_map_of_mem listed)

/-- The types that a declaration gives to names, in order. -/
def Decl.typings : Decl → List (String × TypeExpr)
  | .value v => [(v.name.name, v.type)]
  | .register r => [(r.name.name, r.type)]
  | .union u => u.variants.map fun v => (v.name.name, v.payload)
  | .enum _ | .function _ => []

/-- The last type that a declaration gives to a name. -/
def Decl.lastType? (decl : Decl) (name : String) : Option TypeExpr :=
  decl.typings.reverse.lookup name

/-- An entry behind typings of declaration number `index`. -/
def retype (index : Nat) (typings : List (String × TypeExpr)) (info : SymbolInfo) : SymbolInfo :=
  if info.decl = index then
    { info with type := (typings.reverse.lookup info.name).or info.type }
  else info

variable {infos : List SymbolInfo}

theorem retype_with (index : Nat) (typings : List (String × TypeExpr)) (info : SymbolInfo)
    (type : Option TypeExpr) :
    { retype index typings info with type := type } = { info with type := type } := by
  unfold retype
  split <;> rfl

theorem name_retype (index : Nat) (typings : List (String × TypeExpr)) (info : SymbolInfo) :
    (retype index typings info).name = info.name := by
  unfold retype
  split <;> rfl

theorem names_retype (index : Nat) (typings : List (String × TypeExpr))
    (infos : List SymbolInfo) :
    (infos.map (retype index typings)).map (·.name) = infos.map (·.name) := by
  rw [List.map_map]
  exact List.map_congr_left fun info _ => name_retype index typings info

theorem retype_cons (index : Nat) (first : String × TypeExpr) (rest : List (String × TypeExpr))
    (info : SymbolInfo) :
    retype index rest (retype index [first] info) = retype index (first :: rest) info := by
  by_cases here : info.decl = index
  · simp [retype, here, List.lookup_append, Option.or_assoc]
  · simp [retype, here]

/-- A type is recorded for no entry that has another name or is from another declaration. -/
theorem map_retype_eq {index : Nat} {name : String} (type : TypeExpr)
    (other : ∀ info ∈ infos, info.name = name → info.decl ≠ index) :
    infos.map (retype index [(name, type)]) = infos := by
  have each : ∀ info ∈ infos, retype index [(name, type)] info = info := by
    intro info member
    unfold retype
    split
    · rename_i here
      have apart : (info.name == name) = false :=
        beq_eq_false_iff_ne.mpr fun named => other info member named here
      rw [List.reverse_singleton, List.lookup_cons, apart]
      rfl
    · rfl
  rw [List.map_congr_left each, List.map_id']

/-- A type is recorded in the entry of its name, if that is from the same declaration. -/
theorem recordType_ofList (distinct : (infos.map (·.name)).Nodup) (index : Nat) (name : String)
    (type : TypeExpr) : recordType index (ofList infos) name type =
      ofList (infos.map (retype index [(name, type)])) := by
  by_cases there : ∃ info ∈ infos, info.name = name ∧ info.decl = index
  · obtain ⟨info, member, rfl, here⟩ := there
    obtain ⟨before, after, rfl⟩ := List.append_of_mem member
    have unused := ne_of_nodup_middle distinct
    rw [recordType_here before after info type index distinct here, List.map_append, List.map_cons,
      map_retype_eq type fun other listed same =>
        absurd same (unused other (List.mem_append_left _ listed)),
      map_retype_eq type fun other listed same =>
        absurd same (unused other (List.mem_append_right _ listed))]
    simp [retype, here]
  · have other : ∀ info ∈ infos, info.name = name → info.decl ≠ index :=
      fun info member named here => there ⟨info, member, named, here⟩
    rw [map_retype_eq type other]
    unfold recordType
    cases found : (ofList infos).lookup? name with
    | none => rfl
    | some id =>
        obtain ⟨info, here, named⟩ := (lookup?_eq_some distinct).mp found
        dsimp only
        rw [get?_ofList, here]
        exact if_neg (other info (List.mem_of_getElem? here) named)

theorem recordTypings (index : Nat) (typings : List (String × TypeExpr)) :
    ∀ {infos : List SymbolInfo}, (infos.map (·.name)).Nodup →
    typings.foldl (fun table t => recordType index table t.1 t.2) (ofList infos) =
      ofList (infos.map (retype index typings)) := by
  induction typings with
  | nil =>
      intro infos _distinct
      have each : ∀ info ∈ infos, retype index [] info = info := by
        intro info _member
        unfold retype
        split <;> rfl
      rw [List.foldl_nil, List.map_congr_left each, List.map_id']
  | cons first rest ih =>
      intro infos distinct
      rw [List.foldl_cons, recordType_ofList distinct, ih (by rw [names_retype]; exact distinct),
        List.map_map]
      exact congrArg ofList (List.map_congr_left fun info _ => retype_cons index first rest info)

theorem recordTypes_eq (decl : Decl) (table : SymbolTable) (index : Nat) :
    decl.recordTypes table index =
      decl.typings.foldl (fun table t => recordType index table t.1 t.2) table := by
  cases decl with
  | union u =>
      rw [Decl.typings, List.foldl_map]
      rfl
  | _ => rfl

/-- Behind all of the declarations, an entry has the last type that its own declaration gave it. -/
theorem recordAll_ofList (decls : List Decl) : ∀ {infos : List SymbolInfo} (index : Nat),
    (infos.map (·.name)).Nodup → ∃ type? : SymbolInfo → Option TypeExpr,
      recordAll index decls (ofList infos) =
        ofList (infos.map fun info => { info with type := type? info }) ∧
      (∀ info, info.decl < index → type? info = info.type) ∧
      ∀ info k decl, info.decl = index + k → decls[k]? = some decl →
        type? info = (decl.lastType? info.name).or info.type := by
  induction decls with
  | nil =>
      intro infos index _distinct
      refine ⟨fun info => info.type, ?_, fun _ _ => rfl, nofun⟩
      rw [recordAll, List.map_id']
  | cons head rest ih =>
      intro infos index distinct
      have kept : ((infos.map (retype index head.typings)).map (·.name)).Nodup := by
        rw [names_retype]
        exact distinct
      obtain ⟨type?, recorded, before, types⟩ := ih (index + 1) kept
      refine ⟨type? ∘ retype index head.typings, ?_, ?_, ?_⟩
      · rw [recordAll, recordTypes_eq, recordTypings index head.typings distinct, recorded,
          List.map_map]
        exact congrArg ofList (List.map_congr_left fun info _ => retype_with index _ info _)
      · intro info earlier
        have alone : retype index head.typings info = info := if_neg (Nat.ne_of_lt earlier)
        rw [Function.comp_apply, alone]
        exact before info (Nat.lt_succ_of_lt earlier)
      · intro info k decl number found
        cases k with
        | zero =>
            -- The later declarations have other numbers, so they leave this type as it is.
            cases found
            have here : retype index head.typings info =
                { info with type := (head.lastType? info.name).or info.type } := if_pos number
            have settled := before { info with type := (head.lastType? info.name).or info.type }
              (Nat.lt_succ_of_le (Nat.le_of_eq number))
            rw [Function.comp_apply, here, settled]
        | succ k =>
            have alone : retype index head.typings info = info := if_neg (by omega)
            rw [Function.comp_apply, alone]
            exact types info k decl (by omega) found

/-! ### Whole modules -/

theorem Definitions.declare_unlinked (d : Definitions) (index : Nat) (decl : Decl) :
    d.declare index decl.unlinked = d.declare index decl := by
  cases decl with
  | union u =>
      have names : (u.variants.map UnionVariant.unlinked).map (·.name) = u.variants.map (·.name) :=
        List.map_map
      unfold declare Decl.unlinked
      dsimp only
      rw [names]
  | _ => rfl

theorem Definitions.declareAll_unlinked (decls : List Decl) : ∀ (index : Nat) (d : Definitions),
    declareAll index (decls.map Decl.unlinked) d = declareAll index decls d := by
  induction decls with
  | nil => exact fun _ _ => rfl
  | cons decl rest ih =>
      intro index d
      rw [List.map_cons, declareAll, declareAll, declare_unlinked, ih]

/-- The names of a module do not depend on links, so its table is that of the linked module. -/
theorem symbols_link (m : Module) : m.link.1.symbols =
    recordAll 0 m.link.1.tree.decls
      (Definitions.declareAll 0 m.link.1.tree.decls ⟨.empty, []⟩).table := by
  have unchanged : m.link.1.tree.decls.map Decl.unlinked = m.decls.map Decl.unlinked :=
    (decls_links (Definitions.declareAll 0 m.decls ⟨.empty, []⟩).table m.decls).unchanged
  rw [← Definitions.declareAll_unlinked m.link.1.tree.decls, unchanged,
    Definitions.declareAll_unlinked]
  rfl

/-- The types of a declaration are those of its places, unless a union uses a name twice. -/
theorem Decl.lastType?_eq {decl : Decl} {index first : Nat} {place : SymbolInfo}
    (listed : place ∈ decl.infos index first)
    (distinct : ∀ u, decl = .union u → decl.names.Nodup) :
    decl.lastType? place.name = place.type := by
  cases decl with
  | value v =>
      cases List.mem_singleton.mp listed
      simp [Decl.lastType?, Decl.typings]
  | enum e =>
      rcases List.mem_cons.mp listed with rfl | listed
      · rfl
      · obtain ⟨variant, _position, rfl⟩ := List.mem_map.mp listed
        rfl
  | union u =>
      have apart : (u.name.name :: u.variants.map (·.name.name)).Nodup := distinct u rfl
      rw [List.nodup_cons] at apart
      rcases List.mem_cons.mp listed with rfl | listed
      · apply List.lookup_eq_none_iff.mpr
        intro typing member
        obtain ⟨variant, inUnion, rfl⟩ := List.mem_map.mp (List.mem_reverse.mp member)
        apply bne_iff_ne.mpr
        intro same
        exact apart.1 (List.mem_map.mpr ⟨variant, inUnion, same.symm⟩)
      · obtain ⟨⟨variant, n⟩, position, rfl⟩ := List.mem_map.mp listed
        have inUnion := List.mem_of_getElem? (List.mem_zipIdx_iff_getElem?.mp position)
        obtain ⟨before, after, split⟩ := List.append_of_mem inUnion
        have others := apart.2
        rw [split] at others
        have unused := ne_of_nodup_middle others
        apply List.lookup_eq_some_iff.mpr
        refine ⟨(after.map fun v => (v.name.name, v.payload)).reverse,
          (before.map fun v => (v.name.name, v.payload)).reverse, ?_, ?_⟩
        · rw [Decl.typings, split]
          simp
        · intro typing member
          obtain ⟨other, later, rfl⟩ := List.mem_map.mp (List.mem_reverse.mp member)
          exact bne_iff_ne.mpr (unused other (List.mem_append_right _ later)).symm
  | function f => cases listed
  | register r =>
      cases List.mem_singleton.mp listed
      simp [Decl.lastType?, Decl.typings]

/-- An entry before its type is recorded is what the first place of its name says. -/
theorem Firsts.exists_place {decls : List Decl}
    (firsts : Firsts infos ((placesFrom 0 [] decls).map untyped)) {info : SymbolInfo}
    (member : info ∈ infos) :
    ∃ place decl first, (placesFrom 0 [] decls).find? (·.name == info.name) = some place ∧
      info = untyped place ∧ decls[info.decl]? = some decl ∧
      place ∈ decl.infos info.decl first := by
  have found := firsts.first info member
  rw [List.find?_map] at found
  obtain ⟨place, first, rfl⟩ := Option.map_eq_some_iff.mp found
  obtain ⟨k, decl, number, here, same, listed⟩ :=
    exists_decl_of_place (List.mem_of_find?_eq_some first)
  rw [Nat.zero_add] at same
  refine ⟨place, decl, number, first, rfl, ?_, listed⟩
  change decls[place.decl]? = some decl
  rw [same]
  exact here

/-- The table of a module has the first entries of its names, each with the last type that its
declaration gives the name. -/
theorem exists_firsts (m : Module) : ∃ (infos : List SymbolInfo)
    (type? : SymbolInfo → Option TypeExpr),
    m.link.1.symbols = ofList (infos.map fun info => { info with type := type? info }) ∧
    Firsts infos ((placesFrom 0 [] m.link.1.tree.decls).map untyped) ∧
    ∀ place decl, m.link.1.tree.decls[place.decl]? = some decl →
      type? (untyped place) = decl.lastType? place.name := by
  have symbols := symbols_link m
  generalize m.link.1.tree.decls = decls at symbols ⊢
  obtain ⟨infos, reports, declared, firsts⟩ := @Firsts.declareAll decls [] [] [] 0 .nil
  obtain ⟨type?, recorded, _before, types⟩ := recordAll_ofList decls 0 firsts.distinct
  refine ⟨infos, type?, ?_, firsts, ?_⟩
  · rw [symbols]
    exact (congrArg (fun d : Definitions => recordAll 0 decls d.table) declared).trans recorded
  · intro place decl inModule
    exact (types (untyped place) place.decl decl (Nat.zero_add _).symm inModule).trans
      Option.or_none

/-- In a module that may have faults, every entry is that of the first place of its name, up to its
type. The type is the last one that the declaration of this place gives the name, and so the one
that the place gives unless a union uses the name of a variant, or its own, for another variant. -/
theorem entry_of_first (m : Module) {id : SymbolId} {info : SymbolInfo}
    (found : m.link.1.symbols.get? id = some info) :
    m.link.1.symbols.lookup? info.name = some id ∧
    ∃ place decl, (placesFrom 0 [] m.link.1.tree.decls).find? (·.name == info.name) = some place ∧
      m.link.1.tree.decls[info.decl]? = some decl ∧ untyped info = untyped place ∧
      (∀ parent, info.parent = some parent →
        ∃ holder, m.link.1.symbols.get? parent = some holder ∧ holder.name = decl.name.name) ∧
      info.type = decl.lastType? info.name ∧
      ((∀ u, decl = .union u → decl.names.Nodup) → info = place) ∧
      (info.kind = .enum ∨ info.kind = .enumVariant → info.type = none) := by
  obtain ⟨infos, type?, table, firsts, types⟩ := exists_firsts m
  have distinct :
      ((infos.map fun info => { info with type := type? info }).map (·.name)).Nodup := by
    rw [List.map_map]
    exact firsts.distinct
  rw [table] at found ⊢
  rw [get?_ofList] at found
  refine ⟨(lookup?_eq_some distinct).mpr ⟨info, found, rfl⟩, ?_⟩
  rw [List.getElem?_map] at found
  obtain ⟨bare, here, rfl⟩ := Option.map_eq_some_iff.mp found
  obtain ⟨place, decl, first, isFirst, rfl, inModule, listed⟩ :=
    firsts.exists_place (List.mem_of_getElem? here)
  have type := types place decl inModule
  refine ⟨place, decl, isFirst, inModule, rfl, ?_, type, ?_, ?_⟩
  · intro parent child
    obtain ⟨holder, there, sameDecl, root⟩ :=
      firsts.parents _ (List.mem_of_getElem? here) parent child
    obtain ⟨own, decl', first', _isFirst, rfl, inModule', listed'⟩ :=
      firsts.exists_place (List.mem_of_getElem? there)
    rw [sameDecl] at inModule'
    cases inModule.symm.trans inModule'
    have named : own.name = decl.name.name := (Decl.introduces listed').root root
    refine ⟨{ untyped own with type := type? (untyped own) }, ?_, named⟩
    rw [get?_ofList, List.getElem?_map, there]
    rfl
  · intro distinctNames
    rw [type, Decl.lastType?_eq listed distinctNames]
    rfl
  · intro kind
    obtain ⟨e, rfl⟩ := (Decl.introduces listed).enum kind
    exact type

/-! ### A union that types its own entry -/

/-- The text of a union with a variant of its own name. -/
def shadowText : SourceText := .ofString "shadow" "union zu \x7b zu: %bool \x7d\n"

/-- Whether the first entry of the table of a text is that of a union, and has a type. -/
def typesUnion (source : SourceText) : Bool :=
  match (Module.ofSource source).1.link.1.symbols.get? ⟨0⟩ with
  | none => false
  | some info => info.kind == .union && info.type.isSome

theorem exists_of_typesUnion {source : SourceText} (typed : typesUnion source = true) :
    ∃ info, (Module.ofSource source).1.link.1.symbols.get? ⟨0⟩ = some info ∧
      info.kind = .union ∧ info.type ≠ none := by
  unfold typesUnion at typed
  split at typed
  · cases typed
  · rename_i info found
    obtain ⟨kind, type⟩ := Bool.and_eq_true_iff.mp typed
    exact ⟨info, found, beq_iff_eq.mp kind, Option.isSome_iff_ne_none.mp type⟩

theorem typesUnion_shadowText : typesUnion shadowText = true := by
  decide +kernel

/-- A variant that is not defined, as its union has its name, can give the union a type. -/
theorem exists_entry_not_first : ¬ ∀ (m : Module) (id : SymbolId) (info : SymbolInfo),
    m.link.1.symbols.get? id = some info →
    (placesFrom 0 [] m.link.1.tree.decls).find? (·.name == info.name) = some info ∧
    (info.kind = .enum ∨ info.kind = .union ∨ info.kind = .enumVariant → info.type = none) := by
  intro first
  obtain ⟨info, found, union, typed⟩ := exists_of_typesUnion typesUnion_shadowText
  exact typed ((first (Module.ofSource shadowText).1 ⟨0⟩ info found).2 (.inr (.inl union)))

theorem entry_of_first_shadowText : ∃ (info place : SymbolInfo) (decl : Decl),
    (Module.ofSource shadowText).1.link.1.symbols.get? ⟨0⟩ = some info ∧
    (placesFrom 0 [] (Module.ofSource shadowText).1.link.1.tree.decls).find?
      (·.name == info.name) = some place ∧
    (Module.ofSource shadowText).1.link.1.tree.decls[info.decl]? = some decl ∧
    untyped info = untyped place ∧ info.kind = .union ∧ info.type = decl.lastType? info.name ∧
    info.type ≠ none := by
  obtain ⟨info, found, union, typed⟩ := exists_of_typesUnion typesUnion_shadowText
  obtain ⟨_listed, place, decl, first, inModule, same, _parents, type, _whole⟩ :=
    entry_of_first (Module.ofSource shadowText).1 found
  exact ⟨info, place, decl, found, first, inModule, same, union, type, typed⟩

end JumpIR.Tree
