import JumpIR.Proofs.Symbol.Definitions

/-!
# Links of references

Linking changes nothing but the symbols of named types. It reports nothing exactly if each name
denotes what it should, and then each name holds its symbol.
-/

set_option autoImplicit false

namespace JumpIR.Tree

open SymbolTable

/-- The name stands for a type of its sort. -/
def TypeRef.Resolves (table : SymbolTable) (ref : TypeRef) : Prop :=
  ∃ id, resolveName table ref.sort ref.name = .ok id

/-- The name holds the symbol that it stands for. -/
def TypeRef.IsLinked (table : SymbolTable) (ref : TypeRef) : Prop :=
  ∃ id, ref.definition = some id ∧ resolveName table ref.sort ref.name = .ok id

/-- What linking makes of `a`, whose named types are `refs a`. -/
structure Links {α : Type} (table : SymbolTable) (refs : α → List TypeRef) (unlinked : α → α)
    (a : α) (result : α × LinkReports) : Prop where
  clean : result.2 = [] ↔ ∀ ref ∈ refs a, ref.Resolves table
  linked : result.2 = [] → ∀ ref ∈ refs result.1, ref.IsLinked table
  unchanged : unlinked result.1 = unlinked a

variable {table : SymbolTable}

theorem Links.append {α β γ : Type} {refs : α → List TypeRef} {unlinked : α → α}
    {refs' : β → List TypeRef} {unlinked' : β → β} {both : γ → List TypeRef} {unlinked'' : γ → γ}
    {a : α} {b : β} {c : γ} {result : α × LinkReports} {result' : β × LinkReports}
    (join : α → β → γ) (first : Links table refs unlinked a result)
    (second : Links table refs' unlinked' b result') (joined : join a b = c)
    (refsJoin : ∀ a b, both (join a b) = refs a ++ refs' b)
    (unlinkedJoin : unlinked result.1 = unlinked a → unlinked' result'.1 = unlinked' b →
      unlinked'' (join result.1 result'.1) = unlinked'' (join a b)) :
    Links table both unlinked'' c (join result.1 result'.1, result.2 ++ result'.2) where
  clean := by
    rw [← joined, refsJoin, List.append_eq_nil_iff, first.clean, second.clean]
    simp only [List.mem_append, or_imp, forall_and]
  linked := by
    intro none ref member
    obtain ⟨none₁, none₂⟩ := List.append_eq_nil_iff.mp none
    rw [refsJoin, List.mem_append] at member
    rcases member with member | member
    · exact first.linked none₁ ref member
    · exact second.linked none₂ ref member
  unchanged := joined ▸ unlinkedJoin first.unchanged second.unchanged

mutual

theorem TypeExpr.links (table : SymbolTable) : ∀ type : TypeExpr,
    Links table TypeExpr.refs TypeExpr.unlinked type (type.link table)
  | .base type span => by
      constructor <;> simp [TypeExpr.link, TypeExpr.refs]
  | .named sort name definition span => by
      cases found : resolveName table sort name with
      | ok id =>
          constructor <;>
            simp [TypeExpr.link, TypeExpr.refs, TypeExpr.unlinked, found, TypeRef.Resolves,
              TypeRef.IsLinked]
      | error fault =>
          constructor <;>
            simp [TypeExpr.link, TypeExpr.refs, TypeExpr.unlinked, found, TypeRef.Resolves]
  | .tuple items span => by
      have all := TypeExpr.allLinks table items
      constructor
      · simpa [TypeExpr.link, TypeExpr.refs] using all.clean
      · simpa [TypeExpr.link, TypeExpr.refs] using all.linked
      · simpa [TypeExpr.link, TypeExpr.unlinked] using all.unchanged
  | .function params result span =>
      (TypeExpr.allLinks table params).append
        (fun params result => TypeExpr.function params result span)
        (TypeExpr.links table result) rfl (fun _ _ => rfl) (by
          intro sameParams sameResult
          simp [TypeExpr.unlinked, sameParams, sameResult])

theorem TypeExpr.allLinks (table : SymbolTable) : ∀ types : List TypeExpr,
    Links table TypeExpr.allRefs TypeExpr.allUnlinked types (TypeExpr.linkAll table types)
  | [] => by
      constructor <;> simp [TypeExpr.linkAll, TypeExpr.allRefs]
  | type :: rest =>
      (TypeExpr.links table type).append List.cons (TypeExpr.allLinks table rest) rfl
        (fun _ _ => rfl) (by
          intro sameType sameRest
          simp [TypeExpr.allUnlinked, sameType, sameRest])

end

theorem linkEach_links {α : Type} {refs : α → List TypeRef} {unlinked : α → α}
    {link : α → α × LinkReports} (each : ∀ a, Links table refs unlinked a (link a))
    (list : List α) :
    Links table (·.flatMap refs) (·.map unlinked) list (linkEach link list) := by
  induction list with
  | nil => constructor <;> simp [linkEach]
  | cons a rest ih =>
      refine (each a).append List.cons ih rfl (fun _ _ => List.flatMap_cons) ?_
      intro first others
      simp [first, others]

/-! ### Parts of a module -/

theorem UnionVariant.links (table : SymbolTable) (v : UnionVariant) :
    Links table (·.payload.refs) UnionVariant.unlinked v (v.link table) := by
  have payload := v.payload.links table
  constructor
  · exact payload.clean
  · exact payload.linked
  · simp [UnionVariant.link, UnionVariant.unlinked, payload.unchanged]

theorem Stmt.links (table : SymbolTable) (s : Stmt) :
    Links table Stmt.refs Stmt.unlinked s (s.link table) := by
  obtain ⟨kind, span⟩ := s
  cases kind with
  | declare name type init =>
      have declared := type.links table
      constructor
      · exact declared.clean
      · exact declared.linked
      · simp [Stmt.link, Stmt.unlinked, declared.unchanged]
  | _ => constructor <;> simp [Stmt.link, Stmt.refs]

theorem Decl.links (table : SymbolTable) (decl : Decl) :
    Links table Decl.refs Decl.unlinked decl (decl.link table) := by
  cases decl with
  | value v =>
      have type := v.type.links table
      constructor
      · exact type.clean
      · exact type.linked
      · simp [Decl.link, Decl.unlinked, type.unchanged]
  | enum e => constructor <;> simp [Decl.link, Decl.refs]
  | union u =>
      have variants := linkEach_links (UnionVariant.links table) u.variants
      constructor
      · exact variants.clean
      · exact variants.linked
      · have unchanged := variants.unchanged
        simp [Decl.link, Decl.unlinked, unchanged]
  | function f =>
      have body := linkEach_links (Stmt.links table) f.body
      constructor
      · exact body.clean
      · exact body.linked
      · have unchanged := body.unchanged
        simp [Decl.link, Decl.unlinked, unchanged]
  | register r =>
      have type := r.type.links table
      constructor
      · exact type.clean
      · exact type.linked
      · simp [Decl.link, Decl.unlinked, type.unchanged]

theorem decls_links (table : SymbolTable) (decls : List Decl) :
    Links table (·.flatMap Decl.refs) (·.map Decl.unlinked) decls
      (linkEach (Decl.link table) decls) :=
  linkEach_links (Decl.links table) decls

/-! ### What a name stands for -/

/-- In a table of distinct names, a name of a type stands for the entry of its sort. -/
theorem resolveName_ok {infos : List SymbolInfo} (distinct : (infos.map (·.name)).Nodup)
    {sort : NamedSort} {name : Ident} {id : SymbolId} :
    resolveName (ofList infos) sort name = .ok id ↔ ∃ info, infos[id.index]? = some info ∧
      info.name = name.name ∧ info.kind = sort.symbolKind := by
  unfold resolveName
  cases found : (ofList infos).lookup? name.name with
  | none =>
      constructor
      · intro impossible
        cases impossible
      · rintro ⟨info, here, named, _kind⟩
        have absent := (lookup?_eq_none.mp found)
        exact absurd (List.mem_map.mpr ⟨info, List.mem_of_getElem? here, named⟩) absent
  | some other =>
      obtain ⟨info, here, named⟩ := (lookup?_eq_some distinct).mp found
      dsimp only
      rw [get?_ofList, here]
      dsimp only
      constructor
      · intro resolved
        split at resolved
        · rename_i kind
          cases resolved
          exact ⟨info, here, named, kind⟩
        · cases resolved
      · rintro ⟨info', here', named', kind⟩
        have same := (lookup?_eq_some distinct).mpr ⟨info', here', named'⟩
        cases found.symm.trans same
        cases here.symm.trans here'
        rw [if_pos kind]

end JumpIR.Tree
