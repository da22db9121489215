import JumpIR.Proofs.Symbol.References

/-!
# Entries of a linked module

Where each entry of a table comes from, and what recording types makes of the table.
-/

set_option autoImplicit false

namespace JumpIR.Tree

open SymbolTable

/-! ### Entries and declarations -/

/-- The entries of a declaration stand together, behind those of the declarations before it. -/
theorem infosFrom_split {decls : List Decl} {decl : Decl} {k : Nat} (index first : Nat)
    (here : decls[k]? = some decl) :
    ∃ before after, infosFrom index first decls =
      before ++ decl.infos (index + k) (first + before.length) ++ after := by
  induction decls generalizing index first k with
  | nil => cases here
  | cons head rest ih =>
      cases k with
      | zero =>
          cases here
          exact ⟨[], infosFrom (index + 1) (first + (decl.infos index first).length) rest, rfl⟩
      | succ k =>
          obtain ⟨before, after, split⟩ :=
            ih (index + 1) (first + (head.infos index first).length) here
          refine ⟨head.infos index first ++ before, after, ?_⟩
          rw [infosFrom, split, List.length_append]
          simp only [List.append_assoc, Nat.add_assoc, Nat.add_comm 1 k]

theorem exists_decl_of_mem {decls : List Decl} {info : SymbolInfo} {index first : Nat}
    (member : info ∈ infosFrom index first decls) :
    ∃ (k : Nat) (decl : Decl) (before after : List SymbolInfo), decls[k]? = some decl ∧
      infosFrom index first decls =
        before ++ decl.infos (index + k) (first + before.length) ++ after ∧
      info ∈ decl.infos (index + k) (first + before.length) := by
  induction decls generalizing index first with
  | nil => cases member
  | cons head rest ih =>
      rw [infosFrom, List.mem_append] at member
      rcases member with member | member
      · exact ⟨0, head, [], infosFrom (index + 1) (first + (head.infos index first).length) rest,
          rfl, rfl, member⟩
      · obtain ⟨k, decl, before, after, here, split, inside⟩ := ih member
        refine ⟨k + 1, decl, head.infos index first ++ before, after, here, ?_, ?_⟩
        · rw [infosFrom, split, List.length_append]
          simp only [List.append_assoc, Nat.add_assoc, Nat.add_comm 1 k]
        · rw [List.length_append]
          simpa only [Nat.add_assoc, Nat.add_comm 1 k] using inside

/-- The entry of a type is the first one of its declaration. -/
theorem exists_info_of_sort {m : Module} {name : String} {sort : NamedSort} :
    (∃ info ∈ infosFrom 0 0 m.decls, info.name = name ∧ info.kind = sort.symbolKind) ↔
      m.Defines name sort := by
  constructor
  · rintro ⟨info, member, rfl, kind⟩
    obtain ⟨k, decl, before, after, here, _split, inside⟩ := exists_decl_of_mem member
    have listed := List.mem_of_getElem? here
    cases decl with
    | value v =>
        cases List.mem_singleton.mp inside
        cases sort <;> cases kind
    | enum e =>
        rw [Decl.infos, List.mem_cons] at inside
        rcases inside with rfl | inside
        · cases sort with
          | enum => exact ⟨e, listed, rfl⟩
          | union => cases kind
        · obtain ⟨variant, _position, rfl⟩ := List.mem_map.mp inside
          cases sort <;> cases kind
    | union u =>
        rw [Decl.infos, List.mem_cons] at inside
        rcases inside with rfl | inside
        · cases sort with
          | enum => cases kind
          | union => exact ⟨u, listed, rfl⟩
        · obtain ⟨variant, _position, rfl⟩ := List.mem_map.mp inside
          cases sort <;> cases kind
    | function f => cases inside
    | register r =>
        cases List.mem_singleton.mp inside
        cases sort <;> cases kind
  · intro defines
    cases sort with
    | enum =>
        obtain ⟨e, member, rfl⟩ := defines
        obtain ⟨k, here⟩ := List.getElem?_of_mem member
        obtain ⟨before, after, split⟩ := infosFrom_split 0 0 here
        refine ⟨⟨e.name.name, .enum, none, .none, 0 + k, none⟩, ?_, rfl, rfl⟩
        simp [split, Decl.infos]
    | union =>
        obtain ⟨u, member, rfl⟩ := defines
        obtain ⟨k, here⟩ := List.getElem?_of_mem member
        obtain ⟨before, after, split⟩ := infosFrom_split 0 0 here
        refine ⟨⟨u.name.name, .union, none, .none, 0 + k, none⟩, ?_, rfl, rfl⟩
        simp [split, Decl.infos]

/-- The entry of a value is the one of its declaration. -/
theorem mem_infosFrom_value {decls : List Decl} {info : SymbolInfo}
    (member : info ∈ infosFrom 0 0 decls) (kind : info.kind = .value) :
    ∃ v, .value v ∈ decls ∧ info.name = v.name.name ∧ info.type = some v.type ∧
      info.value = (v.binding.map .support).getD .none := by
  obtain ⟨k, decl, before, after, here, _split, inside⟩ := exists_decl_of_mem member
  cases decl with
  | value v =>
      cases List.mem_singleton.mp inside
      exact ⟨v, List.mem_of_getElem? here, rfl, rfl, rfl⟩
  | enum e =>
      rw [Decl.infos, List.mem_cons] at inside
      rcases inside with rfl | inside
      · cases kind
      · obtain ⟨variant, _position, rfl⟩ := List.mem_map.mp inside
        cases kind
  | union u =>
      rw [Decl.infos, List.mem_cons] at inside
      rcases inside with rfl | inside
      · cases kind
      · obtain ⟨variant, _position, rfl⟩ := List.mem_map.mp inside
        cases kind
  | function f => cases inside
  | register r =>
      cases List.mem_singleton.mp inside
      cases kind

theorem exists_info_of_value {decls : List Decl} {v : ValueDecl} (member : .value v ∈ decls) :
    ∃ info ∈ infosFrom 0 0 decls, info.name = v.name.name ∧ info.kind = .value ∧
      info.type = some v.type ∧ info.value = (v.binding.map .support).getD .none := by
  obtain ⟨k, here⟩ := List.getElem?_of_mem member
  obtain ⟨before, after, split⟩ := infosFrom_split 0 0 here
  refine ⟨⟨v.name.name, .value, some v.type, (v.binding.map .support).getD .none, 0 + k, none⟩,
    ?_, rfl, rfl, rfl, rfl⟩
  simp [split, Decl.infos]

theorem exists_info_of_register {decls : List Decl} {r : RegisterDecl}
    (member : .register r ∈ decls) :
    ∃ info ∈ infosFrom 0 0 decls, info.name = r.name.name ∧ info.kind = .register := by
  obtain ⟨k, here⟩ := List.getElem?_of_mem member
  obtain ⟨before, after, split⟩ := infosFrom_split 0 0 here
  refine ⟨⟨r.name.name, .register, some r.type, .none, 0 + k, none⟩, ?_, rfl, rfl⟩
  simp [split, Decl.infos]

/-- The entry of a variant knows its position, and the entry of the type that it belongs to. -/
theorem exists_type_of_parent {decls : List Decl} {info : SymbolInfo} {parent : SymbolId}
    (member : info ∈ infosFrom 0 0 decls) (child : info.parent = some parent) :
    ∃ decl ∈ decls, ∃ holder, (infosFrom 0 0 decls)[parent.index]? = some holder ∧
      holder.name = decl.name.name ∧
      ((∃ e n v, decl = .enum e ∧ e.variants[n]? = some v ∧ info.name = v.name ∧
          info.kind = .enumVariant ∧ info.value = .ordinal n) ∨
        ∃ u n v, decl = .union u ∧ u.variants[n]? = some v ∧ info.name = v.name.name ∧
          info.kind = .unionVariant ∧ info.value = .tag n) := by
  obtain ⟨k, decl, before, after, here, split, inside⟩ := exists_decl_of_mem member
  refine ⟨decl, List.mem_of_getElem? here, ?_⟩
  cases decl with
  | value v =>
      cases List.mem_singleton.mp inside
      cases child
  | register r =>
      cases List.mem_singleton.mp inside
      cases child
  | function f => cases inside
  | enum e =>
      rw [Decl.infos, List.mem_cons] at inside
      rcases inside with rfl | inside
      · cases child
      · obtain ⟨⟨v, n⟩, position, rfl⟩ := List.mem_map.mp inside
        cases child
        refine ⟨⟨e.name.name, .enum, none, .none, 0 + k, none⟩, ?_, rfl,
          Or.inl ⟨e, n, v, rfl, List.mem_zipIdx_iff_getElem?.mp position, rfl, rfl, rfl⟩⟩
        simp [split, Decl.infos]
  | union u =>
      rw [Decl.infos, List.mem_cons] at inside
      rcases inside with rfl | inside
      · cases child
      · obtain ⟨⟨v, n⟩, position, rfl⟩ := List.mem_map.mp inside
        cases child
        refine ⟨⟨u.name.name, .union, none, .none, 0 + k, none⟩, ?_, rfl,
          Or.inr ⟨u, n, v, rfl, List.mem_zipIdx_iff_getElem?.mp position, rfl, rfl, rfl⟩⟩
        simp [split, Decl.infos]

/-! ### Recording types -/

theorem setType_ofList (before after : List SymbolInfo) (info : SymbolInfo) (type : TypeExpr) :
    (ofList (before ++ info :: after)).setType ⟨before.length⟩ type =
      ofList (before ++ { info with type := some type } :: after) := by
  unfold setType ofList
  congr 1
  apply Array.ext'
  rw [Array.toList_modify]
  induction before with
  | nil => rfl
  | cons other rest ih => exact congrArg (other :: ·) ih

theorem recordType_here (before after : List SymbolInfo) (info : SymbolInfo) (type : TypeExpr)
    (decl : Nat) (distinct : ((before ++ info :: after).map (·.name)).Nodup)
    (introduced : info.decl = decl) :
    recordType decl (ofList (before ++ info :: after)) info.name type =
      ofList (before ++ { info with type := some type } :: after) := by
  have here : (before ++ info :: after)[before.length]? = some info := by simp
  have found : (ofList (before ++ info :: after)).lookup? info.name = some ⟨before.length⟩ :=
    (lookup?_eq_some distinct).mpr ⟨info, here, rfl⟩
  unfold recordType
  rw [found]
  dsimp only
  rw [get?_ofList, here]
  dsimp only
  rw [if_pos introduced, setType_ofList]

/-- The entry of a variant of a union. -/
private def payloadInfo (index first : Nat) (item : UnionVariant × Nat) : SymbolInfo :=
  ⟨item.1.name.name, .unionVariant, some item.1.payload, .tag item.2, index, some ⟨first⟩⟩

private theorem infos_union (u : UnionDecl) (index first : Nat) :
    (Decl.union u).infos index first = ⟨u.name.name, .union, none, .none, index, none⟩ ::
      u.variants.zipIdx.map (payloadInfo index first) := rfl

private theorem recordVariants (before after : List SymbolInfo) (variants : List UnionVariant)
    (index first n : Nat) (distinct : ((before ++
      (variants.zipIdx n).map (payloadInfo index first) ++ after).map (·.name)).Nodup) :
    variants.foldl (fun table v => recordType index table v.name.name v.payload)
        (ofList (before ++ ((variants.zipIdx n).map (payloadInfo index first)).map untyped ++
          after)) =
      ofList (before ++ (variants.zipIdx n).map (payloadInfo index first) ++ after) := by
  induction variants generalizing before n with
  | nil => rfl
  | cons v rest ih =>
      have split : before ++ (((v :: rest).zipIdx n).map (payloadInfo index first)).map untyped ++
          after = before ++ untyped (payloadInfo index first (v, n)) ::
            (((rest.zipIdx (n + 1)).map (payloadInfo index first)).map untyped ++ after) := by
        simp
      have join : before ++ payloadInfo index first (v, n) ::
          (((rest.zipIdx (n + 1)).map (payloadInfo index first)).map untyped ++ after) =
          (before ++ [payloadInfo index first (v, n)]) ++
            ((rest.zipIdx (n + 1)).map (payloadInfo index first)).map untyped ++ after := by
        simp
      have recorded := recordType_here before
        (((rest.zipIdx (n + 1)).map (payloadInfo index first)).map untyped ++ after)
        (untyped (payloadInfo index first (v, n))) v.payload index
        (by simpa [Function.comp_def, untyped] using distinct) rfl
      rw [List.foldl_cons, split]
      change List.foldl _ (recordType index _ (untyped (payloadInfo index first (v, n))).name _) _
        = _
      rw [recorded]
      change List.foldl _ (ofList (before ++ payloadInfo index first (v, n) :: _)) _ = _
      rw [join, ih]
      · simp
      · simpa using distinct

theorem recordTypes_decl {decl : Decl} {index first : Nat} {before after : List SymbolInfo}
    (distinct : ((before ++ decl.infos index first ++ after).map (·.name)).Nodup) :
    decl.recordTypes (ofList (before ++ (decl.infos index first).map untyped ++ after)) index =
      ofList (before ++ decl.infos index first ++ after) := by
  cases decl with
  | value v =>
      have recorded := recordType_here before after
        ⟨v.name.name, .value, none, (v.binding.map .support).getD .none, index, none⟩ v.type index
        (by simpa [Decl.infos] using distinct) rfl
      simpa [Decl.recordTypes, Decl.infos, untyped] using recorded
  | enum e => simp [Decl.recordTypes, Decl.infos, untyped, Function.comp_def]
  | union u =>
      rw [infos_union] at distinct ⊢
      have recorded := recordVariants (before ++ [⟨u.name.name, .union, none, .none, index, none⟩])
        after u.variants index first 0 (by simpa using distinct)
      simpa [Decl.recordTypes, untyped] using recorded
  | function f => simp [Decl.recordTypes, Decl.infos]
  | register r =>
      have recorded := recordType_here before after
        ⟨r.name.name, .register, none, .none, index, none⟩ r.type index
        (by simpa [Decl.infos] using distinct) rfl
      simpa [Decl.recordTypes, Decl.infos, untyped] using recorded

theorem recordAll_infosFrom {decls : List Decl} {index first : Nat} {before : List SymbolInfo}
    (distinct : ((before ++ infosFrom index first decls).map (·.name)).Nodup) :
    recordAll index decls (ofList (before ++ (infosFrom index first decls).map untyped)) =
      ofList (before ++ infosFrom index first decls) := by
  induction decls generalizing index first before with
  | nil => rfl
  | cons decl rest ih =>
      have whole : before ++ infosFrom index first (decl :: rest) =
          before ++ decl.infos index first ++
            infosFrom (index + 1) (first + (decl.infos index first).length) rest := by
        rw [infosFrom, List.append_assoc]
      rw [whole] at distinct ⊢
      rw [infosFrom, List.map_append, ← List.append_assoc, recordAll, recordTypes_decl, ih distinct]
      rw [List.map_append, names_untyped, ← List.map_append]
      exact distinct

end JumpIR.Tree
