import JumpIR.Lowering.Globals
import JumpIR.Proofs.Program.Denotation
import JumpIR.Proofs.Symbol.Names

/-!
# Numbers of global definitions

The enums, the unions and the registers of a module are numbered by their positions, and the program
lists what they define in this order.
-/

set_option autoImplicit false

namespace JumpIR.Lowering

/-! ### Numbers by position -/

theorem lookup_assign {κ ν : Type} [BEq κ] [LawfulBEq κ] [DecidableEq κ] (key : κ) (value : ν)
    (pairs : List (κ × ν)) (other : κ) :
    (assign key value pairs).lookup other =
      if other = key then some value else pairs.lookup other := by
  unfold assign
  rw [List.lookup_cons]
  by_cases same : other = key
  · rw [if_pos same, beq_iff_eq.mpr same]
  · rw [if_neg same, beq_eq_false_iff_ne.mpr same]
    dsimp only
    induction pairs with
    | nil => rfl
    | cons pair rest ih =>
        obtain ⟨key', value'⟩ := pair
        by_cases removed : key' = key
        · subst removed
          rw [List.filter_cons_of_neg (by simp), ih, List.lookup_cons,
            beq_eq_false_iff_ne.mpr same]
        · rw [List.filter_cons_of_pos (by simpa using removed), List.lookup_cons, List.lookup_cons,
            ih]

/-- A key is given the number `id` exactly if `id` is the position of an element with that key. -/
def Positions {α κ ν : Type} [BEq κ] (key : α → Option κ) (index : ν → Nat) (list : List α)
    (pairs : List (κ × ν)) : Prop :=
  ∀ k id, pairs.lookup k = some id ↔ ∃ a, list[index id]? = some a ∧ key a = some k

theorem Positions.concat {α κ ν : Type} [BEq κ] [LawfulBEq κ] [DecidableEq κ] {key : α → Option κ}
    {index : ν → Nat} {list : List α} {pairs : List (κ × ν)} {a : α} {k : κ} {id : ν}
    (positions : Positions key index list pairs) (injective : Function.Injective index)
    (keyed : key a = some k) (fresh : ∀ b ∈ list, key b ≠ some k) (last : index id = list.length) :
    Positions key index (list ++ [a]) (assign k id pairs) := by
  intro k' id'
  rw [lookup_assign]
  by_cases same : k' = k
  · subst same
    rw [if_pos rfl]
    constructor
    · intro given
      cases given
      refine ⟨a, ?_, keyed⟩
      rw [last, List.getElem?_concat_length]
    · rintro ⟨b, here, keyed'⟩
      by_cases inside : index id' < list.length
      · rw [List.getElem?_append_left inside] at here
        exact absurd keyed' (fresh b (List.mem_of_getElem? here))
      · have bound := (List.getElem?_eq_some_iff.mp here).1
        rw [List.length_append, List.length_singleton] at bound
        rw [injective (show index id = index id' by omega)]
  · rw [if_neg same, positions k' id']
    constructor
    · rintro ⟨b, here, keyed'⟩
      refine ⟨b, ?_, keyed'⟩
      rw [List.getElem?_append_left (List.getElem?_eq_some_iff.mp here).1]
      exact here
    · rintro ⟨b, here, keyed'⟩
      refine ⟨b, ?_, keyed'⟩
      by_cases inside : index id' < list.length
      · rw [List.getElem?_append_left inside] at here
        exact here
      · have bound := (List.getElem?_eq_some_iff.mp here).1
        rw [List.length_append, List.length_singleton] at bound
        rw [show index id' = list.length by omega, List.getElem?_concat_length] at here
        cases here
        exact absurd (Option.some.inj (keyed'.symm.trans keyed)) same

/-! ### Enums and unions -/

theorem lookup?_injective {symbols : SymbolTable} {name other : String} {id : SymbolId}
    (found : symbols.lookup? name = some id) (foundToo : symbols.lookup? other = some id) :
    name = other := by
  obtain ⟨index, first, rfl⟩ := Option.map_eq_some_iff.mp found
  obtain ⟨index', first', same⟩ := Option.map_eq_some_iff.mp foundToo
  cases same
  obtain ⟨bound, named, _before⟩ := Array.findIdx?_eq_some_iff_getElem.mp first
  obtain ⟨_bound, named', _before⟩ := Array.findIdx?_eq_some_iff_getElem.mp first'
  exact (eq_of_beq named).symm.trans (eq_of_beq named')

theorem lookup?_of_symbolOf {symbols : SymbolTable} {name : Tree.Ident} {id : SymbolId}
    (found : symbolOf symbols name = .ok id) : symbols.lookup? name.name = some id := by
  unfold symbolOf at found
  split at found
  · rename_i known
    cases found
    exact known
  · cases found

/-- The names of one kind of definitions stand among all names, in their order. -/
theorem names_sublist {α : Type} (select : Tree.Decl → Option α) (name : α → String)
    (isNamed : ∀ decl a, select decl = some a → name a ∈ decl.names) (decls : List Tree.Decl) :
    ((decls.filterMap select).map name).Sublist (decls.flatMap Tree.Decl.names) := by
  induction decls with
  | nil => exact List.Sublist.refl _
  | cons decl rest ih =>
      rw [List.flatMap_cons]
      cases selected : select decl with
      | none =>
          rw [List.filterMap_cons_none selected]
          exact ih.trans (List.sublist_append_right _ _)
      | some a =>
          rw [List.filterMap_cons_some selected, List.map_cons]
          exact (List.singleton_sublist.mpr (isNamed decl a selected)).append ih

theorem nodup_enums {m : Tree.Module} (distinct : m.names.Nodup) :
    (m.enums.map (·.name.name)).Nodup := by
  refine (names_sublist Tree.Decl.enum? (·.name.name) ?_ m.decls).nodup distinct
  intro decl e selected
  cases decl <;> cases selected
  exact List.mem_cons_self

theorem nodup_unions {m : Tree.Module} (distinct : m.names.Nodup) :
    (m.unions.map (·.name.name)).Nodup := by
  refine (names_sublist Tree.Decl.union? (·.name.name) ?_ m.decls).nodup distinct
  intro decl u selected
  cases decl <;> cases selected
  exact List.mem_cons_self

theorem nodup_registers {m : Tree.Module} (distinct : m.names.Nodup) :
    (m.registers.map (·.name.name)).Nodup := by
  refine (names_sublist Tree.Decl.register? (·.name.name) ?_ m.decls).nodup distinct
  intro decl r selected
  cases decl <;> cases selected
  exact List.mem_cons_self

/-- The types of a module, before the variants of its unions are filled in. -/
structure Numbered (symbols : SymbolTable) (enums : List Tree.EnumDecl)
    (unions : List Tree.UnionDecl) (defs : TypeDefs) : Prop where
  enumDefs : defs.enums = enums.map Tree.EnumDecl.def
  unionDefs : defs.unions = unions.map fun u => ⟨u.name.name, []⟩
  enumIds : Positions (fun e => symbols.lookup? e.name.name) EnumId.index enums defs.numbers.enums
  unionIds : Positions (fun u => symbols.lookup? u.name.name) UnionId.index unions
    defs.numbers.unions

private theorem ne_of_nodup {α : Type} {name : α → String} {before after : List α} {a b : α}
    (distinct : ((before ++ [a] ++ after).map name).Nodup) (member : b ∈ before) :
    name b ≠ name a := by
  rw [List.append_assoc, List.map_append, List.nodup_append] at distinct
  exact distinct.2.2 (name b) (List.mem_map_of_mem member) (name a) List.mem_cons_self

private theorem fresh_of_nodup {α : Type} {symbols : SymbolTable} {name : α → String}
    {before after : List α} {a : α} {symbol : SymbolId}
    (distinct : ((before ++ [a] ++ after).map name).Nodup)
    (found : symbols.lookup? (name a) = some symbol) :
    ∀ b ∈ before, symbols.lookup? (name b) ≠ some symbol :=
  fun _b member foundToo => ne_of_nodup distinct member (lookup?_injective foundToo found)

theorem numberAll_numbered {symbols : SymbolTable} {decls : List Tree.Decl} {done : TypeDefs} :
    ∀ {enums : List Tree.EnumDecl} {unions : List Tree.UnionDecl} {defs : TypeDefs},
      numberAll symbols decls defs = .ok done → Numbered symbols enums unions defs →
      ((enums ++ decls.filterMap Tree.Decl.enum?).map (·.name.name)).Nodup →
      ((unions ++ decls.filterMap Tree.Decl.union?).map (·.name.name)).Nodup →
      Numbered symbols (enums ++ decls.filterMap Tree.Decl.enum?)
        (unions ++ decls.filterMap Tree.Decl.union?) done := by
  induction decls with
  | nil =>
      intro enums unions defs numbered before _enums _unions
      cases numbered
      rw [List.filterMap_nil, List.filterMap_nil, List.append_nil, List.append_nil]
      exact before
  | cons decl rest ih =>
      intro enums unions defs numbered before distinctEnums distinctUnions
      cases decl with
      | value v => exact ih numbered before distinctEnums distinctUnions
      | function f =>
          exact ih numbered ⟨before.enumDefs, before.unionDefs, before.enumIds, before.unionIds⟩
            distinctEnums distinctUnions
      | register r => exact ih numbered before distinctEnums distinctUnions
      | enum e =>
          obtain ⟨symbol, found, numbered⟩ := bind_ok numbered
          have known := lookup?_of_symbolOf found
          have split : enums ++ (Tree.Decl.enum e :: rest).filterMap Tree.Decl.enum? =
              (enums ++ [e]) ++ rest.filterMap Tree.Decl.enum? := List.append_cons _ _ _
          rw [split] at distinctEnums ⊢
          apply ih numbered
          · refine ⟨?_, before.unionDefs, ?_, before.unionIds⟩
            · rw [List.map_append, ← before.enumDefs]
              rfl
            · apply before.enumIds.concat (fun _ _ same => congrArg EnumId.mk same) known
                (fresh_of_nodup distinctEnums known)
              rw [before.enumDefs, List.length_map]
          · exact distinctEnums
          · exact distinctUnions
      | union u =>
          obtain ⟨symbol, found, numbered⟩ := bind_ok numbered
          have known := lookup?_of_symbolOf found
          have split : unions ++ (Tree.Decl.union u :: rest).filterMap Tree.Decl.union? =
              (unions ++ [u]) ++ rest.filterMap Tree.Decl.union? := List.append_cons _ _ _
          rw [split] at distinctUnions ⊢
          apply ih numbered
          · refine ⟨before.enumDefs, ?_, before.enumIds, ?_⟩
            · rw [List.map_append, ← before.unionDefs]
              rfl
            · apply before.unionIds.concat (fun _ _ same => congrArg UnionId.mk same) known
                (fresh_of_nodup distinctUnions known)
              rw [before.unionDefs, List.length_map]
          · exact distinctEnums
          · exact distinctUnions

/-! ### Variants and registers -/

/-- The union of a program that the numbers make of a union. -/
structure Fills (numbers : Numbering) (u : Tree.UnionDecl) (d : UnionDef) : Prop where
  name : d.name = u.name.name
  variants : variantDefs numbers u.variants = .ok d.variants

structure Registers (numbers : Numbering) (registers : List Tree.RegisterDecl)
    (defs : RegisterDefs) : Prop where
  ids : Positions (fun r => some r.name.name) RegisterId.index registers defs.ids
  defs : List.Forall₂ (fun (r : Tree.RegisterDecl) (d : RegisterDef) =>
    d.name = r.name.name ∧ numbers.type r.type = .ok d.type) registers defs.defs

theorem variantDefs_ok {numbers : Numbering} {variants : List Tree.UnionVariant} :
    ∀ {defs : List VariantDef}, variantDefs numbers variants = .ok defs →
      List.Forall₂ (fun (v : Tree.UnionVariant) (d : VariantDef) =>
        d.name = v.name.name ∧ numbers.type v.payload = .ok d.payload) variants defs := by
  induction variants with
  | nil =>
      intro defs made
      cases made
      exact .nil
  | cons v rest ih =>
      intro defs made
      obtain ⟨payload, typed, made⟩ := bind_ok made
      obtain ⟨others, later, made⟩ := bind_ok made
      cases made
      exact .cons ⟨rfl, typed⟩ (ih later)

theorem setVariants_eq {types : TypeDefs} {symbol : SymbolId} {variants : List VariantDef}
    {before after : List UnionDef} {u : UnionDef}
    (numbered : types.numbers.unions.lookup symbol = some ⟨before.length⟩)
    (unions : types.unions = before ++ u :: after) :
    setVariants types symbol variants =
      { types with unions := before ++ { u with variants := variants } :: after } := by
  unfold setVariants
  rw [numbered, unions]
  dsimp only
  congr 1
  clear numbered unions
  induction before with
  | nil => rfl
  | cons first rest ih => exact congrArg (first :: ·) ih

/-- The unions are filled in the order of their numbers. -/
theorem defineAll_unions {symbols : SymbolTable} {decls : List Tree.Decl} {done : TypeDefs}
    {after : RegisterDefs} :
    ∀ {unions : List Tree.UnionDecl} {filled : List UnionDef} {types : TypeDefs}
      {registers : RegisterDefs}, defineAll symbols decls types registers = .ok (done, after) →
      Positions (fun u => symbols.lookup? u.name.name) UnionId.index
        (unions ++ decls.filterMap Tree.Decl.union?) types.numbers.unions →
      types.unions = filled ++ (decls.filterMap Tree.Decl.union?).map (fun u => ⟨u.name.name, []⟩) →
      List.Forall₂ (Fills types.numbers) unions filled →
      List.Forall₂ (Fills types.numbers) (unions ++ decls.filterMap Tree.Decl.union?) done.unions ∧
        done.enums = types.enums := by
  induction decls with
  | nil =>
      intro unions filled types registers defined _ids listed fills
      cases defined
      rw [List.filterMap_nil, List.map_nil, List.append_nil] at listed
      rw [List.filterMap_nil, List.append_nil, listed]
      exact ⟨fills, rfl⟩
  | cons decl rest ih =>
      intro unions filled types registers defined ids listed fills
      cases decl with
      | value v => exact ih defined ids listed fills
      | enum e => exact ih defined ids listed fills
      | function f => exact ih defined ids listed fills
      | register r =>
          obtain ⟨type, _typed, defined⟩ := bind_ok defined
          exact ih defined ids listed fills
      | union u =>
          obtain ⟨variants, made, defined⟩ := bind_ok defined
          obtain ⟨symbol, found, defined⟩ := bind_ok defined
          have cons : (Tree.Decl.union u :: rest).filterMap Tree.Decl.union? =
              u :: rest.filterMap Tree.Decl.union? := rfl
          rw [cons] at ids listed ⊢
          have here : types.numbers.unions.lookup symbol = some ⟨filled.length⟩ := by
            rw [ids symbol ⟨filled.length⟩]
            refine ⟨u, ?_, lookup?_of_symbolOf found⟩
            rw [← fills.length_eq]
            simp
          rw [setVariants_eq here listed] at defined
          have filledToo := List.rel_append fills
            (.cons (Fills.mk (d := ⟨u.name.name, variants⟩) rfl made) .nil)
          rw [List.append_cons] at ids ⊢
          have whole := ih defined ids (List.append_cons _ _ _) filledToo
          exact whole

theorem defineAll_registers {symbols : SymbolTable} {decls : List Tree.Decl} {done : TypeDefs}
    {after : RegisterDefs} {numbers : Numbering} :
    ∀ {registers : List Tree.RegisterDecl} {types : TypeDefs} {defs : RegisterDefs},
      defineAll symbols decls types defs = .ok (done, after) → types.numbers = numbers →
      Registers numbers registers defs →
      ((registers ++ decls.filterMap Tree.Decl.register?).map (·.name.name)).Nodup →
      Registers numbers (registers ++ decls.filterMap Tree.Decl.register?) after := by
  induction decls with
  | nil =>
      intro registers types defs defined _numbers before _distinct
      cases defined
      rw [List.filterMap_nil, List.append_nil]
      exact before
  | cons decl rest ih =>
      intro registers types defs defined numbered before distinct
      cases decl with
      | value v => exact ih defined numbered before distinct
      | enum e => exact ih defined numbered before distinct
      | function f => exact ih defined numbered before distinct
      | union u =>
          obtain ⟨variants, _made, defined⟩ := bind_ok defined
          obtain ⟨symbol, _found, defined⟩ := bind_ok defined
          refine ih defined ?_ before distinct
          rw [← numbered]
          unfold setVariants
          split <;> rfl
      | register r =>
          obtain ⟨type, typed, defined⟩ := bind_ok defined
          have split : registers ++ (Tree.Decl.register r :: rest).filterMap Tree.Decl.register? =
              (registers ++ [r]) ++ rest.filterMap Tree.Decl.register? := List.append_cons _ _ _
          rw [split] at distinct ⊢
          refine ih defined numbered ⟨?_, ?_⟩ distinct
          · refine before.ids.concat (fun _ _ same => congrArg RegisterId.mk same) rfl ?_ ?_
            · intro other member same
              exact ne_of_nodup distinct member (Option.some.inj same)
            · exact before.defs.length_eq.symm
          · rw [← numbered] at before ⊢
            exact List.rel_append before.defs (.cons ⟨rfl, typed⟩ .nil)

end JumpIR.Lowering
