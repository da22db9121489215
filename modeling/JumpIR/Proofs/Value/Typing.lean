import JumpIR.Proofs.Outcome
import JumpIR.Proofs.Program.Closed
import JumpIR.Value.Basic

/-!
# Values of a type

Which values a type of a program has, and the unions that a value is built of. Unions may be
recursive, and a value is finite. So a value that holds one of a union holds an innermost one, whose
payload leads to that union no more.
-/

set_option autoImplicit false

namespace JumpIR

/-! ### Types as trees -/

namespace Ty

/-- The type is neither a tuple nor a union. -/
def isScalar : Ty → Bool
  | .tuple _ | .union _ => false
  | .unit | .bool | .int | .bit | .bits _ | .string | .enum _ => true

mutual

/-- Induction on the tuples that a type is made of. -/
@[elab_as_elim]
theorem treeInduction {motive : Ty → Prop} (scalar : ∀ t, t.isScalar = true → motive t)
    (tuple : ∀ items, (∀ t ∈ items, motive t) → motive (.tuple items))
    (union : ∀ id, motive (.union id)) : ∀ t : Ty, motive t
  | .tuple items => tuple items (treeInductionAll scalar tuple union items)
  | .union id => union id
  | .unit => scalar .unit rfl
  | .bool => scalar .bool rfl
  | .int => scalar .int rfl
  | .bit => scalar .bit rfl
  | .bits width => scalar (.bits width) rfl
  | .string => scalar .string rfl
  | .enum id => scalar (.enum id) rfl

private theorem treeInductionAll {motive : Ty → Prop}
    (scalar : ∀ t, t.isScalar = true → motive t)
    (tuple : ∀ items, (∀ t ∈ items, motive t) → motive (.tuple items))
    (union : ∀ id, motive (.union id)) : ∀ items : List Ty, ∀ t ∈ items, motive t
  | [], _, member => nomatch member
  | first :: rest, t, member => by
      rcases List.mem_cons.mp member with here | later
      · exact here ▸ treeInduction scalar tuple union first
      · exact treeInductionAll scalar tuple union rest t later

end

end Ty

/-! ### Typed values -/

namespace Value

/-- The value is one of the type. An enum without variants still has the ordinal 0. -/
inductive HasType (p : Program) : Value → Ty → Prop where
  | unit : HasType p .unit .unit
  | bool {value} : HasType p (.bool value) .bool
  | int {value} : HasType p (.int value) .int
  | bit {value} (fits : value &&& widthMask 1 = value) : HasType p (.bits 1 value) .bit
  | bits {width value} (fits : value &&& widthMask width = value) :
      HasType p (.bits width value) (.bits width)
  | string {value} : HasType p (.string value) .string
  | enum {id ordinal} (known : ordinal = 0 ∨ p.HasOrdinal id ordinal) :
      HasType p (.enum id ordinal) (.enum id)
  | tuple {items types} (length : items.length = types.length)
      (each : ∀ (index : Nat) (v : Value) (t : Ty), items[index]? = some v →
        types[index]? = some t → HasType p v t) : HasType p (.tuple items) (.tuple types)
  | union {id u tag variant payload} (found : p.union? id = some u)
      (chosen : u.variants[tag]? = some variant) (inner : HasType p payload variant.payload) :
      HasType p (.union id tag payload) (.union id)

variable {p : Program}

theorem HasType.nil : HasType p (.tuple []) (.tuple []) :=
  .tuple rfl fun _ _ _ here => by simp at here

theorem HasType.cons {v : Value} {t : Ty} {items : List Value} {types : List Ty}
    (rest : HasType p (.tuple items) (.tuple types)) (first : v.HasType p t) :
    HasType p (.tuple (v :: items)) (.tuple (t :: types)) := by
  cases rest with
  | tuple length each =>
      refine .tuple (congrArg Nat.succ length) ?_
      intro index w s here there
      cases index with
      | zero =>
          cases here
          cases there
          exact first
      | succ index => exact each index w s here there

theorem hasType_tuple {items : List Value} {types : List Ty}
    (related : List.Forall₂ (fun t v => HasType p v t) types items) :
    HasType p (.tuple items) (.tuple types) := by
  induction related with
  | nil => exact .nil
  | cons first _others ih => exact ih.cons first

/-- Tuples of values and types have their items at the same positions. -/
theorem HasType.exists_item {items : List Value} {types : List Ty}
    (typed : HasType p (.tuple items) (.tuple types)) {t : Ty} (member : t ∈ types) :
    ∃ v ∈ items, v.HasType p t := by
  cases typed with
  | tuple length each =>
      obtain ⟨index, there⟩ := List.getElem?_of_mem member
      have bound := (List.getElem?_eq_some_iff.mp there).1
      have here : items[index]? = some items[index] := List.getElem?_eq_getElem (length ▸ bound)
      exact ⟨items[index], List.mem_of_getElem? here, each index _ t here there⟩

/-! ### Unions in a value -/

mutual

/-- The unions that a value holds values of, at any depth. -/
def unions : Value → List UnionId
  | .union id _ payload => id :: unions payload
  | .tuple items => allUnions items
  | .unit | .bool _ | .int _ | .bits _ _ | .string _ | .enum _ _ => []

def allUnions : List Value → List UnionId
  | [] => []
  | v :: rest => unions v ++ allUnions rest

end

theorem mem_allUnions {id : UnionId} {items : List Value} :
    id ∈ allUnions items ↔ ∃ v ∈ items, id ∈ v.unions := by
  induction items with
  | nil => simp [allUnions]
  | cons v rest ih => simp [allUnions, ih]

/-- The value holds no value of the unions. -/
def Avoids (v : Value) (visiting : List UnionId) : Prop := ∀ id ∈ v.unions, id ∉ visiting

@[simp] theorem avoids_nil (v : Value) : v.Avoids [] := fun _ _ => List.not_mem_nil

@[simp] theorem avoids_cons {v : Value} {id : UnionId} {visiting : List UnionId} :
    v.Avoids (id :: visiting) ↔ id ∉ v.unions ∧ v.Avoids visiting := by
  constructor
  · intro avoids
    refine ⟨fun inside => avoids id inside List.mem_cons_self, ?_⟩
    intro other inside member
    exact avoids other inside (List.mem_cons_of_mem id member)
  · rintro ⟨outside, avoids⟩ other inside member
    rcases List.mem_cons.mp member with rfl | member
    · exact outside inside
    · exact avoids other inside member

@[simp] theorem avoids_union {id : UnionId} {tag : Nat} {payload : Value}
    {visiting : List UnionId} :
    (Value.union id tag payload).Avoids visiting ↔ id ∉ visiting ∧ payload.Avoids visiting := by
  simp [Avoids, unions]

@[simp] theorem avoids_tuple {items : List Value} {visiting : List UnionId} :
    (Value.tuple items).Avoids visiting ↔ ∀ v ∈ items, v.Avoids visiting := by
  simp only [Avoids, unions, mem_allUnions]
  constructor
  · intro avoids v member id inside
    exact avoids id ⟨v, member, inside⟩
  · rintro avoids id ⟨v, member, inside⟩
    exact avoids v member id inside

theorem Avoids.of_subset {v w : Value} {visiting : List UnionId} (avoids : v.Avoids visiting)
    (inside : w.unions ⊆ v.unions) : w.Avoids visiting :=
  fun id member => avoids id (inside member)

/-- A value that holds one of a union holds a payload of that union which does not. -/
theorem HasType.exists_innermost {v : Value} {t : Ty} (typed : v.HasType p t) {id : UnionId}
    (inside : id ∈ v.unions) :
    ∃ (u : UnionDef) (tag : Nat) (variant : VariantDef) (payload : Value),
      p.union? id = some u ∧ u.variants[tag]? = some variant ∧
      payload.HasType p variant.payload ∧ id ∉ payload.unions ∧ payload.unions ⊆ v.unions := by
  induction typed with
  | unit | bool | int | bit | bits | string | enum => cases inside
  | @tuple items types length _each ih =>
      obtain ⟨v, member, inside⟩ := mem_allUnions.mp inside
      obtain ⟨index, here⟩ := List.getElem?_of_mem member
      have bound := (List.getElem?_eq_some_iff.mp here).1
      have there : types[index]? = some types[index] := List.getElem?_eq_getElem (length ▸ bound)
      obtain ⟨u, tag, variant, payload, found, chosen, inner, outside, less⟩ :=
        ih index v _ here there inside
      refine ⟨u, tag, variant, payload, found, chosen, inner, outside, ?_⟩
      intro other member'
      exact mem_allUnions.mpr ⟨v, member, less member'⟩
  | @union id' u tag variant payload found chosen inner ih =>
      by_cases again : id ∈ payload.unions
      · obtain ⟨u', tag', variant', payload', found', chosen', inner', outside, less⟩ := ih again
        exact ⟨u', tag', variant', payload', found', chosen', inner', outside,
          List.subset_cons_of_subset id' less⟩
      · obtain rfl : id = id' := (List.mem_cons.mp inside).resolve_right again
        exact ⟨u, tag, variant, payload, found, chosen, inner, again,
          List.subset_cons_self id payload.unions⟩

/-! ### First variants -/

mutual

/-- Every enum in the value is at its first variant. -/
def AtFirst : Value → Prop
  | .enum _ ordinal => ordinal = 0
  | .union _ _ payload => AtFirst payload
  | .tuple items => AllAtFirst items
  | .unit | .bool _ | .int _ | .bits _ _ | .string _ => True

def AllAtFirst : List Value → Prop
  | [] => True
  | v :: rest => AtFirst v ∧ AllAtFirst rest

end

theorem allAtFirst_iff {items : List Value} : AllAtFirst items ↔ ∀ v ∈ items, v.AtFirst := by
  induction items with
  | nil => simp [AllAtFirst]
  | cons v rest ih => simp [AllAtFirst, ih]

end Value

/-! ### Types with values -/

/-- The type has a finite value: a tuple if all of its items have one, and a union if the payload of
some variant has one. -/
inductive Ty.HasValue (p : Program) : Ty → Prop where
  | unit : HasValue p .unit
  | bool : HasValue p .bool
  | int : HasValue p .int
  | bit : HasValue p .bit
  | bits {width} : HasValue p (.bits width)
  | string : HasValue p .string
  | enum {id} : HasValue p (.enum id)
  | tuple {items} (all : ∀ t ∈ items, HasValue p t) : HasValue p (.tuple items)
  | union {id u v} (found : p.union? id = some u) (member : v ∈ u.variants)
      (inner : HasValue p v.payload) : HasValue p (.union id)

theorem Ty.hasValue_iff {p : Program} {t : Ty} : t.HasValue p ↔ ∃ v : Value, v.HasType p t := by
  constructor
  · intro hasValue
    induction hasValue with
    | unit => exact ⟨_, .unit⟩
    | bool => exact ⟨.bool false, .bool⟩
    | int => exact ⟨.int 0, .int⟩
    | bit => exact ⟨.bits 1 0, .bit UInt64.zero_and⟩
    | @bits width => exact ⟨.bits width 0, .bits UInt64.zero_and⟩
    | string => exact ⟨.string "", .string⟩
    | enum => exact ⟨_, .enum (Or.inl rfl)⟩
    | @tuple items _all ih =>
        obtain ⟨values, related⟩ := exists_related ih
        exact ⟨_, Value.hasType_tuple related⟩
    | union found member _inner ih =>
        obtain ⟨payload, typed⟩ := ih
        obtain ⟨tag, chosen⟩ := List.getElem?_of_mem member
        exact ⟨.union _ tag payload, .union found chosen typed⟩
  · rintro ⟨v, typed⟩
    induction typed with
    | unit => exact .unit
    | bool => exact .bool
    | int => exact .int
    | bit => exact .bit
    | bits => exact .bits
    | string => exact .string
    | enum => exact .enum
    | @tuple items types length _each ih =>
        refine .tuple fun t member => ?_
        obtain ⟨index, there⟩ := List.getElem?_of_mem member
        have bound := (List.getElem?_eq_some_iff.mp there).1
        exact ih index _ t (List.getElem?_eq_getElem (length ▸ bound)) there
    | union found chosen _inner ih => exact .union found (List.mem_of_getElem? chosen) ih

end JumpIR
