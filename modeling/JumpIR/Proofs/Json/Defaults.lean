import Mathlib.Data.List.Nodup
import JumpIR.Proofs.Json.Decoding

/-!
# Fields that have defaults

An object in which no name occurs twice gives some fields of a record, in any order, and says
nothing of the others. `Tells` relates it to the value of one field; a record decoder that has a
default for each field reads the one record that its object tells. `Gives` says that an object holds
some members of an encoded record; it tells what `pick` chooses for each field.
-/

set_option autoImplicit false

namespace JumpIR.Json

variable {α : Type} {members : List (String × Json)} {name : String} {room : Nat} {a : α}

/-! ### Slots of an object -/

/-- The slot of a field in an object in which no name occurs twice. -/
def slotOf (members : List (String × Json)) (name : String) : Slot :=
  match members.lookup name with
  | some value => .given value
  | none => .absent

/-- Where no name occurs twice, at most one member has the name that is looked up. -/
theorem filter_eq_lookup (distinct : (members.map Prod.fst).Nodup) :
    members.filter (·.1 == name) = ((members.lookup name).map (name, ·)).toList := by
  induction members with
  | nil => rfl
  | cons entry rest ih =>
      rcases entry with ⟨first, value⟩
      rw [List.map_cons, List.nodup_cons] at distinct
      rw [List.filter_cons, List.lookup_cons]
      by_cases same : name = first
      · have none : rest.filter (·.1 == name) = [] := by
          refine List.filter_eq_nil_iff.mpr fun later member equal => distinct.1 ?_
          exact List.mem_map.mpr ⟨later, member, (eq_of_beq equal).trans same⟩
        rw [same] at none ⊢
        rw [beq_self_eq_true, if_pos rfl, none]
        rfl
      · rw [beq_false_of_ne same, beq_false_of_ne (Ne.symm same), if_neg Bool.false_ne_true]
        exact ih distinct.2

theorem memberSlot?_of_nodup (distinct : (members.map Prod.fst).Nodup) :
    memberSlot? members name = some (slotOf members name) := by
  unfold memberSlot? slotOf
  rw [filter_eq_lookup distinct]
  cases members.lookup name <;> rfl

theorem openRecord?_of_nodup (distinct : (members.map Prod.fst).Nodup) (names : List String) :
    openRecord? names (room + 1) (.object members) = some (room, names.map (slotOf members)) := by
  have slots : names.mapM (memberSlot? members) = some (names.map (slotOf members)) := by
    induction names with
    | nil => rfl
    | cons name names ih =>
        rw [List.mapM_cons, memberSlot?_of_nodup distinct, ih]
        rfl
  rw [openRecord?, slots]
  rfl

/-! ### What an object tells -/

/-- The value of a field is read from the member of that name, or is the default if there is none. -/
def Tells (room : Nat) (members : List (String × Json)) (name : String) (decoder : Decoder α)
    (default a : α) : Prop :=
  match members.lookup name with
  | some value => decoder room value = some a
  | none => a = default

theorem withDefault_slotOf_iff {decoder : Decoder α} {default : α} :
    withDefault default decoder room (slotOf members name) = some a ↔
      Tells room members name decoder default a := by
  unfold Tells slotOf
  cases members.lookup name with
  | some value => exact Iff.rfl
  | none => exact ⟨fun same => (Option.some.inj same).symm, fun same => congrArg some same.symm⟩

/-! ### Some members of an encoded record -/

/-- Some members of a record, in any order. -/
structure Gives (members all : List (String × Json)) : Prop where
  distinct : (members.map Prod.fst).Nodup
  subset : ∀ entry ∈ members, entry ∈ all

/-- The value of a field if there is a member of that name, and the default otherwise. -/
def pick (members : List (String × Json)) (name : String) (default a : α) : α :=
  if name ∈ members.map Prod.fst then a else default

/-- What a given member encodes is told, and otherwise the default is. -/
theorem Gives.tells {all : List (String × Json)} {decoder : Decoder α} {json : Json} {default : α}
    (gives : Gives members all) (distinct : (all.map Prod.fst).Nodup) (here : (name, json) ∈ all)
    (encodes : Encodes (room + 1) decoder json a) (shallow : json.depth ≤ room) :
    Tells room members name decoder default (pick members name default a) := by
  unfold Tells pick
  cases found : members.lookup name with
  | none =>
      have apart : name ∉ members.map Prod.fst := by
        intro named
        rcases List.mem_map.mp named with ⟨entry, member, same⟩
        have other := List.lookup_eq_none_iff.mp found entry member
        rw [same, bne_self_eq_false] at other
        cases other
      rw [if_neg apart]
  | some value =>
      have member : (name, value) ∈ members := by
        rcases List.lookup_eq_some_iff.mp found with ⟨before, behind, split, _apart⟩
        rw [split]
        exact List.mem_append_right before List.mem_cons_self
      have same : value = json :=
        congrArg Prod.snd (List.inj_on_of_nodup_map distinct (gives.subset _ member) here rfl)
      rw [if_pos (List.mem_map.mpr ⟨_, member, rfl⟩), same]
      exact encodes.reads room (Nat.lt_succ_self room)
        (isReadable_of_depth json room encodes.exactly shallow)

/-! ### Texts of objects -/

/-- From the text of an object in which no name occurs twice, whatever it gives and in whatever
order, exactly what it tells is read. If it gives some members of what encodes `a`, then that is `a`
in those fields, and the default in all others. -/
structure TakesDefaults (decoder : Decoder α) (encode : α → Json) (fits : α → Prop)
    (told : List (String × Json) → α → Prop) (only : List (String × Json) → α → α) : Prop where
  reads : ∀ text members, parse? text = some (.object members) → (members.map Prod.fst).Nodup →
    ∀ a, ofText? decoder text = some a ↔ told members a
  fills : ∀ text members, parse? text = some (.object members) → ∀ a all, fits a →
    encode a = .object all → Gives members all → ofText? decoder text = some (only members a)

theorem takesDefaults_of_told {decoder : Decoder α} {encode : α → Json} {fits : α → Prop}
    {told : List (String × Json) → α → Prop} {only : List (String × Json) → α → α}
    (decodes : ∀ members a, (members.map Prod.fst).Nodup →
      (decoder nestingLimit (.object members) = some a ↔ told members a))
    (tells : ∀ members a all, fits a → encode a = .object all → Gives members all →
      told members (only members a)) :
    TakesDefaults decoder encode fits told only := by
  have reads : ∀ text members, parse? text = some (.object members) →
      (members.map Prod.fst).Nodup → ∀ a, ofText? decoder text = some a ↔ told members a := by
    intro text members object distinct a
    unfold ofText?
    rw [object]
    exact decodes members a distinct
  refine ⟨reads, fun text members object a all fitting encoded gives => ?_⟩
  exact (reads text members object gives.distinct _).mpr (tells members a all fitting encoded gives)

end JumpIR.Json
