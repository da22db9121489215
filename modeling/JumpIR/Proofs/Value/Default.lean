import Mathlib.Data.Finset.Card
import Mathlib.Data.Finset.Range
import Mathlib.Order.Bounds.Defs
import JumpIR.Proofs.Outcome
import JumpIR.Proofs.Value.Typing
import JumpIR.Value.Default

/-!
# Default values exist where they can

The search for a default enters a union only if it is not in one already, so it needs no more rounds
than there are unions, and nothing is lost by it: a type with a finite value has one in which no
union leads back to itself. Main statement: `defaultValue_correct`.
-/

set_option autoImplicit false

namespace JumpIR

/-! ### The search, without rounds -/

namespace Ty

mutual

/-- The search for a finite default ends with that answer while the unions in `visiting` are
entered. -/
inductive Searched (p : Program) : List UnionId → Ty → Bool → Prop where
  | scalar {visiting t} (scalar : t.isScalar = true) : Searched p visiting t true
  | tuple {visiting items answer} (all : AllSearched p visiting items answer) :
      Searched p visiting (.tuple items) answer
  | again {visiting id} (visited : id ∈ visiting) : Searched p visiting (.union id) false
  | missing {visiting id} (fresh : id ∉ visiting) (none : p.union? id = none) :
      Searched p visiting (.union id) false
  | union {visiting id u chosen} (fresh : id ∉ visiting) (found : p.union? id = some u)
      (first : FirstSearched p (id :: visiting) u.variants chosen) :
      Searched p visiting (.union id) chosen.isSome

/-- The search goes through a list of types, up to the first that has no finite default. -/
inductive AllSearched (p : Program) : List UnionId → List Ty → Bool → Prop where
  | nil {visiting} : AllSearched p visiting [] true
  | stop {visiting t rest} (first : Searched p visiting t false) :
      AllSearched p visiting (t :: rest) false
  | next {visiting t rest answer} (first : Searched p visiting t true)
      (others : AllSearched p visiting rest answer) : AllSearched p visiting (t :: rest) answer

/-- The search goes through a list of variants, up to the first that has a finite default. -/
inductive FirstSearched (p : Program) : List UnionId → List VariantDef → Option Nat → Prop where
  | nil {visiting} : FirstSearched p visiting [] none
  | stop {visiting v rest} (first : Searched p visiting v.payload true) :
      FirstSearched p visiting (v :: rest) (some 0)
  | next {visiting v rest chosen} (first : Searched p visiting v.payload false)
      (others : FirstSearched p visiting rest chosen) :
      FirstSearched p visiting (v :: rest) (chosen.map (· + 1))

end

mutual

/-- The default of the type is built with that outcome while the unions in `visiting` are under
construction. -/
inductive Built (p : Program) : List UnionId → Ty → Except RunFault Value → Prop where
  | unit {visiting} : Built p visiting .unit (.ok .unit)
  | bool {visiting} : Built p visiting .bool (.ok (.bool false))
  | int {visiting} : Built p visiting .int (.ok (.int 0))
  | bit {visiting} : Built p visiting .bit (.ok (.ofBits 1 0))
  | bits {visiting width} : Built p visiting (.bits width) (.ok (.ofBits width 0))
  | string {visiting} : Built p visiting .string (.ok (.string ""))
  | enum {visiting id} : Built p visiting (.enum id) (.ok (.enum id 0))
  | tuple {visiting items outcome} (all : AllBuilt p visiting items outcome) :
      Built p visiting (.tuple items) (outcome.map .tuple)
  | missing {visiting id} (none : p.union? id = none) :
      Built p visiting (.union id) (.error (.typeMismatch (.noUnion id.index)))
  | infinite {visiting id u} (found : p.union? id = some u)
      (first : FirstSearched p (id :: visiting) u.variants none) :
      Built p visiting (.union id) (.error (.typeMismatch (.noFiniteVariant u.name)))
  | union {visiting id u tag variant outcome} (found : p.union? id = some u)
      (first : FirstSearched p (id :: visiting) u.variants (some tag))
      (chosen : u.variants[tag]? = some variant)
      (inner : Built p (id :: visiting) variant.payload outcome) :
      Built p visiting (.union id) (outcome.map (.union id tag))

/-- Defaults of a list of types are built, up to the first fault. -/
inductive AllBuilt (p : Program) :
    List UnionId → List Ty → Except RunFault (List Value) → Prop where
  | nil {visiting} : AllBuilt p visiting [] (.ok [])
  | stop {visiting t rest fault} (first : Built p visiting t (.error fault)) :
      AllBuilt p visiting (t :: rest) (.error fault)
  | next {visiting t rest v outcome} (first : Built p visiting t (.ok v))
      (others : AllBuilt p visiting rest outcome) :
      AllBuilt p visiting (t :: rest) (outcome.map (v :: ·))

end

variable {p : Program} {visiting : List UnionId} {test : UnionId → Bool}
  {union : UnionId → Except RunFault Value}

theorem allUnions_of_isScalar {t : Ty} (scalar : t.isScalar = true) :
    t.allUnions test = true := by
  cases t with
  | tuple _ | union _ => cases scalar
  | unit | bool | int | bit | bits _ | string | enum _ => rfl

theorem allUnionsIn_iff {items : List Ty} :
    allUnionsIn test items = true ↔ ∀ t ∈ items, t.allUnions test = true := by
  induction items with
  | nil => simp [allUnionsIn]
  | cons t rest ih => simp [allUnionsIn, ih]

theorem allSearched_allUnionsIn (items : List Ty)
    (each : ∀ t ∈ items, Searched p visiting t (t.allUnions test)) :
    AllSearched p visiting items (allUnionsIn test items) := by
  induction items with
  | nil => exact .nil
  | cons t rest ih =>
      have first := each t List.mem_cons_self
      have others := ih fun s member => each s (List.mem_cons_of_mem t member)
      rw [allUnionsIn]
      cases answer : t.allUnions test with
      | false => exact .stop (answer ▸ first)
      | true => exact .next (answer ▸ first) others

theorem searched_allUnions (each : ∀ id, Searched p visiting (.union id) (test id)) (t : Ty) :
    Searched p visiting t (t.allUnions test) := by
  induction t using treeInduction with
  | scalar t scalar => exact allUnions_of_isScalar scalar ▸ .scalar scalar
  | tuple items ih => exact .tuple (allSearched_allUnionsIn items ih)
  | union id => exact each id

theorem firstSearched_findIdx? {finite : VariantDef → Bool} (variants : List VariantDef)
    (each : ∀ v, Searched p visiting v.payload (finite v)) :
    FirstSearched p visiting variants (variants.findIdx? finite) := by
  induction variants with
  | nil => exact .nil
  | cons v rest ih =>
      have first := each v
      rw [List.findIdx?_cons]
      cases answer : finite v with
      | true => exact .stop (answer ▸ first)
      | false => exact .next (answer ▸ first) ih

theorem allBuilt_defaultsWith (items : List Ty)
    (each : ∀ t ∈ items, Built p visiting t (t.defaultWith union)) :
    AllBuilt p visiting items (defaultsWith union items) := by
  induction items with
  | nil => exact .nil
  | cons t rest ih =>
      have first := each t List.mem_cons_self
      have others := ih fun s member => each s (List.mem_cons_of_mem t member)
      rw [defaultsWith]
      cases outcome : t.defaultWith union with
      | error fault => exact .stop (outcome ▸ first)
      | ok v =>
          cases more : defaultsWith union rest with
          | error fault => exact .next (outcome ▸ first) (more ▸ others)
          | ok values => exact .next (outcome ▸ first) (more ▸ others)

theorem built_defaultWith (each : ∀ id, test id = true → Built p visiting (.union id) (union id))
    (t : Ty) (passed : t.allUnions test = true) : Built p visiting t (t.defaultWith union) := by
  induction t using treeInduction with
  | scalar t scalar =>
      cases t with
      | tuple _ | union _ => cases scalar
      | unit => exact .unit
      | bool => exact .bool
      | int => exact .int
      | bit => exact .bit
      | bits _ => exact .bits
      | string => exact .string
      | enum _ => exact .enum
  | tuple items ih =>
      have all := allBuilt_defaultsWith items
        fun t member => ih t member (allUnionsIn_iff.mp passed t member)
      rw [defaultWith]
      cases outcome : defaultsWith union items with
      | error fault => exact .tuple (outcome ▸ all)
      | ok values => exact .tuple (outcome ▸ all)
  | union id => exact each id passed

/-! ### Values that a search finds -/

/-- The default of a scalar type does not depend on the unions. -/
theorem exists_scalar_default (p : Program) {t : Ty} (scalar : t.isScalar = true) :
    ∃ v : Value, (∀ union, t.defaultWith union = .ok v) ∧ v.HasType p t ∧ v.AtFirst ∧
      v.unions = [] := by
  cases t with
  | tuple _ | union _ => cases scalar
  | unit => exact ⟨_, fun _ => rfl, .unit, trivial, rfl⟩
  | bool => exact ⟨_, fun _ => rfl, .bool, trivial, rfl⟩
  | int => exact ⟨_, fun _ => rfl, .int, trivial, rfl⟩
  | bit => exact ⟨_, fun _ => rfl, .bit (by simp), trivial, rfl⟩
  | bits _ => exact ⟨_, fun _ => rfl, .bits (by simp), trivial, rfl⟩
  | string => exact ⟨_, fun _ => rfl, .string, trivial, rfl⟩
  | enum _ => exact ⟨_, fun _ => rfl, .enum (Or.inl rfl), rfl, rfl⟩

theorem exists_tuple {items : List Ty}
    (each : ∀ t ∈ items, ∃ v : Value, v.HasType p t ∧ v.Avoids visiting) :
    ∃ v : Value, v.HasType p (.tuple items) ∧ v.Avoids visiting := by
  obtain ⟨values, related⟩ := exists_related each
  refine ⟨.tuple values, Value.hasType_tuple (related.imp fun _ _ made => made.1), ?_⟩
  rw [Value.avoids_tuple]
  intro v member
  obtain ⟨_t, _member, _typed, avoids⟩ := exists_source related member
  exact avoids

/-- A type passes a test exactly if it has a value, given that its unions do so. -/
theorem allUnions_iff (each : ∀ id, test id = true ↔
      ∃ v : Value, v.HasType p (.union id) ∧ v.Avoids visiting) (t : Ty) :
    t.allUnions test = true ↔ ∃ v : Value, v.HasType p t ∧ v.Avoids visiting := by
  induction t using treeInduction with
  | scalar t scalar =>
      obtain ⟨v, _made, typed, _first, noUnions⟩ := exists_scalar_default p scalar
      have avoids : v.Avoids visiting := by simp [Value.Avoids, noUnions]
      exact ⟨fun _ => ⟨v, typed, avoids⟩, fun _ => allUnions_of_isScalar scalar⟩
  | tuple items ih =>
      rw [allUnions, allUnionsIn_iff]
      constructor
      · intro all
        exact exists_tuple fun t member => (ih t member).mp (all t member)
      · rintro ⟨v, typed, avoids⟩ t member
        cases typed with
        | tuple length each' =>
            obtain ⟨item, inside, typed⟩ := (Value.HasType.tuple length each').exists_item member
            exact (ih t member).mpr ⟨item, typed, Value.avoids_tuple.mp avoids item inside⟩
  | union id => exact each id

theorem defaultsWith_ok_iff {items : List Ty} {values : List Value} :
    defaultsWith union items = .ok values ↔
      List.Forall₂ (fun t v => t.defaultWith union = .ok v) items values := by
  induction items generalizing values with
  | nil =>
      rw [defaultsWith, List.forall₂_nil_left_iff, Except.ok.injEq]
      exact eq_comm
  | cons t rest ih =>
      rw [defaultsWith, List.forall₂_cons_left_iff]
      constructor
      · intro done
        obtain ⟨first, made, done⟩ := bind_ok done
        obtain ⟨others, madeOthers, done⟩ := bind_ok done
        cases done
        exact ⟨first, others, made, ih.mp madeOthers, rfl⟩
      · rintro ⟨first, others, made, madeOthers, rfl⟩
        rw [made, ih.mpr madeOthers]
        rfl

/-- A type that has a value has a default, given that its unions do so. -/
theorem exists_default (each : ∀ id (v : Value), v.HasType p (.union id) → v.Avoids visiting →
      ∃ w, union id = .ok w ∧ w.HasType p (.union id) ∧ w.AtFirst) (t : Ty) {v : Value}
    (typed : v.HasType p t) (avoids : v.Avoids visiting) :
    ∃ w, t.defaultWith union = .ok w ∧ w.HasType p t ∧ w.AtFirst := by
  induction t using treeInduction generalizing v with
  | scalar t scalar =>
      obtain ⟨w, made, typed, first, _noUnions⟩ := exists_scalar_default p scalar
      exact ⟨w, made union, typed, first⟩
  | tuple types ih =>
      cases typed with
      | @tuple items _ length inner =>
          have whole := Value.HasType.tuple length inner
          have made : ∀ t ∈ types, ∃ w, t.defaultWith union = .ok w ∧ w.HasType p t ∧
              w.AtFirst := by
            intro t member
            obtain ⟨item, inside, typed⟩ := whole.exists_item member
            exact ih t member typed (Value.avoids_tuple.mp avoids item inside)
          obtain ⟨values, related⟩ := exists_related made
          have done : defaultsWith union types = .ok values :=
            defaultsWith_ok_iff.mpr (related.imp fun _ _ made => made.1)
          refine ⟨.tuple values, by rw [defaultWith, done]; rfl, ?_, ?_⟩
          · exact Value.hasType_tuple (related.imp fun _ _ made => made.2.1)
          · rw [Value.AtFirst, Value.allAtFirst_iff]
            intro w member
            obtain ⟨_t, _member, _made, _typed, first⟩ := exists_source related member
            exact first
  | union id => exact each id v typed avoids

/-- A type that has a default has a value, given that its unions do so. -/
theorem exists_value (each : ∀ id v, union id = .ok v →
      ∃ w : Value, w.HasType p (.union id) ∧ w.Avoids visiting) (t : Ty) {v : Value}
    (done : t.defaultWith union = .ok v) : ∃ w : Value, w.HasType p t ∧ w.Avoids visiting := by
  induction t using treeInduction generalizing v with
  | scalar t scalar =>
      obtain ⟨w, _made, typed, _first, noUnions⟩ := exists_scalar_default p scalar
      exact ⟨w, typed, by simp [Value.Avoids, noUnions]⟩
  | tuple items ih =>
      rw [defaultWith] at done
      obtain ⟨values, done, _whole⟩ := bind_ok done
      apply exists_tuple
      intro t member
      obtain ⟨index, there⟩ := List.getElem?_of_mem member
      obtain ⟨v, _here, done⟩ := exists_source_at (defaultsWith_ok_iff.mp done) there
      exact ih t member done
  | union id => exact each id v done

end Ty

variable {p : Program} {visiting : List UnionId} {id : UnionId}

/-! ### Rounds -/

namespace Program

/-- How many unions are not visited yet. -/
def unvisited (p : Program) (visiting : List UnionId) : Nat :=
  ((Finset.range p.unions.length).filter fun index => ⟨index⟩ ∉ visiting).card

theorem unvisited_le (p : Program) (visiting : List UnionId) :
    p.unvisited visiting ≤ p.unions.length := by
  have le := Finset.card_filter_le (Finset.range p.unions.length) fun index =>
    (⟨index⟩ : UnionId) ∉ visiting
  rwa [Finset.card_range] at le

theorem unvisited_cons_lt {u : UnionDef} (found : p.union? id = some u) (fresh : id ∉ visiting) :
    p.unvisited (id :: visiting) < p.unvisited visiting := by
  have bound := (List.getElem?_eq_some_iff.mp found).1
  apply Finset.card_lt_card
  rw [Finset.ssubset_iff_of_subset]
  · exact ⟨id.index, by simpa using ⟨bound, fresh⟩, by simp⟩
  · intro index member
    simp only [Finset.mem_filter, List.mem_cons, not_or] at member ⊢
    exact ⟨member.1, member.2.2⟩

theorem not_le_zero_of_fresh {u : UnionDef} (found : p.union? id = some u)
    (fresh : id ∉ visiting) : ¬ p.unvisited visiting ≤ 0 := by
  have less := unvisited_cons_lt found fresh
  omega

theorem unionIsFinite_of_visited (rounds : Nat) (visited : id ∈ visiting) :
    p.unionIsFinite rounds visiting id = false := by
  cases rounds <;> simp [unionIsFinite, visited]

theorem unionIsFinite_of_missing (rounds : Nat) (missing : p.union? id = none) :
    p.unionIsFinite rounds visiting id = false := by
  cases rounds <;> simp [unionIsFinite, missing]

theorem unionIsFinite_succ (rounds : Nat) {u : UnionDef} (fresh : id ∉ visiting)
    (found : p.union? id = some u) : p.unionIsFinite (rounds + 1) visiting id =
      (u.variants.findIdx? fun v =>
        v.payload.allUnions (p.unionIsFinite rounds (id :: visiting))).isSome := by
  simp [unionIsFinite, fresh, found]

/-- With a round for each union that is not visited, the search ends before its rounds do. -/
theorem searched_unionIsFinite (rounds : Nat) :
    ∀ (visiting : List UnionId) (id : UnionId), p.unvisited visiting ≤ rounds →
      Ty.Searched p visiting (.union id) (p.unionIsFinite rounds visiting id) := by
  induction rounds with
  | zero =>
      intro visiting id enough
      by_cases visited : id ∈ visiting
      · exact .again visited
      · cases found : p.union? id with
        | none => exact .missing visited found
        | some u => exact absurd enough (not_le_zero_of_fresh found visited)
  | succ rounds ih =>
      intro visiting id enough
      by_cases visited : id ∈ visiting
      · rw [unionIsFinite_of_visited _ visited]
        exact .again visited
      · cases found : p.union? id with
        | none =>
            rw [unionIsFinite_of_missing _ found]
            exact .missing visited found
        | some u =>
            have less := unvisited_cons_lt found visited
            have inner : ∀ v : VariantDef, Ty.Searched p (id :: visiting) v.payload
                (v.payload.allUnions (p.unionIsFinite rounds (id :: visiting))) :=
              fun v => Ty.searched_allUnions (fun id' => ih (id :: visiting) id' (by omega)) _
            rw [unionIsFinite_succ rounds visited found]
            exact .union visited found (Ty.firstSearched_findIdx? u.variants inner)

theorem searched_isFinite (visiting : List UnionId) (t : Ty) :
    Ty.Searched p visiting t (p.isFinite visiting t) :=
  Ty.searched_allUnions
    (fun id => searched_unionIsFinite _ visiting id (p.unvisited_le visiting)) t

/-- The variant of a union that its default is made of. -/
def firstFinite (p : Program) (visiting : List UnionId) (variants : List VariantDef) :
    Option Nat :=
  variants.findIdx? fun v => p.isFinite visiting v.payload

theorem unionDefault_some (rounds : Nat) {u : UnionDef} {tag : Nat} {variant : VariantDef}
    (found : p.union? id = some u) (first : p.firstFinite (id :: visiting) u.variants = some tag)
    (chosen : u.variants[tag]? = some variant) :
    p.unionDefault (rounds + 1) visiting id =
      (variant.payload.defaultWith (p.unionDefault rounds (id :: visiting))).map
        (.union id tag) := by
  unfold firstFinite at first
  simp only [unionDefault, found, first, chosen]
  cases variant.payload.defaultWith (p.unionDefault rounds (id :: visiting)) <;> rfl

theorem unionDefault_none (rounds : Nat) {u : UnionDef} (found : p.union? id = some u)
    (first : p.firstFinite (id :: visiting) u.variants = none) :
    p.unionDefault (rounds + 1) visiting id =
      .error (.typeMismatch (.noFiniteVariant u.name)) := by
  unfold firstFinite at first
  simp only [unionDefault, found, first]

theorem exists_of_firstFinite {variants : List VariantDef} {tag : Nat}
    (first : p.firstFinite visiting variants = some tag) :
    ∃ variant, variants[tag]? = some variant ∧ p.isFinite visiting variant.payload = true := by
  obtain ⟨bound, finite, _before⟩ := List.findIdx?_eq_some_iff_getElem.mp first
  exact ⟨variants[tag], List.getElem?_eq_getElem bound, finite⟩

/-- With a round for each union that is not visited, a default is built before the rounds end. -/
theorem built_unionDefault (rounds : Nat) :
    ∀ (visiting : List UnionId) (id : UnionId), p.unvisited visiting ≤ rounds → id ∉ visiting →
      Ty.Built p visiting (.union id) (p.unionDefault rounds visiting id) := by
  induction rounds with
  | zero =>
      intro visiting id enough fresh
      cases found : p.union? id with
      | none => exact .missing found
      | some u => exact absurd enough (not_le_zero_of_fresh found fresh)
  | succ rounds ih =>
      intro visiting id enough fresh
      cases found : p.union? id with
      | none =>
          simp only [unionDefault, found]
          exact .missing found
      | some u =>
          have less := unvisited_cons_lt found fresh
          have searched : Ty.FirstSearched p (id :: visiting) u.variants
              (p.firstFinite (id :: visiting) u.variants) :=
            Ty.firstSearched_findIdx? u.variants
              fun v => p.searched_isFinite (id :: visiting) v.payload
          cases first : p.firstFinite (id :: visiting) u.variants with
          | none =>
              rw [unionDefault_none rounds found first]
              exact .infinite found (first ▸ searched)
          | some tag =>
              obtain ⟨variant, chosen, finite⟩ := exists_of_firstFinite first
              rw [unionDefault_some rounds found first chosen]
              refine .union found (first ▸ searched) chosen ?_
              refine Ty.built_defaultWith ?_ variant.payload finite
              intro other passed
              apply ih (id :: visiting) other (by omega)
              -- The chosen payload passed the search, which no visited union does.
              intro visited
              rw [unionIsFinite_of_visited _ visited] at passed
              cases passed

theorem built_defaultValue (t : Ty) : Ty.Built p [] t (p.defaultValue t) := by
  have any : t.allUnions (fun _ => true) = true := by
    induction t using Ty.treeInduction with
    | scalar t scalar => exact Ty.allUnions_of_isScalar scalar
    | tuple items ih => exact Ty.allUnionsIn_iff.mpr ih
    | union _ => rfl
  refine Ty.built_defaultWith (fun id _passed => ?_) t any
  exact built_unionDefault _ [] id (p.unvisited_le []) List.not_mem_nil

/-! ### Finite values -/

/-- Nothing is lost by keeping a union out of its own payload. -/
theorem exists_union_iff {u : UnionDef} (found : p.union? id = some u) (fresh : id ∉ visiting) :
    (∃ v : Value, v.HasType p (.union id) ∧ v.Avoids visiting) ↔
      ∃ variant ∈ u.variants, ∃ w : Value, w.HasType p variant.payload ∧
        w.Avoids (id :: visiting) := by
  constructor
  · rintro ⟨v, typed, avoids⟩
    have inside : id ∈ v.unions := by cases typed; exact List.mem_cons_self
    -- The payload of `v` may hold the union again, so the one of an innermost value is taken.
    obtain ⟨u', tag, variant, w, found', chosen, typed, outside, less⟩ :=
      typed.exists_innermost inside
    obtain rfl : u = u' := Option.some.inj (found.symm.trans found')
    refine ⟨variant, List.mem_of_getElem? chosen, w, typed, ?_⟩
    exact Value.avoids_cons.mpr ⟨outside, avoids.of_subset less⟩
  · rintro ⟨variant, member, w, typed, avoids⟩
    obtain ⟨tag, chosen⟩ := List.getElem?_of_mem member
    refine ⟨.union id tag w, .union found chosen typed, ?_⟩
    exact Value.avoids_union.mpr ⟨fresh, (Value.avoids_cons.mp avoids).2⟩

theorem unionIsFinite_iff (rounds : Nat) :
    ∀ (visiting : List UnionId) (id : UnionId), p.unvisited visiting ≤ rounds →
      (p.unionIsFinite rounds visiting id = true ↔
        ∃ v : Value, v.HasType p (.union id) ∧ v.Avoids visiting) := by
  induction rounds with
  | zero =>
      intro visiting id enough
      simp only [unionIsFinite, Bool.false_eq_true, false_iff]
      rintro ⟨v, typed, avoids⟩
      cases typed with
      | union found _chosen _inner =>
          exact not_le_zero_of_fresh found (Value.avoids_union.mp avoids).1 enough
  | succ rounds ih =>
      intro visiting id enough
      by_cases visited : id ∈ visiting
      · rw [unionIsFinite_of_visited _ visited]
        simp only [Bool.false_eq_true, false_iff]
        rintro ⟨v, typed, avoids⟩
        cases typed with
        | union _found _chosen _inner => exact (Value.avoids_union.mp avoids).1 visited
      · cases found : p.union? id with
        | none =>
            rw [unionIsFinite_of_missing _ found]
            simp only [Bool.false_eq_true, false_iff]
            rintro ⟨v, typed, avoids⟩
            cases typed with
            | union found' _chosen _inner => cases found.symm.trans found'
        | some u =>
            have less := unvisited_cons_lt found visited
            have payload := fun v : VariantDef => Ty.allUnions_iff (p := p)
              (fun id' => ih (id :: visiting) id' (by omega)) v.payload
            rw [unionIsFinite_succ rounds visited found, exists_union_iff found visited,
              List.findIdx?_isSome, List.any_eq_true]
            simp only [payload]

theorem isFinite_iff {t : Ty} :
    p.isFinite visiting t = true ↔ ∃ v : Value, v.HasType p t ∧ v.Avoids visiting :=
  Ty.allUnions_iff (fun id => unionIsFinite_iff _ visiting id (p.unvisited_le visiting)) t

/-- A union that is not under construction has a default if it has a value. -/
theorem exists_unionDefault (rounds : Nat) :
    ∀ (visiting : List UnionId) (id : UnionId) (v : Value), p.unvisited visiting ≤ rounds →
      v.HasType p (.union id) → v.Avoids visiting →
      ∃ w, p.unionDefault rounds visiting id = .ok w ∧ w.HasType p (.union id) ∧ w.AtFirst := by
  induction rounds with
  | zero =>
      intro visiting id v enough typed avoids
      cases typed with
      | union found _chosen _inner =>
          exact absurd enough (not_le_zero_of_fresh found (Value.avoids_union.mp avoids).1)
  | succ rounds ih =>
      intro visiting id v enough typed avoids
      cases typed with
      | @union _ u tag variant payload found chosen inner =>
          have fresh := (Value.avoids_union.mp avoids).1
          have less := unvisited_cons_lt found fresh
          -- The default need not take the variant of `v`: another finite one may come first.
          obtain ⟨finite, member, passed⟩ :=
            (exists_union_iff found fresh).mp ⟨_, .union found chosen inner, avoids⟩
          have some : (p.firstFinite (id :: visiting) u.variants).isSome := by
            rw [firstFinite, List.findIdx?_isSome, List.any_eq_true]
            exact ⟨finite, member, isFinite_iff.mpr passed⟩
          obtain ⟨first, isFirst⟩ := Option.isSome_iff_exists.mp some
          obtain ⟨made, here, passed⟩ := exists_of_firstFinite isFirst
          obtain ⟨w, typed, avoids⟩ := isFinite_iff.mp passed
          obtain ⟨content, done, typed, atFirst⟩ := Ty.exists_default
            (fun id' v' => ih (id :: visiting) id' v' (by omega)) made.payload typed avoids
          refine ⟨.union id first content, ?_, .union found here typed, atFirst⟩
          rw [unionDefault_some rounds found isFirst here, done]
          rfl

/-- The default of a union is made of its first variant that has a finite payload. -/
theorem firstFinite_of_unionDefault {rounds : Nat} {v : Value}
    (done : p.unionDefault rounds visiting id = .ok v) :
    ∃ u tag payload, p.union? id = some u ∧
      p.firstFinite (id :: visiting) u.variants = some tag ∧ v = .union id tag payload := by
  cases rounds with
  | zero => cases done
  | succ rounds =>
      cases found : p.union? id with
      | none => simp [unionDefault, found] at done
      | some u =>
          cases first : p.firstFinite (id :: visiting) u.variants with
          | none => cases (unionDefault_none rounds found first).symm.trans done
          | some tag =>
              obtain ⟨variant, chosen, _finite⟩ := exists_of_firstFinite first
              rw [unionDefault_some rounds found first chosen] at done
              cases inner : variant.payload.defaultWith
                  (p.unionDefault rounds (id :: visiting)) with
              | error fault =>
                  rw [inner] at done
                  cases done
              | ok payload =>
                  rw [inner] at done
                  cases done
                  exact ⟨u, tag, payload, rfl, first, rfl⟩

theorem exists_of_unionDefault {rounds : Nat} {v : Value} (fresh : id ∉ visiting)
    (done : p.unionDefault rounds visiting id = .ok v) :
    ∃ w : Value, w.HasType p (.union id) ∧ w.Avoids visiting := by
  obtain ⟨u, tag, _payload, found, first, _whole⟩ := firstFinite_of_unionDefault done
  obtain ⟨variant, chosen, finite⟩ := exists_of_firstFinite first
  rw [exists_union_iff found fresh]
  exact ⟨variant, List.mem_of_getElem? chosen, isFinite_iff.mp finite⟩

/-! ### The default of a type -/

/-- The variant has a value that holds no other one of its union. -/
def FreshTag (p : Program) (id : UnionId) (tag : Nat) : Prop :=
  ∃ (u : UnionDef) (variant : VariantDef) (w : Value), p.union? id = some u ∧
    u.variants[tag]? = some variant ∧ w.HasType p variant.payload ∧ id ∉ w.unions

theorem isLeast_firstFinite {u : UnionDef} {tag : Nat} (found : p.union? id = some u)
    (first : p.firstFinite [id] u.variants = some tag) :
    IsLeast {tag | p.FreshTag id tag} tag := by
  obtain ⟨bound, finite, before⟩ := List.findIdx?_eq_some_iff_getElem.mp first
  constructor
  · obtain ⟨w, typed, avoids⟩ := isFinite_iff.mp finite
    refine ⟨u, _, w, found, List.getElem?_eq_getElem bound, typed, ?_⟩
    exact (Value.avoids_cons.mp avoids).1
  · rintro other ⟨u', variant, w, found', chosen, typed, outside⟩
    obtain rfl : u = u' := Option.some.inj (found.symm.trans found')
    by_contra earlier
    obtain ⟨_bound, rfl⟩ := List.getElem?_eq_some_iff.mp chosen
    have infinite := before other (Nat.lt_of_not_le earlier)
    have avoids : w.Avoids [id] := Value.avoids_cons.mpr ⟨outside, Value.avoids_nil w⟩
    exact infinite (isFinite_iff.mpr ⟨w, typed, avoids⟩)

theorem exists_defaultValue_iff {t : Ty} :
    (∃ v, p.defaultValue t = .ok v) ↔ ∃ v : Value, v.HasType p t := by
  constructor
  · rintro ⟨v, done⟩
    have each : ∀ id v, p.unionDefault p.unions.length [] id = .ok v →
        ∃ w : Value, w.HasType p (.union id) ∧ w.Avoids [] :=
      fun id v done => exists_of_unionDefault List.not_mem_nil done
    obtain ⟨w, typed, _avoids⟩ := Ty.exists_value each t done
    exact ⟨w, typed⟩
  · rintro ⟨v, typed⟩
    obtain ⟨w, done, _typed, _atFirst⟩ := Ty.exists_default
      (fun id v => exists_unionDefault _ [] id v (p.unvisited_le [])) t typed v.avoids_nil
    exact ⟨w, done⟩

theorem hasType_defaultValue {t : Ty} {v : Value} (done : p.defaultValue t = .ok v) :
    v.HasType p t ∧ v.AtFirst := by
  obtain ⟨w, typed⟩ := exists_defaultValue_iff.mp ⟨v, done⟩
  obtain ⟨v', done', typed, atFirst⟩ := Ty.exists_default
    (fun id v => exists_unionDefault _ [] id v (p.unvisited_le [])) t typed w.avoids_nil
  obtain rfl : v = v' := Except.ok.inj (done.symm.trans done')
  exact ⟨typed, atFirst⟩

/-- The search for a default ends. It succeeds exactly on the types with a finite value, and then
gives one of them with each enum at its first variant. For a union, its tag is the least one with a
payload that does not lead back to the union. -/
theorem defaultValue_correct (p : Program) (t : Ty) :
    Ty.Built p [] t (p.defaultValue t) ∧
    ((∃ v, p.defaultValue t = .ok v) ↔ t.HasValue p) ∧
    (t.HasValue p ↔ ∃ v : Value, v.HasType p t) ∧
    (∀ v, p.defaultValue t = .ok v → v.HasType p t ∧ v.AtFirst) ∧
    ∀ id v, t = .union id → p.defaultValue t = .ok v →
      ∃ tag payload, v = .union id tag payload ∧ IsLeast {tag | p.FreshTag id tag} tag := by
  refine ⟨built_defaultValue t, ?_, Ty.hasValue_iff, fun v => hasType_defaultValue, ?_⟩
  · rw [Ty.hasValue_iff, exists_defaultValue_iff]
  · rintro id v rfl done
    obtain ⟨u, tag, payload, found, first, whole⟩ := firstFinite_of_unionDefault done
    exact ⟨tag, payload, whole, isLeast_firstFinite found first⟩

end Program

end JumpIR
