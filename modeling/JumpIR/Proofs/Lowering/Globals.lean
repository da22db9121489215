import JumpIR.Lowering.Body
import JumpIR.Proofs.Outcome

/-!
# What names stand for

A callee's name means the same wherever it stands. The numbers of functions are their positions.
-/

set_option autoImplicit false

namespace JumpIR.Lowering.Globals

variable {g : Globals} {name symbol : String} {op : SupportDef}

theorem enumConst?_eq {c : Const} (known : g.enumConst? name = some c) :
    ∃ id ordinal, c = .enum id ordinal := by
  unfold enumConst? at known
  obtain ⟨info, _found, known⟩ := Option.bind_eq_some_iff.mp known
  split at known
  · obtain ⟨id, _numbered, same⟩ := Option.bind_eq_some_iff.mp known
    exact ⟨id, _, (Option.some.inj same).symm⟩
  · cases known

/-! ### Support operations -/

theorem supportDef_eq {type : Option Tree.TypeExpr} {span : Span}
    (made : g.supportDef name symbol type span = .ok op) :
    op.name = name ∧ op.symbol = symbol ∧
      ∀ other, g.supportDef name symbol type other = .ok op := by
  unfold supportDef at made
  split at made
  · obtain ⟨params, paramsDone, made⟩ := bind_ok made
    obtain ⟨result, resultDone, made⟩ := bind_ok made
    cases made
    refine ⟨rfl, rfl, ?_⟩
    intro other
    simp only [supportDef, paramsDone, resultDone]
    rfl
  · cases made

/-- Everything that a callee's name can stand for, and where that comes from. -/
theorem target?_cases {span : Span} {target : Target}
    (found : g.target? name span = .ok (some target)) :
    (∃ union tag, target = .constructor union tag ∧ g.variant? name = some (union, tag)) ∨
    (∃ id, target = .function id (g.mayRaise name) ∧ g.numbers.functions.lookup name = some id) ∨
    ∃ op, target = .support op ∧ op.name = name ∧
      ∀ other, g.target? name other = .ok (some (.support op)) := by
  unfold target? at found ⊢
  cases constructor : g.variant? name with
  | some variant =>
      obtain ⟨union, tag⟩ := variant
      rw [constructor] at found
      cases found
      exact Or.inl ⟨union, tag, rfl, rfl⟩
  | none =>
      rw [constructor] at found
      cases known : g.symbols.info? name with
      | none =>
          rw [known] at found
          cases found
      | some info =>
          rw [known] at found
          dsimp only at found ⊢
          split at found
          · obtain ⟨op, made, same⟩ := bind_ok found
            cases same
            obtain ⟨named, _symbol, anywhere⟩ := supportDef_eq made
            refine Or.inr (Or.inr ⟨op, rfl, named, ?_⟩)
            intro other
            rw [anywhere other]
            rfl
          · cases lookup : g.numbers.functions.lookup name with
            | none =>
                rw [lookup] at found
                cases found
            | some id =>
                rw [lookup] at found
                cases found
                exact Or.inr (Or.inl ⟨id, rfl, rfl⟩)
          · cases found

theorem target?_constructor {span : Span} {union : UnionId} {tag : Nat}
    (found : g.target? name span = .ok (some (.constructor union tag))) :
    g.variant? name = some (union, tag) := by
  rcases target?_cases found with ⟨_, _, same, variant⟩ | ⟨_, same, _⟩ | ⟨_, same, _⟩
  · cases same
    exact variant
  · cases same
  · cases same

theorem target?_function {span : Span} {id : FuncId} {mayRaise : Bool}
    (found : g.target? name span = .ok (some (.function id mayRaise))) :
    g.numbers.functions.lookup name = some id ∧ mayRaise = g.mayRaise name := by
  rcases target?_cases found with ⟨_, _, same, _⟩ | ⟨_, same, lookup⟩ | ⟨_, same, _⟩
  · cases same
  · cases same
    exact ⟨lookup, rfl⟩
  · cases same

/-- A support operation carries the name that calls it, and no span tells two apart. -/
theorem target?_support {span : Span} (found : g.target? name span = .ok (some (.support op))) :
    op.name = name ∧ ∀ other, g.target? name other = .ok (some (.support op)) := by
  rcases target?_cases found with ⟨_, _, same, _⟩ | ⟨_, same, _⟩ | ⟨_, same, named, anywhere⟩
  · cases same
  · cases same
  · cases same
    exact ⟨named, anywhere⟩

/-- A support operation has the symbol and the types of the value of that name. -/
theorem info_of_support {span : Span} (found : g.target? name span = .ok (some (.support op))) :
    ∃ info params result typeSpan, g.symbols.info? name = some info ∧ info.kind = .value ∧
      info.value = .support op.symbol ∧ info.type = some (.function params result typeSpan) ∧
      g.types params = .ok op.params ∧ g.type result = .ok op.result := by
  unfold target? at found
  split at found
  · cases found
  · split at found
    · cases found
    · rename_i info known
      split at found
      · rename_i symbol kind value
        obtain ⟨op', made, same⟩ := bind_ok found
        cases same
        unfold supportDef at made
        split at made
        · rename_i params result typeSpan type
          obtain ⟨types, ofParams, made⟩ := bind_ok made
          obtain ⟨type', ofResult, made⟩ := bind_ok made
          cases made
          exact ⟨info, params, result, typeSpan, known, kind, value, type, ofParams, ofResult⟩
        · cases made
      · cases lookup : g.numbers.functions.lookup name with
        | none =>
            rw [lookup] at found
            cases found
        | some id =>
            rw [lookup] at found
            cases found
      · cases found

/-! ### Signatures -/

/-- A signature is that of the value with the function's name. -/
theorem info_of_signature {f : Tree.FunctionDecl} {types : List Ty} {result : Ty}
    (signed : g.signature f = .ok (types, result)) :
    ∃ info params resultType span, g.symbols.info? f.name.name = some info ∧ info.kind = .value ∧
      info.type = some (.function params resultType span) ∧ params.length = f.params.length ∧
      g.types params = .ok types ∧ g.type resultType = .ok result := by
  unfold signature at signed
  dsimp only at signed
  split at signed
  · cases signed
  · rename_i info known
    split at signed
    · cases signed
    · rename_i params resultType span kind type _unbound
      split at signed
      · rename_i arity
        obtain ⟨types', ofParams, signed⟩ := bind_ok signed
        obtain ⟨result', ofResult, signed⟩ := bind_ok signed
        cases signed
        exact ⟨info, params, resultType, span, known, kind, type, arity, ofParams, ofResult⟩
      · cases signed
    · cases signed

/-- Every operation of a list is what its name stands for. -/
def Lists (g : Globals) (supports : List SupportDef) : Prop :=
  ∀ op ∈ supports, ∃ span, g.target? op.name span = .ok (some (.support op))

end JumpIR.Lowering.Globals
