import JumpIR.Proofs.Lowering.Arity
import JumpIR.Proofs.Machine.Simulator
import JumpIR.Proofs.Machine.Stop

/-!
# Faults of calls

Only calls fault as calls do: looking into values, building default values, storing and computing do
not, and an operand does only if one of its primitives has other than as many operands as it takes.
So a run that ends in such a fault ends in a call. Main statement: `Linked.avoids_of_stops`.
-/

set_option autoImplicit false

namespace JumpIR

/-- A fault of the result is not one that calls have. -/
abbrev Safe {α : Type} (r : Except RunFault α) : Prop := Yields (fun _ => True) r

theorem Safe.bind {α β : Type} {r : Except RunFault α} {rest : α → Except RunFault β}
    (first : Safe r) (others : ∀ a, Safe (rest a)) : Safe (r >>= rest) :=
  Yields.bind first fun a _ => others a

/-- The fault is handed on. -/
theorem Safe.of_error {α β : Type} {r : Except RunFault α} {fault : RunFault} (safe : Safe r)
    (failed : r = .error fault) : Safe (.error fault : Except RunFault β) := by
  subst failed
  exact safe

/-- A fault of the result is not of that sort. -/
def Avoids {α : Type} (sort : RunFault → Prop) : Except RunFault α → Prop
  | .ok _ => True
  | .error fault => ¬ sort fault

/-- The faults of that sort are some of those that calls have. -/
def OfCalls (sort : RunFault → Prop) : Prop := ∀ fault, sort fault → fault.OfCall

/-- Calls that do not fit are no fault of that sort. -/
def Tolerates (sort : RunFault → Prop) : Prop := ∀ fault, fault.Mislinked → ¬ sort fault

section

variable {α β : Type} {sort : RunFault → Prop} {r : Except RunFault α}

theorem Avoids.bind {rest : α → Except RunFault β} (first : Avoids sort r)
    (others : ∀ a, Avoids sort (rest a)) : Avoids sort (r >>= rest) := by
  cases r with
  | error fault => exact first
  | ok a => exact others a

theorem Avoids.of_error {fault : RunFault} (avoids : Avoids sort r) (failed : r = .error fault) :
    Avoids sort (.error fault : Except RunFault β) := by
  subst failed
  exact avoids

theorem Yields.avoids {good : α → Prop} (yields : Yields good r) (ofCalls : OfCalls sort) :
    Avoids sort r := by
  cases r with
  | error fault => exact fun bad => yields (ofCalls fault bad)
  | ok a => exact trivial

end

/-! ### Values -/

namespace Value

theorem safe_field (index : Nat) (v : Value) : Safe (v.field index) := by
  unfold field
  split
  · split
    · exact trivial
    · exact id
  · exact yields_mismatch _ _ _

theorem safe_setPath {path : List Nat} : ∀ (target leaf : Value),
    Safe (target.setPath path leaf) := by
  induction path with
  | nil =>
      intro target leaf
      unfold setPath
      exact trivial
  | cons index path ih =>
      intro target leaf
      cases target with
      | tuple items =>
          unfold setPath
          split
          · exact (ih _ _).bind fun _ => trivial
          · exact id
      | _ => exact id

end Value

namespace Ty

variable {union : UnionId → Except RunFault Value}

mutual

theorem safe_defaultWith (safe : ∀ id, Safe (union id)) : ∀ type : Ty,
    Safe (type.defaultWith union)
  | .tuple items => by
      rw [defaultWith]
      exact (safe_defaultsWith safe items).bind fun _ => trivial
  | .union id => by
      rw [defaultWith]
      exact safe id
  | .unit | .bool | .int | .bit | .bits _ | .string | .enum _ => by
      rw [defaultWith]
      exact trivial

theorem safe_defaultsWith (safe : ∀ id, Safe (union id)) : ∀ types : List Ty,
    Safe (Ty.defaultsWith union types)
  | [] => by
      rw [defaultsWith]
      exact trivial
  | type :: rest => by
      rw [defaultsWith]
      exact (safe_defaultWith safe type).bind fun _ =>
        (safe_defaultsWith safe rest).bind fun _ => trivial

end

end Ty

namespace Program

variable (p : Program)

theorem safe_unionDefault (rounds : Nat) : ∀ (visiting : List UnionId) (id : UnionId),
    Safe (p.unionDefault rounds visiting id) := by
  induction rounds with
  | zero => exact fun _ _ => id
  | succ rounds ih =>
      intro visiting id
      unfold unionDefault
      split
      · exact fun bad => bad
      · split
        · exact fun bad => bad
        · split
          · exact fun bad => bad
          · exact (Ty.safe_defaultWith (ih _) _).bind fun _ => trivial

theorem safe_defaultValue (type : Ty) : Safe (p.defaultValue type) :=
  Ty.safe_defaultWith (p.safe_unionDefault p.unions.length []) type

theorem safe_defaultValues (types : List Ty) : Safe (p.defaultValues types) := by
  induction types with
  | nil => exact trivial
  | cons type rest ih => exact (p.safe_defaultValue type).bind fun _ => ih.bind fun _ => trivial

theorem safe_heldVariant (union : UnionId) (v : Value) : Safe (p.heldVariant union v) := by
  unfold heldVariant
  have isUnion : Safe v.asUnion := by
    cases v <;> first | exact trivial | exact Value.yields_mismatch _ _ _
  refine isUnion.bind ?_
  intro held
  dsimp only
  split
  · exact trivial
  · exact id

theorem safe_payloadOf (union : UnionId) (tag : Nat) (v : Value) :
    Safe (p.payloadOf union tag v) := by
  unfold payloadOf
  refine (p.safe_heldVariant union v).bind ?_
  intro held
  dsimp only
  split
  · exact trivial
  · exact id

end Program

/-! ### Operands -/

section

variable {sort : RunFault → Prop}

theorem PrimOp.apply_of_misfit {op : PrimOp} {args : List (Except RunFault Value)}
    (misfit : op.arity ≠ args.length) :
    op.apply args = .error (.arityMismatch s!"@{op.name}" op.arity args.length) := by
  unfold apply
  split
  all_goals first | exact absurd rfl misfit | rfl

theorem PrimOp.avoids_apply {op : PrimOp} {args : List (Except RunFault Value)}
    (ofCalls : OfCalls sort) (fits : op.arity = args.length ∨ Tolerates sort)
    (avoid : ∀ r ∈ args, Avoids sort r) : Avoids sort (op.apply args) := by
  by_cases arity : op.arity = args.length
  · have asked : ∀ r ∈ args, ∀ rest : Bool → Except RunFault Value, (∀ b, Avoids sort (rest b)) →
        Avoids sort (r >>= fun v => v.asBool >>= rest) := by
      intro r member rest others
      exact (avoid r member).bind fun v => ((Value.yields_asBool v).avoids ofCalls).bind others
    cases op with
    | not =>
        obtain ⟨a, rfl⟩ := List.length_eq_one_iff.mp arity.symm
        exact asked a (by simp) _ fun _ => trivial
    | and =>
        obtain ⟨a, b, rfl⟩ := List.length_eq_two.mp arity.symm
        refine asked a (by simp) _ fun first => ?_
        cases first with
        | true => exact asked b (by simp) _ fun _ => trivial
        | false => exact trivial
    | or =>
        obtain ⟨a, b, rfl⟩ := List.length_eq_two.mp arity.symm
        refine asked a (by simp) _ fun first => ?_
        cases first with
        | true => exact trivial
        | false => exact asked b (by simp) _ fun _ => trivial
    | eq | neq =>
        obtain ⟨a, b, rfl⟩ := List.length_eq_two.mp arity.symm
        exact (avoid a (by simp)).bind fun _ => (avoid b (by simp)).bind fun _ => trivial
  · rw [apply_of_misfit arity]
    exact fits.resolve_left arity _ trivial

end

section

variable (p : Program) (f : Frame) (m : Machine)

theorem Frame.safe_local? (id : LocalId) : Safe (f.local? id) := by
  unfold Frame.local?
  split
  · exact trivial
  · exact fun bad => bad

theorem Machine.safe_register? (id : RegisterId) : Safe (m.register? id) := by
  unfold Machine.register?
  split
  · exact trivial
  · exact fun bad => bad

theorem Machine.safe_exceptionPart (part : ExceptionPart) : Safe (m.exceptionPart part) := by
  unfold Machine.exceptionPart
  split
  · exact trivial
  · split
    · exact trivial
    · exact fun bad => bad
  · exact trivial

theorem Operand.length_outcomes (items : List Operand) :
    (Operand.outcomes p f m items).length = items.length := by
  induction items with
  | nil => rfl
  | cons o rest ih => rw [outcomes, List.length_cons, List.length_cons, ih]

theorem Operand.length_evaluateAll {items : List Operand} : ∀ {values : List Value},
    Operand.evaluateAll p f m items = .ok values → values.length = items.length := by
  induction items with
  | nil =>
      intro values evaluated
      rw [evaluateAll] at evaluated
      cases evaluated
      rfl
  | cons o rest ih =>
      intro values evaluated
      rw [evaluateAll] at evaluated
      obtain ⟨first, _here, evaluated⟩ := bind_ok evaluated
      obtain ⟨others, later, done⟩ := bind_ok evaluated
      cases done
      rw [List.length_cons, List.length_cons, ih later]

variable {sort : RunFault → Prop}

mutual

/-- An operand faults as calls do only where its primitives have other than as many operands as they
take. -/
theorem Operand.avoids_evaluate (ofCalls : OfCalls sort) : ∀ o : Operand,
    o.Counted ∨ Tolerates sort → Avoids sort (o.evaluate p f m)
  | .const c, _ => by
      rw [evaluate]
      exact trivial
  | .localVar id, _ => by
      rw [evaluate]
      exact (f.safe_local? id).avoids ofCalls
  | .register id, _ => by
      rw [evaluate]
      exact (m.safe_register? id).avoids ofCalls
  | .exception part, _ => by
      rw [evaluate]
      exact (m.safe_exceptionPart part).avoids ofCalls
  | .prim op args, counted => by
      rw [evaluate]
      have others := Operand.avoids_outcomes ofCalls args (counted.imp_left And.right)
      refine PrimOp.avoids_apply ofCalls ?_ others
      rw [Operand.length_outcomes]
      exact counted.imp_left And.left
  | .isVariant value union tag, counted => by
      rw [evaluate]
      exact (Operand.avoids_evaluate ofCalls value counted).bind fun v =>
        ((p.safe_heldVariant union v).avoids ofCalls).bind fun _ => trivial
  | .asVariant value union tag, counted => by
      rw [evaluate]
      exact (Operand.avoids_evaluate ofCalls value counted).bind fun v =>
        (p.safe_payloadOf union tag v).avoids ofCalls
  | .field value index, counted => by
      rw [evaluate]
      exact (Operand.avoids_evaluate ofCalls value counted).bind fun v =>
        (v.safe_field index).avoids ofCalls
  | .tuple items, counted => by
      rw [evaluate]
      exact (Operand.avoids_evaluateAll ofCalls items counted).bind fun _ => trivial
  | .construct union tag payload, counted => by
      rw [evaluate]
      exact (Operand.avoids_evaluate ofCalls payload counted).bind fun _ => trivial

theorem Operand.avoids_evaluateAll (ofCalls : OfCalls sort) : ∀ items : List Operand,
    Operand.AllCounted items ∨ Tolerates sort → Avoids sort (Operand.evaluateAll p f m items)
  | [], _ => by
      rw [evaluateAll]
      exact trivial
  | o :: rest, counted => by
      rw [evaluateAll]
      exact (Operand.avoids_evaluate ofCalls o (counted.imp_left And.left)).bind fun _ =>
        (Operand.avoids_evaluateAll ofCalls rest (counted.imp_left And.right)).bind fun _ => trivial

theorem Operand.avoids_outcomes (ofCalls : OfCalls sort) : ∀ items : List Operand,
    Operand.AllCounted items ∨ Tolerates sort →
    ∀ r ∈ Operand.outcomes p f m items, Avoids sort r
  | [], _ => by
      rw [outcomes]
      exact fun _ member => nomatch member
  | o :: rest, counted => by
      rw [outcomes]
      exact List.forall_mem_cons.mpr
        ⟨Operand.avoids_evaluate ofCalls o (counted.imp_left And.left),
          Operand.avoids_outcomes ofCalls rest (counted.imp_left And.right)⟩

end

/-! ### Stores -/

theorem ExceptionState.safe_store (e : ExceptionState) (part : ExceptionPart) (path : List Nat)
    (v : Value) : Safe (e.store part path v) := by
  cases part with
  | pending => exact (Value.yields_asBool v).bind fun _ _ => trivial
  | location => exact (Value.yields_asString v).bind fun _ _ => trivial
  | thrown =>
      unfold ExceptionState.store
      dsimp only
      split
      · exact trivial
      · split
        · exact fun bad => bad
        · exact (Value.safe_setPath _ _).bind fun _ => trivial

theorem Place.safe_store (place : Place) (v : Value) : Safe (place.store v f m) := by
  unfold Place.store
  split
  · exact (f.safe_local? _).bind fun _ => (Value.safe_setPath _ _).bind fun _ => trivial
  · exact (Value.safe_setPath _ _).bind fun _ => trivial
  · exact (m.safe_register? _).bind fun _ => (Value.safe_setPath _ _).bind fun _ => trivial
  · exact (m.exception.safe_store _ _ _).bind fun _ => trivial

end

/-! ### Calls -/

/-- A support operation faults as calls do only if its arguments are not as many as it takes. -/
theorem Support.Operation.avoids_call {sort : RunFault → Prop} {op : Support.Operation}
    (isAction : op.IsAction) (ofCalls : OfCalls sort) {args : List Value}
    (fits : args.length = op.arity ∨ Tolerates sort) (m : Machine) :
    Avoids sort (op.call args m).1 := by
  obtain ⟨a, acts⟩ := isAction args
  by_cases count : args.length = op.arity
  · exact (acts.yields count m).avoids ofCalls
  · rw [acts.runs, acts.refuses count]
    exact fits.resolve_left count _ trivial

/-- The run is about to call a function, and that call is refused. -/
def Execution.RefusedBy (e : Execution) (l : Linked) (fault : RunFault) : Prop :=
  ∃ (dest : Option Place) (id : FuncId) (items : List Operand) (values : List Value),
    e.site.HasOp e.current.function.blocks (.call dest (.function id) items) ∧
    Operand.evaluateAll l.program e.current.frame e.machine items = .ok values ∧
    l.enter e.depth id values = .error fault

namespace Linked

variable {l : Linked}

theorem safe_bindParams {ids : List LocalId} : ∀ (args locals : List Value),
    Safe (bindParams ids args locals) := by
  induction ids with
  | nil => exact fun _ _ => trivial
  | cons id ids ih =>
      intro args locals
      cases args with
      | nil => exact trivial
      | cons arg args =>
          unfold bindParams
          split
          · exact ih _ _
          · exact fun bad => bad

theorem safe_frame (d : FunctionDef) (args : List Value) : Safe (l.frame d args) :=
  (l.program.safe_defaultValues _).bind fun locals =>
    (l.program.safe_defaultValue _).bind fun _ =>
      (safe_bindParams args locals).bind fun _ => trivial

theorem safe_declare (a : Activation) (id : LocalId) : Safe (l.declare a id) := by
  unfold declare
  split
  · exact fun bad => bad
  · exact (l.program.safe_defaultValue _).bind fun _ =>
      (a.frame.safe_local? id).bind fun _ => trivial

/-! ### Ends of runs -/

/-- A place that does not take a value is no fault that calls have. -/
theorem safe_of_resume_finished {a : Activation} {callers : List Suspended} {dest : Option Place}
    {value : Value} {before m : Machine} {result : Except RunFault Value}
    (stored : resume a callers dest value before = .finished result m) : Safe result := by
  obtain ⟨place, fault, _dest, refused, failed, _same⟩ := store_of_resume_finished stored
  subst failed
  exact (place.safe_store a.frame before value).of_error refused

theorem safe_of_leave_finished {callers : List Suspended} {value : Value} {before m : Machine}
    {result : Except RunFault Value} (left : leave callers value before = .finished result m) :
    Safe result := by
  obtain ⟨_same, ⟨_none, returned⟩ | ⟨caller, _rest, place, _fault, _some, refused, failed⟩⟩ :=
    cases_of_leave_finished left
  · subst returned
    exact trivial
  · subst failed
    exact (place.safe_store caller.activation.frame before value).of_error refused

variable {sort : RunFault → Prop}
  (binds : List.Forall₂ Simulator.Binds l.program.supports l.supports) (ofCalls : OfCalls sort)

include binds ofCalls

theorem avoids_callSupport {id : SupportId} {args : List Value}
    (fits : (∃ d, l.program.support? id = some d ∧ d.params.length = args.length) ∨
      Tolerates sort) (m : Machine) : Avoids sort (l.callSupport id args m).1 := by
  unfold callSupport
  cases there : l.supports[id.index]? with
  | none =>
      rcases fits with ⟨d, found, _count⟩ | tolerates
      · obtain ⟨op, known, _bound⟩ := exists_source_at binds found
        cases there.symm.trans known
      · exact tolerates _ trivial
  | some op =>
      obtain ⟨d, _listed, bound⟩ := exists_source binds (List.mem_of_getElem? there)
      refine op.avoids_call (Support.isAction_of_find? bound.found) ofCalls ?_ m
      refine fits.imp_left ?_
      rintro ⟨d', found, count⟩
      obtain ⟨op', known, bound'⟩ := exists_source_at binds found
      cases there.symm.trans known
      exact count.symm.trans bound'.arity.symm

/-- A run that ends in a fault of that sort is about to call a function, and is refused. -/
theorem avoids_of_stops {e : Execution} {result : Except RunFault Value} {m : Machine}
    (fits : e.current.function.Counted l.program ∨ Tolerates sort) (stops : l.Stops e result m) :
    Avoids sort result ∨ ∃ fault, result = .error fault ∧ e.RefusedBy l fault := by
  cases stops with
  | missing absent failed same | unreachable left failed same =>
      subst failed
      exact Or.inl (ofCalls _)
  | declare op undeclared failed same =>
      subst failed
      exact Or.inl (((safe_declare _ _).avoids ofCalls).of_error undeclared)
  | @operand dest value fault op evaluated failed same =>
      subst failed
      have ofValue : value.Counted ∨ Tolerates sort := fits.imp_left fun counted => counted.op op
      exact Or.inl ((Operand.avoids_evaluate _ _ _ ofCalls value ofValue).of_error evaluated)
  | @args dest callee items fault op evaluated failed same =>
      subst failed
      have ofArgs : Operand.AllCounted items ∨ Tolerates sort := by
        refine fits.imp_left fun counted => ?_
        have ofCall := counted.op op
        cases callee with
        | function id => exact ofCall
        | support id => exact ofCall.1
      exact Or.inl ((Operand.avoids_evaluateAll _ _ _ ofCalls items ofArgs).of_error evaluated)
  | @branch cond thenBlock elseBlock fault left undecided failed same =>
      subst failed
      have ofCond : cond.Counted ∨ Tolerates sort := by
        refine fits.imp_left fun counted => ?_
        obtain ⟨block, here, _atEnd, ends⟩ := left
        have asked : cond ∈ block.terminator.conds := by
          rw [ends]
          exact List.mem_cons_self
        exact counted.conds block (List.mem_of_getElem? here) cond asked
      have decides : Avoids sort
          (cond.evaluate l.program e.current.frame e.machine >>= Value.asBool) :=
        (Operand.avoids_evaluate _ _ _ ofCalls cond ofCond).bind fun v =>
          (Value.yields_asBool v).avoids ofCalls
      exact Or.inl (decides.of_error undecided)
  | endless left undefaulted failed same =>
      subst failed
      exact Or.inl (((l.program.safe_defaultValue _).avoids ofCalls).of_error undefaulted)
  | @enter dest id items values fault op evaluated refused failed same =>
      exact Or.inr ⟨fault, failed, dest, id, items, values, op, evaluated, refused⟩
  | @support dest id items values fault op evaluated called failed =>
      subst failed
      have ofCall : (∃ d, l.program.support? id = some d ∧ d.params.length = values.length) ∨
          Tolerates sort := by
        refine fits.imp_left fun counted => ?_
        obtain ⟨_ofArgs, d, found, count⟩ := counted.op op
        exact ⟨d, found, count.trans (Operand.length_evaluateAll _ _ _ evaluated).symm⟩
      exact Or.inl ((avoids_callSupport binds ofCalls ofCall e.machine).of_error
        (congrArg Prod.fst called))
  | assign op evaluated stored => exact Or.inl ((safe_of_resume_finished stored).avoids ofCalls)
  | store op evaluated called stored =>
      exact Or.inl ((safe_of_resume_finished stored).avoids ofCalls)
  | ret left returned => exact Or.inl ((safe_of_leave_finished returned).avoids ofCalls)
  | arbitrary left defaulted returned =>
      exact Or.inl ((safe_of_leave_finished returned).avoids ofCalls)

end Linked

end JumpIR
