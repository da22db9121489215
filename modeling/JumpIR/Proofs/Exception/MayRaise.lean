import JumpIR.Proofs.Lowering.Origin
import JumpIR.Proofs.Machine.Simulator
import JumpIR.Proofs.Machine.Stack
import JumpIR.Proofs.Reference.Correctness

/-!
# Functions that may not raise

A function may raise by a statement that sets the flag to true, and such a statement is known by its
literal. Any other right-hand side can be true as well, and it is this that may leave an exception
pending behind a function that is said not to raise. Main statement: `pending_iff_raised`.
-/

set_option autoImplicit false

namespace JumpIR

open Lowering

/-! ### Calls of functions that may not raise -/

/-- A function of the program that is said not to raise. -/
def Program.Calm (p : Program) (d : FunctionDef) : Prop := d ∈ p.functions ∧ d.mayRaise = false

variable {c : Compilation} {l : Linked} {d : FunctionDef}

theorem keepsException_of_links (links : c.Links l) : l.KeepsException := by
  intro op member
  obtain ⟨d, _listed, binds⟩ :=
    exists_source (Simulator.binds_of_linkSupports links.supports) member
  exact Support.keepsException_of_find? binds.found

/-- What a function that may not raise calls may not raise either. -/
theorem closed_calm (links : c.Links l) : l.Closed c.program.Calm := by
  rintro d dest id depth args a ⟨member, calm⟩ ⟨s, items, found⟩ entered
  have called := (Linked.enter_ok entered).1
  rw [links.program] at called
  refine ⟨List.mem_of_getElem? called, ?_⟩
  obtain ⟨f, memberToo, compiles⟩ := Compilation.exists_compiles member
  cases raises : a.function.mayRaise with
  | false => rfl
  | true =>
      have impossible := Compilation.mayRaise_of_calls memberToo compiles found called raises
      cases calm.symm.trans impossible

/-- A function that may not raise never assigns a literal true to the flag. -/
theorem truth_of_calm {base : List Suspended} {e : Execution} {truth : Bool}
    (within : Linked.Within c.program.Calm base e) (stores : e.StoresFlag)
    (assigns : e.AssignsTruth truth) : truth = false := by
  obtain ⟨member, calm⟩ := within.current
  obtain ⟨f, memberToo, compiles⟩ := Compilation.exists_compiles member
  obtain ⟨block, dest, found, foundOp⟩ := assigns
  have op : e.site.HasOp e.current.function.blocks (.assign dest (.const (.bool truth))) :=
    ⟨block, found, foundOp⟩
  have root : dest.root = .exception .pending := by
    obtain ⟨place, same, root⟩ := stores
    rw [Execution.storesInto?_of_hasOp op] at same
    cases same
    exact root
  cases truth with
  | false => rfl
  | true =>
      have impossible := Compilation.mayRaise_of_assigns memberToo compiles root op
      cases calm.symm.trans impossible

/-! ### Stores that are no literals -/

namespace Linked

/-- Between the two stages the flag has been set by a store of something else than a literal, and
nothing has been stored into it since. -/
inductive Raised (l : Linked) (start : Execution) : Execution → Prop where
  | store {count : Nat} {e next : Execution} (steps : l.Steps count start e)
      (stepped : l.step e = .running next) (stores : e.StoresFlag)
      (computed : ∀ truth, ¬ e.AssignsTruth truth)
      (pending : next.machine.exception.pending = true) : Raised l start next
  | keep {e next : Execution} (raised : Raised l start e) (stepped : l.step e = .running next)
      (other : ¬ e.StoresFlag) : Raised l start next

theorem pending_of_raised (keeps : l.KeepsException) {start e : Execution}
    (raised : l.Raised start e) : e.machine.exception.pending = true := by
  induction raised with
  | store steps stepped stores computed pending => exact pending
  | keep raised stepped other ih => exact (pending_of_step keeps stepped other).trans ih

end Linked

/-- While only functions run that may not raise, a pending flag comes from such a store. -/
theorem raised_of_pending (links : c.Links l) {start last : Execution} {count : Nat}
    (within : Linked.Within c.program.Calm [] start)
    (unraised : start.machine.exception.pending = false) (steps : l.Steps count start last)
    (pending : last.machine.exception.pending = true) : l.Raised start last := by
  have keeps := keepsException_of_links links
  let Known : Execution → Prop := fun e => Linked.Within c.program.Calm [] e ∧
    (∃ more, l.Steps more start e) ∧ (e.machine.exception.pending = true → l.Raised start e)
  -- A stage is followed from the start, since a store is known by the steps that lead to it.
  have known : Known last := by
    refine steps.keeps Known ?_ ⟨within, ⟨0, .refl start⟩, ?_⟩
    · rintro e next ⟨within, ⟨more, steps⟩, raised⟩ stepped
      refine ⟨Linked.within_steps (closed_calm links) (.single stepped) within,
        ⟨more + 1, steps.trans (.single stepped)⟩, ?_⟩
      intro pending
      by_cases stores : e.StoresFlag
      · refine .store steps stepped stores ?_ pending
        intro truth assigns
        cases truth_of_calm within stores assigns
        cases pending.symm.trans (Linked.pending_of_assignsTruth stepped stores assigns)
      · have before := (Linked.pending_of_step keeps stepped stores).symm.trans pending
        exact .keep (raised before) stepped stores
    · intro impossible
      cases unraised.symm.trans impossible
  exact known.2.2 pending

/-- Where the text assigns the flag by literals only, a function of the program stores nothing else
into it. -/
theorem assignsTruth_of_stores (literals : FlagsByLiteral c.linked.tree) {base : List Suspended}
    {holds : FunctionDef → Prop} (listed : ∀ d, holds d → d ∈ c.program.functions) {e : Execution}
    (within : Linked.Within holds base e) (bottom : ¬ Linked.IsFlag (base.head?.bind (·.dest)))
    (stores : e.StoresFlag) : ∃ truth, e.AssignsTruth truth := by
  obtain ⟨f, member, compiles⟩ := Compilation.exists_compiles (listed _ within.current)
  obtain ⟨place, same, root⟩ := stores
  -- The value of a call goes where its call operation says, and no call operation names the flag.
  have waiting : e.callers.head?.bind (·.dest) ≠ some place := by
    intro same
    obtain ⟨above', callers, waiting⟩ := within.callers
    cases above' with
    | nil =>
        have isBase : e.callers = base := callers
        rw [isBase] at same
        exact bottom ⟨place, same, root⟩
    | cons u rest =>
        rw [callers] at same
        obtain ⟨held, id, s, args, found⟩ := waiting u List.mem_cons_self
        obtain ⟨g, memberToo, compiles'⟩ := Compilation.exists_compiles (listed _ held)
        exact Compilation.not_flag_of_call literals memberToo compiles' found ⟨place, same, root⟩
  rcases Execution.storesInto?_cases same with ⟨value, op⟩ | ⟨id, args, op⟩ | waits
  · obtain ⟨truth, rfl⟩ := Compilation.literal_of_assign literals member compiles op root
    obtain ⟨block, found, foundOp⟩ := op
    exact ⟨truth, block, place, found, foundOp⟩
  · exact absurd ⟨place, rfl, root⟩ (Compilation.not_flag_of_call literals member compiles op)
  · exact absurd waits waiting

/-! ### Calls from outside -/

theorem exists_steps_of_call {s after : Simulator} {budget : Nat} {name : String} {id : FuncId}
    {args : List Value} {value : Value} (named : s.linked.program.functionId? name = some id)
    (returned : s.call budget name args = some (.ok value, after)) :
    ∃ start count last, s.linked.enter 0 id args = .ok start ∧
      s.linked.Steps count ⟨start, [], s.machine⟩ last ∧
      s.linked.step last = .finished (.ok value) after.machine := by
  cases Simulator.called_of_call returned with
  | ran namedToo entered steps finished =>
      cases named.symm.trans namedToo
      exact ⟨_, _, _, entered, steps, finished⟩

/-- A call of a function that is said not to raise leaves an exception pending exactly if its last
store into the flag was of something else than a literal, and true. So none is pending behind it
where the text assigns literals to the flag only. -/
theorem pending_iff_raised {source : SourceText} {options : Options} {program : Program}
    {config : SimConfig} {s : Simulator} (compiled : source.compile options = .ok program)
    (created : Simulator.create program config = .ok s) {name : String} {id : FuncId}
    (named : program.functionId? name = some id) (found : program.function? id = some d)
    (calm : d.mayRaise = false) {machine : Machine} (unraised : machine.exception.pending = false)
    {budget : Nat} {args : List Value} {value : Value} {after : Simulator}
    (returned : Simulator.call { s with machine := machine } budget name args =
      some (.ok value, after)) :
    (after.machine.exception.pending = true ↔
      ∃ start last, s.linked.enter 0 id args = .ok start ∧
        s.linked.Raised ⟨start, [], machine⟩ last ∧
        s.linked.step last = .finished (.ok value) after.machine) ∧
    (∀ linked, source.linked = .ok linked → FlagsByLiteral linked.tree →
      after.machine.exception.pending = false) := by
  obtain ⟨c, isLinked, rfl, rfl⟩ := exists_compilation compiled
  have links := (Reference.links_of_create created).1
  have keeps := keepsException_of_links links
  obtain ⟨start, count, last, entered, steps, finished⟩ :=
    exists_steps_of_call (s := { s with machine := machine })
      ((congrArg (·.functionId? name) links.program).trans named) returned
  have within : Linked.Within c.program.Calm [] ⟨start, [], machine⟩ := by
    have runs := (Linked.enter_ok entered).1
    rw [links.program] at runs
    cases found.symm.trans runs
    refine ⟨⟨List.mem_of_getElem? found, calm⟩, [], rfl, ?_⟩
    intro u member
    cases member
  have same : after.machine = last.machine := Linked.machine_of_finished finished
  have exact' : after.machine.exception.pending = true ↔
      ∃ start last, s.linked.enter 0 id args = .ok start ∧
        s.linked.Raised ⟨start, [], machine⟩ last ∧
        s.linked.step last = .finished (.ok value) after.machine := by
    constructor
    · intro pending
      rw [same] at pending
      exact ⟨start, last, entered, raised_of_pending links within unraised steps pending, finished⟩
    · rintro ⟨start', last', _entered, raised, finished'⟩
      rw [Linked.machine_of_finished finished']
      exact Linked.pending_of_raised keeps raised
  refine ⟨exact', ?_⟩
  intro linked linkedToo literals
  cases isLinked.symm.trans linkedToo
  cases pending : after.machine.exception.pending with
  | false => rfl
  | true =>
      obtain ⟨start', last', entered', raised, _finished⟩ := exact'.mp pending
      cases entered.symm.trans entered'
      have never : ∀ e, s.linked.Raised ⟨start, [], machine⟩ e → False := by
        intro e raised
        induction raised with
        | store steps stepped stores computed pending =>
            have within' := Linked.within_steps (closed_calm links) steps within
            have bottom : ¬ Linked.IsFlag (([] : List Suspended).head?.bind (·.dest)) := by
              rintro ⟨place, impossible, _root⟩
              cases impossible
            obtain ⟨truth, assigns⟩ := assignsTruth_of_stores literals (fun d held => held.1)
              within' bottom stores
            exact computed truth assigns
        | keep raised stepped other ih => exact ih
      exact (never last' raised).elim

/-! ### A flag that is copied -/

/-- The text of a function that copies its argument into the flag. -/
def copyText : SourceText := .ofString "copy" (String.join [
  "val zcopy : (%bool) -> %unit\n",
  "fn zcopy(zb) \x7b have_exception = zb; end; \x7d\n"])

/-- Whether a function of the text is said not to raise, and still leaves an exception pending. -/
def raisesCalmly (source : SourceText) (name : String) (args : List Value) : Bool :=
  match source.simulator? with
  | none => false
  | some (program, s) =>
      match program.functionId? name with
      | none => false
      | some id =>
          match program.function? id, Simulator.call s 10 name args with
          | some d, some (.ok .unit, after) =>
              !d.mayRaise && !s.machine.exception.pending && after.machine.exception.pending
          | _, _ => false

theorem exists_of_raisesCalmly {source : SourceText} {name : String} {args : List Value}
    (raises : raisesCalmly source name args = true) :
    ∃ program s id d after, source.compile .default = .ok program ∧
      Simulator.create program .default = .ok s ∧ program.functionId? name = some id ∧
      program.function? id = some d ∧ d.mayRaise = false ∧ s.machine.exception.pending = false ∧
      Simulator.call s 10 name args = some (.ok .unit, after) ∧
      after.machine.exception.pending = true := by
  unfold raisesCalmly at raises
  split at raises
  · cases raises
  · rename_i program s simulated
    obtain ⟨compiled, created⟩ := SourceText.compile_of_simulator? simulated
    split at raises
    · cases raises
    · rename_i id named
      split at raises
      · rename_i d after found returned
        simp only [Bool.and_eq_true, Bool.not_eq_true'] at raises
        exact ⟨program, s, id, d, after, compiled, created, named, found, raises.1.1, raises.1.2,
          returned, raises.2⟩
      · cases raises

theorem copyText_raisesCalmly : raisesCalmly copyText "zcopy" [.bool true] = true := by
  decide +kernel

/-- A call of a function that is said not to raise can leave an exception pending. -/
theorem exists_pending_of_calm : ¬ ∀ (source : SourceText) (options : Options) (program : Program)
    (config : SimConfig) (s : Simulator) (name : String) (id : FuncId) (d : FunctionDef)
    (budget : Nat) (args : List Value) (value : Value) (after : Simulator),
    source.compile options = .ok program → Simulator.create program config = .ok s →
    program.functionId? name = some id → program.function? id = some d → d.mayRaise = false →
    s.machine.exception.pending = false →
    Simulator.call s budget name args = some (.ok value, after) →
    after.machine.exception.pending = false := by
  intro documented
  obtain ⟨program, s, id, d, after, compiled, created, named, found, calm, unraised, returned,
    pending⟩ := exists_of_raisesCalmly copyText_raisesCalmly
  have silent := documented copyText .default program .default s "zcopy" id d 10 [.bool true] .unit
    after compiled created named found calm unraised returned
  cases pending.symm.trans silent

theorem pending_iff_raised_copyText : ∃ program s after start last,
    copyText.compile .default = .ok program ∧ Simulator.create program .default = .ok s ∧
    Simulator.call s 10 "zcopy" [.bool true] = some (.ok .unit, after) ∧
    s.linked.Raised ⟨start, [], s.machine⟩ last ∧
    s.linked.step last = .finished (.ok .unit) after.machine := by
  obtain ⟨program, s, id, d, after, compiled, created, named, found, calm, unraised, returned,
    pending⟩ := exists_of_raisesCalmly copyText_raisesCalmly
  obtain ⟨start, last, _entered, raised, finished⟩ :=
    (pending_iff_raised compiled created named found calm unraised returned).1.mp pending
  exact ⟨program, s, after, start, last, compiled, created, returned, raised, finished⟩

end JumpIR
