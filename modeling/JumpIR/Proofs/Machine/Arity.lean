import JumpIR.Proofs.Machine.Fault
import JumpIR.Proofs.Machine.Stack

/-!
# Calls that do not fit

Of the faults that a run of a compiled program may end in, those of arguments that are not as many
as they should be have one origin: a function that is called with other than as many arguments as it
has parameters. Main statement: `mislinked_iff_miscalls`.
-/

set_option autoImplicit false

namespace JumpIR

theorem mislinked_ofCalls : OfCalls RunFault.Mislinked := by
  intro fault mislinked
  cases fault with
  | arityMismatch _ _ _ | unknownFunction _ | unknownSupport _ => trivial
  | _ => exact False.elim mislinked

/-- A result that is not a fault of calls that do not fit. -/
abbrev Fitting {α : Type} (r : Except RunFault α) : Prop := Avoids RunFault.Mislinked r

theorem Avoids.not_mislinked {α : Type} {r : Except RunFault α} {fault : RunFault}
    (fitting : Fitting r) (failed : r = .error fault) : ¬ fault.Mislinked := by
  subst failed
  exact fitting

/-! ### Calls -/

/-- The run is about to call the function with so many arguments, which are not as many as it has
parameters. -/
def Execution.Miscalls (e : Execution) (p : Program) (callee : FunctionDef) (given : Nat) : Prop :=
  ∃ (dest : Option Place) (id : FuncId) (items : List Operand) (values : List Value),
    e.site.HasOp e.current.function.blocks (.call dest (.function id) items) ∧
    Operand.evaluateAll p e.current.frame e.machine items = .ok values ∧
    p.function? id = some callee ∧ items.length = given ∧ given ≠ callee.params.length

namespace Linked

variable {l : Linked}

theorem fitting_enter {id : FuncId} {d : FunctionDef} {args : List Value} (depth : Nat)
    (found : l.program.function? id = some d) (count : args.length = d.params.length) :
    Fitting (l.enter depth id args) := by
  unfold enter
  rw [found]
  dsimp only
  rw [if_neg (not_not_intro count)]
  split
  · exact fun bad => bad
  · exact ((safe_frame d args).avoids mislinked_ofCalls).bind fun _ => trivial

/-- A run ends in a fault of that sort only where it miscalls a function. -/
theorem fitting_of_stops (binds : List.Forall₂ Simulator.Binds l.program.supports l.supports)
    {e : Execution} {result : Except RunFault Value} {m : Machine}
    (counted : e.current.function.Counted l.program)
    (closed : e.current.function.Closed l.program) (stops : l.Stops e result m) :
    Fitting result ∨ ∃ callee given, e.Miscalls l.program callee given := by
  rcases avoids_of_stops binds mislinked_ofCalls (Or.inl counted) stops with fitting | refused
  · exact Or.inl fitting
  · obtain ⟨fault, rfl, dest, id, items, values, op, evaluated, refused⟩ := refused
    obtain ⟨block, inBlocks, inOps⟩ := op.mem
    have known : id.index < l.program.functions.length :=
      ((closed.blocks block inBlocks).ops _ inOps).2.1
    have found : l.program.function? id = some _ := List.getElem?_eq_getElem known
    by_cases count : items.length = l.program.functions[id.index].params.length
    · rw [← Operand.length_evaluateAll _ _ _ evaluated] at count
      exact Or.inl ((fitting_enter e.depth found count).of_error refused)
    · exact Or.inr ⟨_, _, dest, id, items, values, op, evaluated, found, rfl, count⟩

/-- A run that miscalls a function ends there. -/
theorem step_of_miscalls {e : Execution} {callee : FunctionDef} {given : Nat}
    (miscalls : e.Miscalls l.program callee given) :
    l.step e =
      .finished (.error (.arityMismatch callee.name callee.params.length given)) e.machine := by
  obtain ⟨dest, id, items, values, op, evaluated, found, count, differ⟩ := miscalls
  rw [← Operand.length_evaluateAll _ _ _ evaluated] at count
  subst count
  have refused : l.enter e.depth id values =
      .error (.arityMismatch callee.name callee.params.length values.length) := by
    unfold enter
    rw [found]
    dsimp only
    rw [if_pos differ]
  have stepped := l.step_call e.current.frame e.callers e.machine op
  rw [evaluated] at stepped
  dsimp only at stepped
  rw [show e.callers.length + 1 = e.depth from rfl, refused] at stepped
  exact stepped

end Linked

namespace Simulator

variable {s after : Simulator} {name : String} {args : List Value} {budget : Nat}
  {result : Except RunFault Value}

theorem Stage.function_mem {e : Execution} (stage : s.Stage name args e) :
    e.current.function ∈ s.linked.program.functions := by
  obtain ⟨id, start, count, _named, entered, steps⟩ := stage
  exact (Linked.keeps_of_enter (fun _ => True) (fun _ _ _ _ _ => trivial) entered steps trivial).1

/-- A call that is given as many arguments as it takes does not end in a fault of calls that do not
fit before it comes to such a call. -/
theorem exists_miscalls (counted : ∀ d ∈ s.linked.program.functions, d.Counted s.linked.program)
    (closed : s.linked.program.Closed)
    (binds : List.Forall₂ Binds s.linked.program.supports s.linked.supports) {d : FunctionDef}
    (named : (s.linked.program.functionId? name).bind s.linked.program.function? = some d)
    (count : args.length = d.params.length)
    (called : s.call budget name args = some (result, after)) :
    Fitting result ∨ ∃ e callee given, s.Stage name args e ∧
      e.Miscalls s.linked.program callee given := by
  obtain ⟨id, named, found⟩ := Option.bind_eq_some_iff.mp named
  cases called_of_call called with
  | unknown absent =>
      rw [absent] at named
      cases named
  | refused named' refused =>
      cases named.symm.trans named'
      exact Or.inl ((Linked.fitting_enter 0 found count).of_error refused)
  | @ran id' start steps' last result m named' entered steps finished =>
      have stage : s.Stage name args last := ⟨id', start, steps', named', entered, steps⟩
      rcases Linked.fitting_of_stops binds (counted _ stage.function_mem)
        (closed.functions _ stage.function_mem) (Linked.stops_of_step finished) with
        fitting | ⟨callee, given, miscalls⟩
      · exact Or.inl fitting
      · exact Or.inr ⟨last, callee, given, stage, miscalls⟩

end Simulator

/-! ### Compiled programs -/

/-- A call by a host with as many arguments as the function has parameters ends in a fault of calls
that do not fit just if it comes to a call of a function with other than as many, and then in the
fault of that call. It comes to none if the text has none. -/
theorem mislinked_iff_miscalls {source : SourceText} {options : Lowering.Options}
    {program : Program} {config : SimConfig} {s : Simulator}
    (compiled : source.compile options = .ok program)
    (created : Simulator.create program config = .ok s) :
    ∃ linked, source.linked = .ok linked ∧
      ∀ (m : Machine) (name : String) (args : List Value) (d : FunctionDef) (budget : Nat)
        (result : Except RunFault Value) (after : Simulator),
        (program.functionId? name).bind program.function? = some d →
        args.length = d.params.length →
        Simulator.call { s with machine := m } budget name args = some (result, after) →
        ((∃ fault, result = .error fault ∧ fault.Mislinked) ↔
          ∃ e callee given, Simulator.Stage { s with machine := m } name args e ∧
            e.Miscalls program callee given) ∧
        (∀ e callee given, Simulator.Stage { s with machine := m } name args e →
          e.Miscalls program callee given →
          result = .error (.arityMismatch callee.name callee.params.length given)) ∧
        (linked.tree.WellCounted → ¬ ∃ fault, result = .error fault ∧ fault.Mislinked) := by
  obtain ⟨c, linked, rfl, rfl⟩ := Lowering.exists_compilation compiled
  have fresh := Simulator.fresh_of_create created
  obtain ⟨⟨p, operations, depth⟩, machine⟩ := s
  obtain rfl : p = c.program := fresh.same
  have closed := (c.becomes linked).closed
  refine ⟨c.linked, linked, ?_⟩
  intro m name args d budget result after named count called
  have ends : ∀ e callee given, Simulator.Stage ⟨⟨c.program, operations, depth⟩, m⟩ name args e →
      e.Miscalls c.program callee given →
      result = .error (.arityMismatch callee.name callee.params.length given) := by
    intro e callee given stage miscalls
    exact stage.result_eq (Linked.step_of_miscalls miscalls) called
  have comes : (∃ fault, result = .error fault ∧ fault.Mislinked) →
      ∃ e callee given, Simulator.Stage ⟨⟨c.program, operations, depth⟩, m⟩ name args e ∧
        e.Miscalls c.program callee given := by
    rintro ⟨fault, failed, mislinked⟩
    rcases Simulator.exists_miscalls (fun _ member => c.counted member) closed fresh.supports named
      count called with safe | found
    · exact absurd mislinked (safe.not_mislinked failed)
    · exact found
  refine ⟨⟨comes, ?_⟩, ends, ?_⟩
  · rintro ⟨e, callee, given, stage, miscalls⟩
    exact ⟨_, ends e callee given stage miscalls, trivial⟩
  · intro wellCounted bad
    obtain ⟨e, callee, given, stage, dest, id, items, values, op, _evaluated, found, length,
      differ⟩ :=
      comes bad
    have safe := Lowering.Compilation.length_of_call linked wellCounted stage.function_mem op found
    exact differ (length.symm.trans safe)

/-- The text of a function that is called with one argument too many. -/
def surplusText : SourceText := .ofString "surplus" (String.join [
  "val zf : (%i) -> %i\n",
  "fn zf(za) \x7b return = za; end; \x7d\n",
  "val zg : (%i) -> %i\n",
  "fn zg(za) \x7b return = zf(za, za); end; \x7d\n"])

/-- Whether the call fits and ends in a fault of one that does not. -/
def endsInSurplus (source : SourceText) : Bool :=
  match source.simulator? with
  | none => false
  | some (program, s) =>
      match (program.functionId? "zg").bind program.function?, s.call 10 "zg" [.int 1] with
      | some d, some (.error fault, _) =>
          d.params.length == 1 && fault == .arityMismatch "zf" 1 2
      | _, _ => false

theorem exists_of_endsInSurplus {source : SourceText} (ends : endsInSurplus source = true) :
    ∃ program s d after,
      source.compile .default = .ok program ∧ Simulator.create program .default = .ok s ∧
      (program.functionId? "zg").bind program.function? = some d ∧
      [Value.int 1].length = d.params.length ∧
      Simulator.call s 10 "zg" [.int 1] = some (.error (.arityMismatch "zf" 1 2), after) := by
  unfold endsInSurplus at ends
  split at ends
  · cases ends
  · rename_i program s simulated
    obtain ⟨compiled, created⟩ := SourceText.compile_of_simulator? simulated
    split at ends
    · rename_i d fault after named called
      obtain ⟨count, same⟩ := Bool.and_eq_true_iff.mp ends
      cases eq_of_beq same
      exact ⟨program, s, d, after, compiled, created, named, (eq_of_beq count).symm, called⟩
    · cases ends

theorem endsInSurplus_surplusText : endsInSurplus surplusText = true := by
  decide +kernel

theorem mislinked_iff_miscalls_surplusText : ∃ program s linked after,
    surplusText.compile .default = .ok program ∧ Simulator.create program .default = .ok s ∧
    surplusText.linked = .ok linked ∧
    Simulator.call s 10 "zg" [.int 1] = some (.error (.arityMismatch "zf" 1 2), after) ∧
    (∃ e callee given, s.Stage "zg" [.int 1] e ∧ e.Miscalls program callee given) ∧
    ¬ linked.tree.WellCounted := by
  obtain ⟨program, s, d, after, compiled, created, named, count, called⟩ :=
    exists_of_endsInSurplus endsInSurplus_surplusText
  obtain ⟨linked, isLinked, calls⟩ := mislinked_iff_miscalls compiled created
  obtain ⟨⟨comes, _back⟩, _ends, none⟩ :=
    calls s.machine "zg" [.int 1] d 10 _ after named count called
  have failed : ∃ fault, (.error (.arityMismatch "zf" 1 2) : Except RunFault Value) = .error fault ∧
      fault.Mislinked := ⟨_, rfl, trivial⟩
  exact ⟨program, s, linked, after, compiled, created, isLinked, called, comes failed,
    fun wellCounted => none wellCounted failed⟩

/-- A call that fits may end in a fault of one that does not: lowering does not count the arguments
of functions. -/
theorem exists_mislinked_call : ∃ program s d fault after,
    surplusText.compile .default = .ok program ∧ Simulator.create program .default = .ok s ∧
    (program.functionId? "zg").bind program.function? = some d ∧
    [Value.int 1].length = d.params.length ∧
    Simulator.call s 10 "zg" [.int 1] = some (.error fault, after) ∧ fault.Mislinked := by
  obtain ⟨program, s, d, after, compiled, created, named, count, called⟩ :=
    exists_of_endsInSurplus endsInSurplus_surplusText
  exact ⟨program, s, d, _, after, compiled, created, named, count, called, trivial⟩

end JumpIR
