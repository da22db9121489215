import JumpIR.Compile.Pipeline
import JumpIR.Machine.Simulator
import JumpIR.Proofs.Machine.Action
import JumpIR.Proofs.Machine.Run

/-!
# Simulators

Linking binds each support definition to the operation of its symbol, which takes as many arguments.
A simulator that is created runs its program on such operations and on a fresh machine, and a call
is a run of its own.
-/

set_option autoImplicit false

namespace JumpIR

namespace Simulator

/-- The operation that a definition is bound to. -/
structure Binds (d : SupportDef) (op : Support.Operation) : Prop where
  found : Support.find? d.symbol = some op
  arity : op.arity = d.params.length

theorem binds_of_linkSupport {d : SupportDef} {op : Support.Operation}
    (linked : linkSupport d = .ok op) : Binds d op := by
  unfold linkSupport at linked
  split at linked
  · cases linked
  · rename_i known found
    split at linked
    · rename_i arity
      cases linked
      exact ⟨found, arity⟩
    · cases linked

theorem binds_of_linkSupports {defs : List SupportDef} : ∀ {ops : List Support.Operation},
    linkSupports defs = .ok ops → List.Forall₂ Binds defs ops := by
  induction defs with
  | nil =>
      intro ops linked
      cases linked
      exact .nil
  | cons d rest ih =>
      intro ops linked
      obtain ⟨op, here, linked⟩ := bind_ok linked
      obtain ⟨others, later, done⟩ := bind_ok linked
      cases done
      exact .cons (binds_of_linkSupport here) (ih later)

/-- What a program and a configuration make. -/
structure Fresh (program : Program) (config : SimConfig) (s : Simulator) : Prop where
  same : s.linked.program = program
  depth : s.linked.maxCallDepth = config.maxCallDepth
  supports : List.Forall₂ Binds program.supports s.linked.supports
  machine : ∃ values memory,
    program.defaultValues (program.registers.map (·.type)) = .ok values ∧
    config.memory.build = .ok memory ∧
    s.machine = freshMachine (program.registers.map (·.name)) values memory config.trace

theorem fresh_of_create {program : Program} {config : SimConfig} {s : Simulator}
    (created : create program config = .ok s) : Fresh program config s := by
  obtain ⟨supports, linked, created⟩ := bind_ok created
  obtain ⟨values, defaults, created⟩ := bind_ok created
  split at created
  · cases created
  · rename_i memory built
    cases created
    exact ⟨rfl, rfl, binds_of_linkSupports linked, values, memory, defaults, built, rfl⟩

/-- The operations of a simulator that is created are those of the library. -/
theorem isAction_of_create {program : Program} {config : SimConfig} {s : Simulator}
    (created : create program config = .ok s) : ∀ op ∈ s.linked.supports, op.IsAction := by
  intro op member
  obtain ⟨d, _listed, binds⟩ := exists_source (fresh_of_create created).supports member
  exact Support.isAction_of_find? binds.found

/-! ### Calls -/

/-- How a call comes to its end. -/
inductive Called (s : Simulator) (name : String) (args : List Value) :
    Except RunFault Value → Simulator → Prop where
  | unknown (absent : s.linked.program.functionId? name = none) :
      Called s name args (.error (.unknownFunction name)) s
  | refused {id : FuncId} {fault : RunFault} (named : s.linked.program.functionId? name = some id)
      (refused : s.linked.enter 0 id args = .error fault) : Called s name args (.error fault) s
  | ran {id : FuncId} {start : Activation} {count : Nat} {last : Execution}
      {result : Except RunFault Value} {m : Machine}
      (named : s.linked.program.functionId? name = some id)
      (entered : s.linked.enter 0 id args = .ok start)
      (steps : s.linked.Steps count ⟨start, [], s.machine⟩ last)
      (finished : s.linked.step last = .finished result m) :
      Called s name args result { s with machine := m }

/-- The execution is a stage of the call. -/
def Stage (s : Simulator) (name : String) (args : List Value) (e : Execution) : Prop :=
  ∃ id start count, s.linked.program.functionId? name = some id ∧
    s.linked.enter 0 id args = .ok start ∧ s.linked.Steps count ⟨start, [], s.machine⟩ e

theorem called_of_call {s after : Simulator} {budget : Nat} {name : String} {args : List Value}
    {result : Except RunFault Value} (called : s.call budget name args = some (result, after)) :
    s.Called name args result after := by
  unfold call at called
  split at called
  · rename_i absent
    cases called
    exact .unknown absent
  · rename_i id named
    obtain ⟨⟨outcome, m⟩, ended, same⟩ := Option.map_eq_some_iff.mp called
    cases same
    unfold Linked.call at ended
    split at ended
    · rename_i fault refused
      cases ended
      exact .refused named refused
    · rename_i start entered
      obtain ⟨count, last, steps, finished⟩ := Linked.exists_last_of_run ended
      exact .ran named entered steps finished

/-- A stage that ends a call ends it with its result. -/
theorem Stage.result_eq {s after : Simulator} {budget : Nat} {name : String} {args : List Value}
    {e : Execution} {result last : Except RunFault Value} {m : Machine}
    (stage : s.Stage name args e) (finished : s.linked.step e = .finished last m)
    (called : s.call budget name args = some (result, after)) : result = last := by
  obtain ⟨id, start, count, named, entered, steps⟩ := stage
  unfold call at called
  rw [named] at called
  obtain ⟨⟨outcome, m'⟩, ended, same⟩ := Option.map_eq_some_iff.mp called
  cases same
  unfold Linked.call at ended
  rw [entered] at ended
  have others := Linked.run_of_steps steps 1
  rw [Linked.run_of_finished finished 0] at others
  exact congrArg Prod.fst (Linked.run_unique ended others)

/-- The machine of a call that ended belongs to the same linked program. -/
theorem linked_of_call {s after : Simulator} {budget : Nat} {name : String}
    {args : List Value} {result : Except RunFault Value}
    (called : s.call budget name args = some (result, after)) : after.linked = s.linked := by
  cases called_of_call called with
  | unknown _ | refused _ _ | ran _ _ _ _ => rfl

end Simulator

/-- The program that a text is compiled to, and its simulator. -/
def SourceText.simulator? (source : SourceText) : Option (Program × Simulator) :=
  match source.compile .default with
  | .error _ => none
  | .ok program =>
      match Simulator.create program .default with
      | .error _ => none
      | .ok s => some (program, s)

theorem SourceText.compile_of_simulator? {source : SourceText} {program : Program} {s : Simulator}
    (found : source.simulator? = some (program, s)) :
    source.compile .default = .ok program ∧ Simulator.create program .default = .ok s := by
  unfold simulator? at found
  split at found
  · cases found
  · rename_i compiled
    split at found
    · cases found
    · rename_i created
      cases found
      exact ⟨compiled, created⟩

end JumpIR
