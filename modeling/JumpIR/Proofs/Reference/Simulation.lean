import JumpIR.Proofs.Machine.Simulator
import JumpIR.Proofs.Lowering.Compilation
import JumpIR.Proofs.Machine.Run
import JumpIR.Proofs.Reference.Operand

/-!
# The machine and the reference interpreter

A run of a compiled function does what the reference interpreter does with its text. One statement
of the text is one or more steps of the machine, so fuel for a number of statements never reaches
further than a budget of as many steps. Main statement: `call_outcome_iff`.
-/

set_option autoImplicit false

namespace JumpIR

/-- What the reference interpreter runs of a compiled module. -/
def Lowering.Compilation.reference (c : Lowering.Compilation) (maxCallDepth : Nat) :
    Reference.Module :=
  ⟨c.types, c.functions, maxCallDepth⟩

theorem Lowering.Compilation.reference_types (c : Lowering.Compilation) (maxCallDepth : Nat) :
    (c.reference maxCallDepth).types = c.types := rfl

/-- The program of the compilation, with its support operations found. -/
structure Lowering.Compilation.Links (c : Lowering.Compilation) (l : Linked) : Prop where
  program : l.program = c.program
  supports : Simulator.linkSupports c.program.supports = .ok l.supports

namespace Reference

open Lowering

/-! ### Ends of calls and of statements -/

/-- The step that hands the outcome of a call to the calls that wait for it. -/
def conclude (callers : List Suspended) : Linked.Outcome → Progress
  | (.ok value, m) => Linked.leave callers value m
  | (.error fault, m) => .finished (.error fault) m

/-- The innermost call of a run ends with an outcome, or not within so many steps. -/
def Ends (l : Linked) (callers : List Suspended) (budget : Nat) (e : Execution) :
    Option Linked.Outcome → Prop
  | some outcome => ∃ count last, l.Steps count e last ∧ l.step last = conclude callers outcome
  | none => l.run budget e = none

/-- A run goes on as a statement says, or not within `budget` steps and one more. -/
def Follows (l : Linked) (d : FunctionDef) (callers : List Suspended) (leads : Nat → Site → Prop)
    (budget : Nat) (e : Execution) : Option Flow → Prop
  | some (.left outcome) => Ends l callers budget e (some outcome)
  | some (.next n frame m) =>
      ∃ count s, l.Steps (count + 1) e (.atSite d frame s callers m) ∧ leads n s
  | none => l.run (budget + 1) e = none

variable {c : Compilation} {l : Linked} {f : Function} {d : FunctionDef}
  {callers : List Suspended} {budget : Nat} {leads : Nat → Site → Prop}

theorem Follows.of_left {count : Nat} {e last : Execution} (outcome : Linked.Outcome)
    (steps : l.Steps count e last) (stepped : l.step last = conclude callers outcome) :
    Follows l d callers leads budget e (some (.left outcome)) :=
  ⟨count, last, steps, stepped⟩

theorem Ends.before {count : Nat} {e middle : Execution} {outcome : Option Linked.Outcome}
    (steps : l.Steps count e middle) (ends : Ends l callers budget middle outcome) :
    Ends l callers budget e outcome := by
  cases outcome with
  | none =>
      have longer := Linked.run_of_steps steps budget
      exact Linked.run_none (Nat.le_add_left budget count) (longer.trans ends)
  | some outcome =>
      obtain ⟨more, last, steps', stepped⟩ := ends
      exact ⟨count + more, last, steps.trans steps', stepped⟩

theorem Follows.before {count : Nat} {e middle : Execution} {flow : Option Flow}
    (steps : l.Steps count e middle) (follows : Follows l d callers leads budget middle flow) :
    Follows l d callers leads budget e flow := by
  match flow with
  | none =>
      have longer := Linked.run_of_steps steps (budget + 1)
      exact Linked.run_none (Nat.le_add_left (budget + 1) count) (longer.trans follows)
  | some (.left outcome) =>
      have ends : Ends l callers budget middle (some outcome) := follows
      exact ends.before steps
  | some (.next n frame m) =>
      obtain ⟨more, s, steps', onward⟩ := follows
      exact ⟨count + more, s, steps.trans steps', onward⟩

/-! ### Calls -/

/-- Every call that runs at a site does what its statement says, as far as that fuel goes. -/
def Serves (c : Compilation) (l : Linked) (fuel : Nat) : Prop :=
  ∀ (callers : List Suspended) (f : Function) (d : FunctionDef)
    (layout : f.scope.cut.Layout d.blocks c.program.supports) (n : Nat) (frame : Frame)
    (m : Machine) (s : Site), f ∈ c.functions → Compiles c.program.supports f d →
    f.scope.cut.Leads d.blocks layout.start n s →
    Ends l callers fuel (.atSite d frame s callers m)
      (run (c.reference l.maxCallDepth) fuel (callers.length + 1) f n frame m)

theorem frame_eq (links : c.Links l) (compiles : Compiles c.program.supports f d)
    (args : List Value) :
    l.frame d args = frame (c.reference l.maxCallDepth) f args := by
  have same : l.program.unions = c.types.unions := by
    rw [links.program]
    exact c.unions
  unfold Linked.frame frame
  rw [compiles.locals, compiles.result, compiles.params, Program.defaultValues_congr same,
    Program.defaultValue_congr same]
  rfl

theorem enter_eq (links : c.Links l) {name : String} {id : FuncId}
    (known : c.functions.find? (fun f => f.name == name) = some f)
    (numbered : c.program.function? id = some d) (compiles : Compiles c.program.supports f d)
    (depth : Nat) (args : List Value) :
    l.enter depth id args =
      (enter (c.reference l.maxCallDepth) depth name args).map fun started =>
        ⟨d, started.2, ⟨0⟩, 0⟩ := by
  have known' : (c.reference l.maxCallDepth).functions.find? (fun f => f.name == name) = some f :=
    known
  unfold Linked.enter enter
  rw [links.program, numbered, known']
  dsimp only
  rw [compiles.params, List.length_map, List.length_range, compiles.name, compiles.entry,
    frame_eq links compiles]
  change _ = Except.map _ (if _ then _ else if l.maxCallDepth ≤ depth then _ else _)
  split
  · rfl
  · split
    · rfl
    · cases frame (c.reference l.maxCallDepth) f args with
      | error fault => rfl
      | ok bound => rfl

theorem enter_function {name : String} {depth : Nat} {args : List Value} {g : Function}
    {bound : Frame} {p : Module}
    (known : p.functions.find? (fun f => f.name == name) = some f)
    (entered : enter p depth name args = .ok (g, bound)) : g = f := by
  unfold enter at entered
  rw [known] at entered
  dsimp only at entered
  split at entered
  · cases entered
  · split at entered
    · cases entered
    · obtain ⟨made, _framed, done⟩ := bind_ok entered
      cases done
      rfl

theorem call_ends {fuel : Nat} (links : c.Links l) (serves : Serves c l fuel) {name : String}
    {id : FuncId} (known : c.functions.find? (fun f => f.name == name) = some f)
    (numbered : c.program.function? id = some d) (compiles : Compiles c.program.supports f d)
    (callers : List Suspended) (args : List Value) (m : Machine) :
    match l.enter callers.length id args with
    | .error fault =>
        call (c.reference l.maxCallDepth) fuel callers.length name args m = some (.error fault, m)
    | .ok a =>
        Ends l callers fuel ⟨a, callers, m⟩
          (call (c.reference l.maxCallDepth) fuel callers.length name args m) := by
  rw [enter_eq links known numbered compiles]
  unfold call
  cases entered : enter (c.reference l.maxCallDepth) callers.length name args with
  | error fault => rfl
  | ok started =>
      obtain ⟨g, bound⟩ := started
      cases enter_function known entered
      obtain ⟨layout⟩ := compiles.layout
      exact serves callers f d layout 0 bound m (Site.first ⟨0⟩) (List.mem_of_find?_eq_some known)
        compiles layout.entry

/-! ### Assignments -/

theorem unions_eq (links : c.Links l) : l.program.unions = c.types.unions := by
  rw [links.program]
  exact c.unions

theorem rightSide_value {p : Module}
    (invoke : String → List Value → Machine → Option Linked.Outcome)
    {value : Tree.Expr} {operand : Operand} (lowered : f.scope.operand value = .ok operand)
    (n : Nat) (frame : Frame) (m : Machine) :
    rightSide p invoke f value frame m = some (f.scope.evaluate p.types frame m value, m) ∧
      f.checksCall n value = false := by
  cases value with
  | call callee args span =>
      rw [Scope.operand] at lowered
      obtain ⟨target, found, lowered⟩ := bind_ok lowered
      unfold rightSide Function.checksCall
      dsimp only
      rw [found]
      match target with
      | some (.constructor union tag) => exact ⟨rfl, rfl⟩
      | some (.support op) => cases lowered
      | some (.function id mayRaise) => cases lowered
      | none => cases lowered
  | _ => exact ⟨rfl, rfl⟩

theorem rightSide_function {p : Module}
    (invoke : String → List Value → Machine → Option Linked.Outcome)
    {callee : Tree.Ident} {args : List Tree.Expr} {span : Span} {id : FuncId} {mayRaise : Bool}
    (found : f.scope.globals.target? callee.name callee.span = .ok (some (.function id mayRaise)))
    (frame : Frame) (m : Machine) :
    rightSide p invoke f (.call callee args span) frame m =
      match f.scope.evaluateAll p.types frame m args with
      | .error fault => some (.error fault, m)
      | .ok args => invoke callee.name args m := by
  unfold rightSide
  dsimp only
  generalize f.scope.globals.target? callee.name callee.span = target at found ⊢
  subst found
  rfl

theorem rightSide_support {p : Module}
    (invoke : String → List Value → Machine → Option Linked.Outcome)
    {callee : Tree.Ident} {args : List Tree.Expr} {span : Span} {op : SupportDef}
    (found : f.scope.globals.target? callee.name callee.span = .ok (some (.support op)))
    (frame : Frame) (m : Machine) :
    rightSide p invoke f (.call callee args span) frame m =
      match f.scope.evaluateAll p.types frame m args with
      | .error fault => some (.error fault, m)
      | .ok args =>
          match Support.find? op.symbol with
          | some operation => some (operation.call args m)
          | none => some (.error (.unknownSupport op.symbol), m) := by
  unfold rightSide
  dsimp only
  generalize f.scope.globals.target? callee.name callee.span = target at found ⊢
  subst found
  rfl

/-- The exceptional exit returns the default value. -/
theorem step_arbitrary {frame : Frame} {m : Machine} {s : Site} (links : c.Links l)
    (compiles : Compiles c.program.supports f d) (left : s.HasEnd d.blocks .arbitrary) :
    l.step (.atSite d frame s callers m) = conclude callers (c.types.defaultValue f.result, m) := by
  rw [Linked.step_arbitrary l frame callers m left, Program.defaultValue_congr (unions_eq links),
    compiles.result]
  cases c.types.defaultValue f.result with
  | error fault => rfl
  | ok value => rfl

theorem put_follows {fuel count n : Nat} {target : Tree.Place} {dest : Place} {value : Tree.Expr}
    {held : Value} {frame : Frame} {m : Machine} {s : Site} {e last : Execution}
    (links : c.Links l) (compiles : Compiles c.program.supports f d)
    (steps : l.Steps count e last)
    (stepped : l.step last =
      Linked.resume ⟨d, frame, s.block, s.next + 1⟩ callers (some dest) held m)
    (stores : ∀ value frame m, dest.store value frame m = f.scope.store target value frame m)
    (unchecked : f.checksCall n value = false → leads (n + 1) s.succ)
    (checked : f.checksCall n value = true → ∃ exit next,
      s.succ.HasEnd d.blocks (.branch (.exception .pending) exit next) ∧
      (Site.first exit).HasEnd d.blocks .arbitrary ∧ leads (n + 1) (Site.first next)) :
    Follows l d callers leads fuel e
      (some (put (c.reference l.maxCallDepth) f n target value held frame m)) := by
  refine Follows.before steps ?_
  unfold Linked.resume at stepped
  dsimp only at stepped
  rw [stores] at stepped
  unfold put
  cases stored : f.scope.store target held frame m with
  | error fault =>
      rw [stored] at stepped
      exact Follows.of_left (.error fault, m) (.refl _) stepped
  | ok after =>
      obtain ⟨frame', m'⟩ := after
      rw [stored] at stepped
      have there : l.Steps 1 last (.atSite d frame' s.succ callers m') := .single stepped
      dsimp only
      cases checks : f.checksCall n value with
      | false => exact ⟨0, s.succ, there, unchecked checks⟩
      | true =>
          obtain ⟨exit, next, test, exits, onward⟩ := checked checks
          have branched := Linked.step_branch l frame' callers m' test
          rw [Operand.evaluate, Machine.exceptionPart] at branched
          cases pending : m'.exception.pending with
          | false =>
              rw [pending] at branched
              exact ⟨1, Site.first next, there.trans (.single branched), onward⟩
          | true =>
              rw [pending] at branched
              refine Follows.of_left (_, m') (there.trans (.single branched)) ?_
              exact step_arbitrary links compiles exits

/-- A call of a function runs the callee, and stores its value. -/
theorem call_follows {fuel n : Nat} {target : Tree.Place} {dest : Place} {callee : Tree.Ident}
    {args : List Tree.Expr} {span : Span} {items : List Operand} {id : FuncId} {mayRaise : Bool}
    {s : Site} (links : c.Links l) (serves : Serves c l fuel) (member : f ∈ c.functions)
    (compiles : Compiles c.program.supports f d)
    (stores : ∀ value frame m, dest.store value frame m = f.scope.store target value frame m)
    (found : f.scope.globals.target? callee.name callee.span = .ok (some (.function id mayRaise)))
    (lowered : f.scope.operands args = .ok items)
    (op : s.HasOp d.blocks (.call (some dest) (.function id) items))
    (unchecked : f.checksCall n (.call callee args span) = false → leads (n + 1) s.succ)
    (checked : f.checksCall n (.call callee args span) = true → ∃ exit next,
      s.succ.HasEnd d.blocks (.branch (.exception .pending) exit next) ∧
      (Site.first exit).HasEnd d.blocks .arbitrary ∧ leads (n + 1) (Site.first next))
    (frame : Frame) (m : Machine) :
    Follows l d callers leads fuel (.atSite d frame s callers m)
      (assign (c.reference l.maxCallDepth)
        (call (c.reference l.maxCallDepth) fuel (callers.length + 1)) f n target
        (.call callee args span) frame m) := by
  have lookup := (Globals.target?_function found).1
  rw [c.inGlobals f member] at lookup
  obtain ⟨g, d', known, numbered, compiles'⟩ := Compilation.function_of_lookup lookup
  have stepped := Linked.step_call l frame callers m op
  rw [Scope.evaluateAll_operands (unions_eq links) args items lowered] at stepped
  unfold assign
  rw [rightSide_function _ found, Compilation.reference_types]
  cases held : f.scope.evaluateAll c.types frame m args with
  | error fault =>
      rw [held] at stepped
      exact Follows.of_left (.error fault, m) (.refl _) stepped
  | ok values =>
      rw [held] at stepped
      dsimp only at stepped ⊢
      let callers' : List Suspended := ⟨⟨d, frame, s.block, s.next + 1⟩, some dest⟩ :: callers
      have ends := call_ends links serves known numbered compiles' callers' values m
      have length : callers'.length = callers.length + 1 := List.length_cons
      rw [length] at ends
      cases entered : l.enter (callers.length + 1) id values with
      | error fault =>
          rw [entered] at stepped ends
          dsimp only at ends
          rw [ends]
          exact Follows.of_left (.error fault, m) (.refl _) stepped
      | ok a =>
          rw [entered] at stepped ends
          dsimp only at ends
          have first := Linked.Steps.single stepped
          generalize call (c.reference l.maxCallDepth) fuel (callers.length + 1) callee.name values m
            = outcome at ends ⊢
          cases outcome with
          | none =>
              have longer := Linked.run_of_steps first fuel
              rw [Nat.add_comm] at longer
              exact longer.trans ends
          | some returned =>
              obtain ⟨result, m'⟩ := returned
              obtain ⟨count, last, steps, ended⟩ := ends
              cases result with
              | error fault => exact Follows.of_left (.error fault, m') (first.trans steps) ended
              | ok result =>
                  exact put_follows links compiles (first.trans steps) ended stores unchecked checked

theorem value_follows {fuel n : Nat} {target : Tree.Place} {dest : Place} {value : Tree.Expr}
    {operand : Operand} {s : Site} (links : c.Links l)
    (compiles : Compiles c.program.supports f d)
    (stores : ∀ value frame m, dest.store value frame m = f.scope.store target value frame m)
    (lowered : f.scope.operand value = .ok operand)
    (op : s.HasOp d.blocks (.assign dest operand)) (onward : leads (n + 1) s.succ)
    (frame : Frame) (m : Machine) :
    Follows l d callers leads fuel (.atSite d frame s callers m)
      (assign (c.reference l.maxCallDepth)
        (call (c.reference l.maxCallDepth) fuel (callers.length + 1)) f n target value frame m) := by
  obtain ⟨right, plain⟩ := rightSide_value (p := c.reference l.maxCallDepth)
    (call (c.reference l.maxCallDepth) fuel (callers.length + 1)) lowered n frame m
  have stepped := Linked.step_assign l frame callers m op
  rw [Scope.evaluate_operand (s := f.scope) (unions_eq links) value operand lowered] at stepped
  unfold assign
  rw [right, Compilation.reference_types]
  cases held : f.scope.evaluate c.types frame m value with
  | error fault =>
      rw [held] at stepped
      exact Follows.of_left (.error fault, m) (.refl _) stepped
  | ok result =>
      rw [held] at stepped
      refine put_follows links compiles (.refl _) stepped stores (fun _ => onward) ?_
      intro checks
      cases plain.symm.trans checks

theorem support_follows {fuel n id : Nat} {target : Tree.Place} {dest : Place}
    {callee : Tree.Ident} {args : List Tree.Expr} {span : Span} {items : List Operand}
    {op : SupportDef} {s : Site} (links : c.Links l) (compiles : Compiles c.program.supports f d)
    (stores : ∀ value frame m, dest.store value frame m = f.scope.store target value frame m)
    (found : f.scope.globals.target? callee.name callee.span = .ok (some (.support op)))
    (listed : c.program.supports[id]? = some op) (lowered : f.scope.operands args = .ok items)
    (called : s.HasOp d.blocks (.call (some dest) (.support ⟨id⟩) items))
    (onward : leads (n + 1) s.succ) (frame : Frame) (m : Machine) :
    Follows l d callers leads fuel (.atSite d frame s callers m)
      (assign (c.reference l.maxCallDepth)
        (call (c.reference l.maxCallDepth) fuel (callers.length + 1)) f n target
        (.call callee args span) frame m) := by
  have stepped := Linked.step_support l frame callers m called
  rw [Scope.evaluateAll_operands (s := f.scope) (unions_eq links) args items lowered] at stepped
  have plain : f.checksCall n (.call callee args span) = false := by
    unfold Function.checksCall
    dsimp only
    rw [found]
  obtain ⟨operation, there, binds⟩ :=
    exists_source_at (Simulator.binds_of_linkSupports links.supports) listed
  unfold assign
  rw [rightSide_support _ found, Compilation.reference_types, binds.found]
  unfold Linked.callSupport at stepped
  rw [there] at stepped
  cases held : f.scope.evaluateAll c.types frame m args with
  | error fault =>
      rw [held] at stepped
      exact Follows.of_left (.error fault, m) (.refl _) stepped
  | ok values =>
      rw [held] at stepped
      dsimp only at stepped ⊢
      generalize operation.call values m = outcome at stepped ⊢
      obtain ⟨result, m'⟩ := outcome
      cases result with
      | error fault => exact Follows.of_left (.error fault, m') (.refl _) stepped
      | ok result =>
          refine put_follows links compiles (.refl _) stepped stores (fun _ => onward) ?_
          intro checks
          cases plain.symm.trans checks

theorem checksCall_function {callee : Tree.Ident} {args : List Tree.Expr} {span : Span}
    {id : FuncId}
    {mayRaise : Bool}
    (found : f.scope.globals.target? callee.name callee.span = .ok (some (.function id mayRaise)))
    (n : Nat) :
    f.checksCall n (.call callee args span) =
      (mayRaise && f.scope.globals.options.checkCalls && !f.testsPending (n + 1)) := by
  unfold Function.checksCall
  dsimp only
  generalize f.scope.globals.target? callee.name callee.span = target at found ⊢
  subst found
  rfl

/-- The code of an assignment does what the assignment says. -/
theorem assign_follows {fuel n : Nat} {target : Tree.Place} {dest : Place} {value : Tree.Expr}
    {s : Site} (links : c.Links l) (serves : Serves c l fuel) (member : f ∈ c.functions)
    (compiles : Compiles c.program.supports f d)
    (stores : ∀ value frame m, dest.store value frame m = f.scope.store target value frame m)
    (code : Body.Assigns f.scope.cut d.blocks c.program.supports (leads (n + 1)) n dest value s)
    (frame : Frame) (m : Machine) :
    Follows l d callers leads fuel (.atSite d frame s callers m)
      (assign (c.reference l.maxCallDepth)
        (call (c.reference l.maxCallDepth) fuel (callers.length + 1)) f n target value frame m) := by
  cases code with
  | value lowered op onward => exact value_follows links compiles stores lowered op onward frame m
  | @support callee args span items op id _ found arity listed lowered called onward =>
      change f.scope.globals.target? callee.name callee.span = .ok (some (.support op)) at found
      exact support_follows links compiles stores found listed lowered called onward frame m
  | @function callee args span items id mayRaise _ found lowered called unchecked onward =>
      change f.scope.globals.target? callee.name callee.span = .ok (some (.function id mayRaise))
        at found
      refine call_follows links serves member compiles stores found lowered called
        (fun _ => onward) ?_ frame m
      intro checks
      rw [checksCall_function found] at checks
      cases unchecked.symm.trans checks
  | @checked callee args span items id mayRaise exit next _ found lowered called checks test exits
      onward =>
      change f.scope.globals.target? callee.name callee.span = .ok (some (.function id mayRaise))
        at found
      refine call_follows links serves member compiles stores found lowered called ?_
        (fun _ => ⟨exit, next, test, exits, onward⟩) frame m
      intro unchecked
      rw [checksCall_function found] at unchecked
      cases checks.symm.trans unchecked

/-! ### Statements -/

/-- Declaring a local stores the default value of the type that is written there. -/
theorem step_declare (callers : List Suspended) {name : Tree.Ident} {type : Tree.TypeExpr}
    {id : LocalId} {s : Site} {known : Ty}
    (links : c.Links l) (compiles : Compiles c.program.supports f d)
    (typed : f.scope.globals.type type = .ok known)
    (declares : Declares f.scope.locals name.name known)
    (look : f.scope.local? name.name = some id) (op : s.HasOp d.blocks (.declare id))
    (frame : Frame) (m : Machine) :
    l.step (.atSite d frame s callers m) =
      match defaultOf (c.reference l.maxCallDepth) f type with
      | .error fault => .finished (.error fault) m
      | .ok value =>
          match f.scope.store (.named name []) value frame m with
          | .error fault => .finished (.error fault) m
          | .ok (frame, m) => .running (.atSite d frame s.succ callers m) := by
  obtain ⟨index, found, first, here, same⟩ := declares
  have which : id = ⟨index⟩ := by
    unfold Scope.local? at look
    rw [first] at look
    cases look
    rfl
  subst which
  rw [Linked.step_hasOp l frame callers m op]
  unfold Linked.stepOp Linked.declare defaultOf Scope.store
  dsimp only
  rw [typed, look]
  have there : (Execution.atSite d frame s callers m).current.function.locals[index]? =
      some found := by
    change d.locals[index]? = some found
    rw [compiles.locals]
    exact here
  rw [there]
  dsimp only
  rw [same, Program.defaultValue_congr (unions_eq links), Compilation.reference_types]
  cases c.types.defaultValue known with
  | error fault => rfl
  | ok value =>
      have current : (Execution.atSite d frame s callers m).current.frame = frame := rfl
      rw [current]
      unfold Place.store
      dsimp only
      cases frame.local? ⟨index⟩ with
      | error fault => rfl
      | ok old => rfl

theorem declare_follows (callers : List Suspended) {fuel : Nat} {name : Tree.Ident}
    {type : Tree.TypeExpr} {id : LocalId} {s : Site} {known : Ty} (links : c.Links l)
    (compiles : Compiles c.program.supports f d) (typed : f.scope.globals.type type = .ok known)
    (declares : Declares f.scope.locals name.name known)
    (look : f.scope.local? name.name = some id) (op : s.HasOp d.blocks (.declare id))
    (tail : Frame → Machine → Option Flow) (frame : Frame) (m : Machine)
    (onward : ∀ frame' m', l.Steps 1 (.atSite d frame s callers m)
        (.atSite d frame' s.succ callers m') →
      Follows l d callers leads fuel (.atSite d frame s callers m) (tail frame' m')) :
    Follows l d callers leads fuel (.atSite d frame s callers m)
      (match defaultOf (c.reference l.maxCallDepth) f type with
      | .error fault => some (.left (.error fault, m))
      | .ok value =>
          match f.scope.store (.named name []) value frame m with
          | .error fault => some (.left (.error fault, m))
          | .ok (frame, m) => tail frame m) := by
  have stepped := step_declare callers links compiles typed declares look op frame m
  cases fresh : defaultOf (c.reference l.maxCallDepth) f type with
  | error fault =>
      rw [fresh] at stepped
      exact Follows.of_left (.error fault, m) (.refl _) stepped
  | ok value =>
      rw [fresh] at stepped
      dsimp only at stepped ⊢
      cases stored : f.scope.store (.named name []) value frame m with
      | error fault =>
          rw [stored] at stepped
          exact Follows.of_left (.error fault, m) (.refl _) stepped
      | ok after =>
          obtain ⟨frame', m'⟩ := after
          rw [stored] at stepped
          exact onward frame' m' (.single stepped)

/-- The code of a statement does what the statement says. -/
theorem perform_follows (callers : List Suspended) {fuel n : Nat} {stmt : Tree.Stmt} {s : Site}
    (links : c.Links l)
    (serves : Serves c l fuel) (member : f ∈ c.functions)
    (compiles : Compiles c.program.supports f d) (found : f.body[n]? = some stmt)
    (starts : ∀ n id, f.scope.cut.leaderBlock? n = some id → leads n (Site.first id))
    (code : Body.Performs f.scope.cut d.blocks c.program.supports (leads (n + 1)) n stmt.kind s)
    (frame : Frame) (m : Machine) :
    Follows l d callers leads fuel (.atSite d frame s callers m)
      (perform (c.reference l.maxCallDepth)
        (call (c.reference l.maxCallDepth) fuel (callers.length + 1)) f n stmt.kind frame m) := by
  have unions := unions_eq links
  have declared := compiles.declares stmt (List.mem_of_getElem? found)
  generalize stmt.kind = kind at code declared ⊢
  cases code with
  | @declare name type id _ known op onward =>
      obtain ⟨ty, typed, declares⟩ := declared name type none rfl
      refine declare_follows callers links compiles typed declares known op
        (fun frame m => some (.next (n + 1) frame m)) frame m ?_
      intro frame' m' there
      exact ⟨0, s.succ, there, onward⟩
  | @declareInit name type value id _ known op init =>
      obtain ⟨ty, typed, declares⟩ := declared name type (some value) rfl
      have here : f.scope.place (.named name []) = .ok (.whole (.localVar id)) := by
        change f.scope.local? name.name = some id at known
        unfold Scope.place
        dsimp only
        rw [known]
        rfl
      refine declare_follows callers links compiles typed declares known op
        (fun frame m => assign _ _ f n (.named name []) value frame m) frame m ?_
      intro frame' m' there
      refine Follows.before there ?_
      exact assign_follows links serves member compiles
        (fun value frame m => Scope.store_place (s := f.scope) here value) init frame' m'
  | @assign target value dest _ lowered code =>
      exact assign_follows links serves member compiles
        (fun value frame m => Scope.store_place (s := f.scope) lowered value) code frame m
  | @jump cond target location operand thenBlock elseBlock _ lowered leader left onward =>
      have stepped := Linked.step_branch l frame callers m left
      rw [Scope.evaluate_operand (s := f.scope) unions cond operand lowered] at stepped
      unfold perform
      dsimp only
      rw [Compilation.reference_types]
      cases decided : f.scope.evaluate c.types frame m cond >>= Value.asBool with
      | error fault =>
          rw [decided] at stepped
          exact Follows.of_left (.error fault, m) (.refl _) stepped
      | ok holds =>
          rw [decided] at stepped
          cases holds with
          | true => exact ⟨0, Site.first thenBlock, .single stepped, starts target thenBlock leader⟩
          | false => exact ⟨0, Site.first elseBlock, .single stepped, onward⟩
  | @goto target id _ leader left =>
      exact ⟨0, Site.first id, .single (Linked.step_goto l frame callers m left),
        starts target id leader⟩
  | finish left =>
      exact Follows.of_left (.ok frame.result, m) (.refl _)
        (Linked.step_hasEnd l frame callers m left)
  | arbitrary left =>
      refine Follows.of_left (c.types.defaultValue f.result, m) (.refl _) ?_
      exact step_arbitrary links compiles left
  | unreachable left =>
      exact Follows.of_left (.error (.unreachable s!"{f.name}: statement {n}"), m) (.refl _)
        (Linked.step_hasEnd l frame callers m left)

/-! ### Runs -/

theorem trap_eq (f : Function) : f.scope.cut.trap = .unreachable f.endLocation := by
  unfold Body.trap Function.endLocation
  change (if f.body.isEmpty then _ else _) = _
  split <;> rfl

theorem run_succ (p : Module) (fuel depth : Nat) (f : Function) (n : Nat) (frame : Frame)
    (m : Machine) :
    run p (fuel + 1) depth f n frame m =
      match f.body[n]? with
      | none => some (.error (.unreachable f.endLocation), m)
      | some stmt =>
          match perform p (call p fuel depth) f n stmt.kind frame m with
          | none => none
          | some (.left outcome) => some outcome
          | some (.next n frame m) => run p fuel depth f n frame m :=
  rfl

/-- Fuel for one statement more is a budget of one step more. -/
theorem serves_succ {fuel : Nat} (links : c.Links l) (serves : Serves c l fuel) :
    Serves c l (fuel + 1) := by
  intro callers f d layout n frame m s member compiles leads
  rw [run_succ]
  unfold Body.Leads at leads
  cases found : f.body[n]? with
  | none =>
      have behind : ¬ n < f.scope.cut.size := Nat.not_lt.mpr (List.getElem?_eq_none_iff.mp found)
      rw [if_neg behind, trap_eq] at leads
      exact ⟨0, _, .refl _, Linked.step_hasEnd l frame callers m leads⟩
  | some stmt =>
      rw [if_pos (Body.stmt?_lt (b := f.scope.cut) found)] at leads
      -- A statement behind a block may be reached through the jump that closes that block.
      have arrives : ∃ count, l.Steps count (.atSite d frame s callers m)
          (.atSite d frame (layout.start n) callers m) := by
        rcases leads with same | ⟨id, leader, left⟩
        · rw [same]
          exact ⟨0, .refl _⟩
        · rw [layout.starts n id leader]
          exact ⟨1, .single (Linked.step_goto l frame callers m left)⟩
      obtain ⟨arrived, steps⟩ := arrives
      have starts : ∀ n id, f.scope.cut.leaderBlock? n = some id →
          f.scope.cut.Leads d.blocks layout.start n (Site.first id) := by
        intro n id leader
        unfold Body.Leads
        rw [if_pos (Body.leaderBlock?_lt rfl leader)]
        exact Or.inl (layout.starts n id leader).symm
      have follows := Follows.before steps (perform_follows callers links serves member
        compiles found starts (layout.performs n stmt found) frame m)
      change Follows l d callers _ fuel _ (perform (c.reference l.maxCallDepth)
        (call (c.reference l.maxCallDepth) fuel (callers.length + 1)) f n stmt.kind frame m)
        at follows
      dsimp only
      generalize perform (c.reference l.maxCallDepth)
        (call (c.reference l.maxCallDepth) fuel (callers.length + 1)) f n stmt.kind frame m = flow
        at follows ⊢
      match flow with
      | none => exact follows
      | some (.left outcome) => exact follows
      | some (.next n' frame' m') =>
          obtain ⟨count, s', onward, leads'⟩ := follows
          have ends := serves callers f d layout n' frame' m' s' member compiles leads'
          dsimp only
          generalize run (c.reference l.maxCallDepth) fuel (callers.length + 1) f n' frame' m'
            = outcome at ends ⊢
          cases outcome with
          | some outcome => exact ends.before onward
          | none =>
              have longer := Linked.run_of_steps onward fuel
              exact Linked.run_none (by omega) (longer.trans ends)

theorem serves_all (links : c.Links l) (fuel : Nat) : Serves c l fuel := by
  -- On the fuel of the interpreter: calls and next statements both have less of it.
  induction fuel with
  | zero =>
      intro callers f d layout n frame m s _member _compiles _leads
      rfl
  | succ fuel ih => exact serves_succ links ih

theorem linked_call_iff (links : c.Links l) {name : String} {id : FuncId}
    (named : c.program.functionId? name = some id) (args : List Value) (m : Machine)
    (outcome : Linked.Outcome) :
    (∃ budget, l.call budget id args m = some outcome) ↔
      ∃ fuel, call (c.reference l.maxCallDepth) fuel 0 name args m = some outcome := by
  obtain ⟨f, d, known, numbered, compiles⟩ := Compilation.function_of_functionId? named
  have ends := fun fuel =>
    call_ends links (serves_all links fuel) known numbered compiles [] args m
  change ∀ fuel, (match l.enter 0 id args with
    | .error fault => call _ fuel 0 name args m = some (.error fault, m)
    | .ok a => Ends l [] fuel ⟨a, [], m⟩ (call _ fuel 0 name args m)) at ends
  unfold Linked.call
  cases entered : l.enter 0 id args with
  | error fault =>
      rw [entered] at ends
      constructor
      · rintro ⟨budget, done⟩
        exact ⟨budget, (ends budget).trans done⟩
      · rintro ⟨fuel, done⟩
        exact ⟨fuel, (ends fuel).symm.trans done⟩
  | ok a =>
      rw [entered] at ends
      have concludes : ∀ fuel found,
          call (c.reference l.maxCallDepth) fuel 0 name args m = some found →
          ∃ budget, l.run budget ⟨a, [], m⟩ = some found := by
        intro fuel found done
        have ended := ends fuel
        rw [done] at ended
        obtain ⟨count, last, steps, stepped⟩ := ended
        have finished : l.step last = .finished found.1 found.2 := by
          obtain ⟨result, m'⟩ := found
          cases result with
          | error fault => exact stepped
          | ok value => exact stepped
        exact ⟨count + 1, (Linked.run_of_steps steps 1).trans (Linked.run_of_finished finished 0)⟩
      constructor
      · rintro ⟨budget, done⟩
        refine ⟨budget, ?_⟩
        have ended := ends budget
        cases found : call (c.reference l.maxCallDepth) budget 0 name args m with
        | none =>
            rw [found] at ended
            cases done.symm.trans ended
        | some other =>
            obtain ⟨more, done'⟩ := concludes budget other found
            rw [Linked.run_unique done done']
      · rintro ⟨fuel, done⟩
        exact concludes fuel outcome done

end Reference

end JumpIR
