import JumpIR.Proofs.Exception.MayRaise

/-!
# Checked calls

Where calls are checked and the flag is assigned by literals only, no code runs past a call that has
raised: the function tests the flag next, and leaves or handles the exception. Main statement:
`branch_of_raised_call`.
-/

set_option autoImplicit false

namespace JumpIR

open Lowering

namespace Linked

/-- Control goes from one block to the next without any operation. -/
inductive Drifts (l : Linked) : Execution → Execution → Prop where
  | here (e : Execution) : Drifts l e e
  | goto {e last : Execution} {target : BlockId}
      (left : e.site.HasEnd e.current.function.blocks (.goto target))
      (stepped : l.step e = .running (e.jump target)) (others : Drifts l (e.jump target) last) :
      Drifts l e last

end Linked

variable {c : Compilation} {l : Linked}

/-! ### Functions of a run -/

/-- A function of the program whose result has a default value. -/
def Linked.Entered (l : Linked) (d : FunctionDef) : Prop :=
  d ∈ l.program.functions ∧ ∃ value, l.program.defaultValue d.result = .ok value

theorem entered_of_enter {depth : Nat} {id : FuncId} {args : List Value} {a : Activation}
    (entered : l.enter depth id args = .ok a) : l.Entered a.function := by
  obtain ⟨found, _block, _next, defaulted⟩ := Linked.enter_ok entered
  exact ⟨List.mem_of_getElem? found, defaulted⟩

theorem closed_entered (l : Linked) : l.Closed l.Entered := by
  intro d dest id depth args a _held _called entered
  exact entered_of_enter entered

theorem entered_of_steps {id : FuncId} {args : List Value} {start : Activation} {machine : Machine}
    {count : Nat} {e : Execution} (entered : l.enter 0 id args = .ok start)
    (steps : l.Steps count ⟨start, [], machine⟩ e) : l.Entered e.current.function := by
  have within : Linked.Within l.Entered [] ⟨start, [], machine⟩ := by
    refine ⟨entered_of_enter entered, [], rfl, ?_⟩
    intro u member
    cases member
  exact (Linked.within_steps (closed_entered l) steps within).current

/-! ### Calls that raise -/

theorem not_storesFlag_of_call (literals : FlagsByLiteral c.linked.tree) {e : Execution}
    (member : e.current.function ∈ c.program.functions) {dest : Option Place} {callee : Callee}
    {args : List Operand} (call : e.site.HasOp e.current.function.blocks (.call dest callee args)) :
    ¬ e.StoresFlag := by
  obtain ⟨f, memberToo, compiles⟩ := Compilation.exists_compiles member
  have other := Compilation.not_flag_of_call literals memberToo compiles call
  unfold Execution.StoresFlag
  rw [Execution.storesInto?_of_hasOp call]
  cases callee with
  | support id => exact other
  | function id =>
      rintro ⟨place, impossible, _root⟩
      cases impossible

/-- A support operation that completes has left the flag alone. -/
theorem pending_of_support (links : c.Links l) (literals : FlagsByLiteral c.linked.tree)
    {e after : Execution} (member : e.current.function ∈ c.program.functions) {dest : Option Place}
    {id : SupportId} {args : List Operand}
    (call : e.site.HasOp e.current.function.blocks (.call dest (.support id) args))
    (completed : l.Completes e after) :
    after.machine.exception.pending = e.machine.exception.pending := by
  obtain ⟨first, stepped, above⟩ := completed
  have kept := Linked.pending_of_step (keepsException_of_links links) stepped
    (not_storesFlag_of_call literals member call)
  have flat : first.depth = e.depth := by
    have same := Linked.step_support l e.current.frame e.callers e.machine call
    have stepped' := same.symm.trans stepped
    split at stepped'
    · cases stepped'
    · split at stepped'
      · cases stepped'
      · unfold Execution.depth
        rw [(Linked.within_of_resume stepped').2.2.2]
  cases above with
  | here back => exact kept
  | deeper deep => omega

theorem callee_of_completes {e after : Execution} {dest : Option Place} {id : FuncId}
    {args : List Operand}
    (call : e.site.HasOp e.current.function.blocks (.call dest (.function id) args))
    (completed : l.Completes e after) :
    ∃ values callee, l.enter e.depth id values = .ok callee ∧
      l.Above e.depth
        ⟨callee, ⟨{ e.current with next := e.current.next + 1 }, dest⟩ :: e.callers, e.machine⟩
        after := by
  obtain ⟨first, stepped, above⟩ := completed
  have same := Linked.step_call l e.current.frame e.callers e.machine call
  have stepped' := same.symm.trans stepped
  split at stepped'
  · cases stepped'
  · rename_i values _evaluated
    split at stepped'
    · cases stepped'
    · rename_i callee entered
      cases stepped'
      exact ⟨values, callee, entered, above⟩

/-- Only a function that may raise leaves an exception pending behind its call. -/
theorem mayRaise_of_raised_call (links : c.Links l) (literals : FlagsByLiteral c.linked.tree)
    {e after : Execution} (member : e.current.function ∈ c.program.functions) {dest : Option Place}
    {id : FuncId} {args : List Operand}
    (call : e.site.HasOp e.current.function.blocks (.call dest (.function id) args))
    (unraised : e.machine.exception.pending = false) (completed : l.Completes e after)
    (raised : after.machine.exception.pending = true) :
    ∃ d, c.program.function? id = some d ∧ d.mayRaise = true := by
  obtain ⟨values, callee, entered, above⟩ := callee_of_completes call completed
  have runs := (Linked.enter_ok entered).1
  rw [links.program] at runs
  refine ⟨callee.function, runs, ?_⟩
  -- A callee that is not said to raise keeps the flag clear all the way up to its return.
  by_contra quiet
  have calm : callee.function.mayRaise = false := Bool.eq_false_iff.mpr quiet
  obtain ⟨f, memberToo, compiles⟩ := Compilation.exists_compiles member
  let u : Suspended := ⟨{ e.current with next := e.current.next + 1 }, dest⟩
  have bottom : ¬ Linked.IsFlag ((u :: e.callers).head?.bind (·.dest)) :=
    Compilation.not_flag_of_call literals memberToo compiles call
  let Silent : Execution → Prop := fun stage => stage.machine.exception.pending = false
  have keeps : ∀ stage next, Linked.Within c.program.Calm (u :: e.callers) stage → Silent stage →
      l.step stage = .running next → Linked.Within c.program.Calm (u :: e.callers) next →
      Silent next := by
    intro stage next within silent stepped _within'
    by_cases stores : stage.StoresFlag
    · obtain ⟨truth, assigns⟩ :=
        assignsTruth_of_stores literals (fun d held => held.1) within bottom stores
      cases truth_of_calm within stores assigns
      exact Linked.pending_of_assignsTruth stepped stores assigns
    · exact (Linked.pending_of_step (keepsException_of_links links) stepped stores).trans silent
  have within : Linked.Within c.program.Calm (u :: e.callers)
      ⟨callee, u :: e.callers, e.machine⟩ := by
    refine ⟨⟨List.mem_of_getElem? runs, calm⟩, [], rfl, ?_⟩
    intro v impossible
    cases impossible
  obtain ⟨before, _within, silent, _callers, value, left⟩ :=
    Linked.returns_of_above (closed_calm links) Silent keeps above within unraised
  have same := Linked.pending_of_leave bottom left
  cases raised.symm.trans (same.trans silent)

theorem site_of_completes {e after : Execution} {dest : Option Place} {id : FuncId}
    {args : List Operand}
    (call : e.site.HasOp e.current.function.blocks (.call dest (.function id) args))
    (completed : l.Completes e after) :
    after.current.function = e.current.function ∧ after.site = e.site.succ ∧
      after.callers = e.callers := by
  obtain ⟨values, callee, entered, above⟩ := callee_of_completes call completed
  let u : Suspended := ⟨{ e.current with next := e.current.next + 1 }, dest⟩
  have within : Linked.Within l.Entered (u :: e.callers) ⟨callee, u :: e.callers, e.machine⟩ := by
    refine ⟨entered_of_enter entered, [], rfl, ?_⟩
    intro v impossible
    cases impossible
  obtain ⟨before, _within, _true, _callers, value, left⟩ :=
    Linked.returns_of_above (closed_entered l) (fun _ => True) (fun _ _ _ _ _ _ => trivial) above
      within trivial
  obtain ⟨function, block, next, callers⟩ := Linked.within_of_resume left
  refine ⟨function, ?_, callers⟩
  unfold Execution.site Site.succ
  rw [block, next]

/-! ### What the frame does next -/

/-- The frame `after` tests the flag before any operation, and then takes the block `taken`. -/
def Linked.TestsFlag (l : Linked) (after : Execution) (taken : BlockId) : Prop :=
  ∃ branch other, l.Drifts after branch ∧
    branch.site.HasEnd branch.current.function.blocks
      (.branch (.exception .pending) taken other) ∧
    l.step branch = .running (after.jump taken)

theorem testsFlag_here (after : Execution) {taken other : BlockId}
    (raised : after.machine.exception.pending = true)
    (test : after.site.HasEnd after.current.function.blocks
      (.branch (.exception .pending) taken other)) : l.TestsFlag after taken := by
  refine ⟨after, other, .here after, test, ?_⟩
  have stepped := Linked.step_branch l after.current.frame after.callers after.machine test
  rw [Operand.evaluate, Machine.exceptionPart, raised] at stepped
  exact stepped

theorem testsFlag_behind {after : Execution} {id taken other : BlockId}
    (raised : after.machine.exception.pending = true)
    (left : after.site.HasEnd after.current.function.blocks (.goto id))
    (test : (Site.first id).HasEnd after.current.function.blocks
      (.branch (.exception .pending) taken other)) : l.TestsFlag after taken := by
  have jumped : l.step after = .running (after.jump id) :=
    Linked.step_goto l after.current.frame after.callers after.machine left
  obtain ⟨branch, other', drifts, ends, stepped⟩ :=
    testsFlag_here (l := l) (after.jump id) raised test
  exact ⟨branch, other', .goto left jumped drifts, ends, stepped⟩

/-- The block takes the exceptional exit, and nothing else: the frame returns the default value of
its type, with the flag as it is. -/
def Linked.Exits (l : Linked) (after : Execution) (taken : BlockId) : Prop :=
  ∃ block value, after.current.function.block? taken = some block ∧ block.ops = [] ∧
    block.terminator = .arbitrary ∧
    l.program.defaultValue after.current.function.result = .ok value ∧
    l.step (after.jump taken) = Linked.leave after.callers value after.machine

theorem exits_of_hasEnd {after : Execution} {exit : BlockId}
    (held : l.Entered after.current.function)
    (exits : (Site.first exit).HasEnd after.current.function.blocks .arbitrary) :
    l.Exits after exit := by
  obtain ⟨value, defaulted⟩ := held.2
  have stepped := Linked.step_arbitrary l after.current.frame after.callers after.machine exits
  rw [defaulted] at stepped
  obtain ⟨block, found, atEnd, left⟩ := exits
  exact ⟨block, value, found, List.eq_nil_of_length_eq_zero atEnd.symm, left, defaulted, stepped⟩

/-- The statement, if there is one, jumps to statement `target` on a pending exception. -/
def JumpsOnFlag (stmt : Option Tree.Stmt) (target : Nat) : Prop :=
  ∃ span location region,
    stmt = some ⟨.jump (.exception .pending span) target location, region⟩

theorem exists_jumpsOnFlag {b : Body} {n : Nat} (tests : b.testsFlag n = true) :
    ∃ target, JumpsOnFlag (b.stmt? n) target := by
  unfold Body.testsFlag at tests
  split at tests
  · rename_i span target location region found
    exact ⟨target, span, location, region, found⟩
  · cases tests

theorem testsFlag_of_jumpsOnFlag {f : Reference.Function} (after : Execution)
    (layout : f.scope.cut.Layout after.current.function.blocks c.program.supports) {n target : Nat}
    (raised : after.machine.exception.pending = true)
    (onward : f.scope.cut.Leads after.current.function.blocks layout.start n after.site)
    (jumps : JumpsOnFlag (f.scope.cut.stmt? n) target) :
    ∃ taken, l.TestsFlag after taken ∧
      ∃ block, after.current.function.block? taken = some block ∧ block.origin = some target := by
  obtain ⟨span, location, region, found⟩ := jumps
  have code := layout.performs n _ found
  unfold Body.Leads at onward
  rw [if_pos (Body.stmt?_lt found)] at onward
  generalize starts : layout.start n = start at code onward
  cases code with
  | @jump cond target location operand thenBlock elseBlock _ lowered leader left behind =>
      rw [Scope.operand] at lowered
      cases lowered
      refine ⟨thenBlock, ?_, layout.origins target thenBlock leader⟩
      rcases onward with same | ⟨id, first, goes⟩
      · exact testsFlag_here after raised (same ▸ left)
      · rw [← starts, layout.starts n id first] at left
        exact testsFlag_behind raised goes left

/-- Where calls are checked and the flag is assigned by literals only, a call that completes and has
raised is followed by a test of the flag, before any other operation of its frame. The test leads to
the target of the jump on the flag that is the next statement, or to the exceptional exit. -/
theorem branch_of_raised_call {source : SourceText} {options : Options} {program : Program}
    {config : SimConfig} {s : Simulator} {linked : LinkedModule}
    (compiled : source.compile options = .ok program)
    (created : Simulator.create program config = .ok s) (checks : options.checkCalls = true)
    (isLinked : source.linked = .ok linked) (literals : FlagsByLiteral linked.tree)
    {id : FuncId} {args : List Value} {start : Activation} {machine : Machine} {count : Nat}
    {e after : Execution} (entered : s.linked.enter 0 id args = .ok start)
    (reached : s.linked.Steps count ⟨start, [], machine⟩ e) {dest : Option Place} {callee : Callee}
    {items : List Operand}
    (call : e.site.HasOp e.current.function.blocks (.call dest callee items))
    (unraised : e.machine.exception.pending = false) (completed : s.linked.Completes e after)
    (raised : after.machine.exception.pending = true) :
    ∃ f : Reference.Function, f.scope.decl ∈ linked.tree.functions ∧
      Compiles program.supports f e.current.function ∧
      ∀ layout : f.scope.cut.Layout e.current.function.blocks program.supports,
        ∃ n stmt place value, f.body[n]? = some stmt ∧
          (e.site = layout.start n ∨ e.site = (layout.start n).succ) ∧ dest = some place ∧
          f.scope.cut.Sets stmt.kind place value ∧
          ∃ taken, s.linked.TestsFlag after taken ∧
            ((∃ target, JumpsOnFlag f.body[n + 1]? target ∧
              ∃ block, e.current.function.block? taken = some block ∧ block.origin = some target) ∨
            s.linked.Exits after taken) := by
  obtain ⟨c, isLinked', rfl, rfl⟩ := exists_compilation compiled
  cases isLinked'.symm.trans isLinked
  have links := (Reference.links_of_create created).1
  have held := entered_of_steps entered reached
  have member : e.current.function ∈ c.program.functions := links.program ▸ held.1
  obtain ⟨f, memberToo, compiles⟩ := Compilation.exists_compiles member
  refine ⟨f, Compilation.decl_mem memberToo, compiles, ?_⟩
  intro layout
  cases callee with
  | support op =>
      have kept := pending_of_support links literals member call completed
      cases raised.symm.trans (kept.trans unraised)
  | function number =>
      obtain ⟨d, numbered, raises⟩ :=
        mayRaise_of_raised_call links literals member call unraised completed raised
      obtain ⟨function, site, callers⟩ := site_of_completes call completed
      obtain ⟨n, stmt, found, ⟨_, impossible⟩ | ⟨place, value, sets, code, where'⟩⟩ :=
        layout.operation call
      · cases impossible
      · obtain ⟨⟨fn, frame, block, next⟩, callers', m⟩ := after
        change fn = e.current.function at function
        subst function
        cases code with
        | value lowered op onward => cases Site.hasOp_unique call op
        | support known arity listed lowered op onward => cases Site.hasOp_unique call op
        | @function name args' span items' number' mayRaise _ known lowered op unchecked onward =>
            cases Site.hasOp_unique call op
            have same : mayRaise = true :=
              (Compilation.mayRaise_of_target memberToo known numbered).1.symm.trans raises
            have tests : f.scope.cut.testsFlag (n + 1) = true := by
              change (mayRaise && f.scope.globals.options.checkCalls &&
                !f.scope.cut.testsFlag (n + 1)) = false at unchecked
              rw [same, c.inGlobals f memberToo, c.options_eq, checks] at unchecked
              simpa using unchecked
            obtain ⟨target, jumps⟩ := exists_jumpsOnFlag tests
            obtain ⟨taken, test, leadsTo⟩ :=
              testsFlag_of_jumpsOnFlag (l := s.linked)
                ⟨⟨e.current.function, frame, block, next⟩, callers', m⟩ layout raised
                (site ▸ onward) jumps
            exact ⟨n, stmt, place, _, found, where', rfl, sets, taken, test,
              Or.inl ⟨target, jumps, leadsTo⟩⟩
        | @checked name args' span items' number' mayRaise exit next' _ known lowered op checked
            test exits onward =>
            cases Site.hasOp_unique call op
            refine ⟨n, stmt, place, _, found, where', rfl, sets, exit, ?_, Or.inr ?_⟩
            · exact testsFlag_here _ raised (site ▸ test)
            · exact exits_of_hasEnd held exits

/-- Whether the operation that comes so many steps behind the start of a function of the text is a
call that raises, in a text that assigns the flag by literals only. -/
def raisesInCall (source : SourceText) (id : FuncId) (args : List Value) (count : Nat) : Bool :=
  match source.linked, source.simulator? with
  | .ok linked, some (_, s) =>
      match s.linked.enter 0 id args with
      | .error _ => false
      | .ok start =>
          match s.linked.advance count ⟨start, [], s.machine⟩ with
          | none => false
          | some e =>
              match s.linked.step e, e.current.function.blocks[e.current.block.index]? with
              | .running first, some block =>
                  match s.linked.back? e.depth 10 first, block.ops[e.current.next]? with
                  | some after, some (.call _ _ _) =>
                      (linked.tree.functions.all fun decl => decl.body.all flagByLiteral) &&
                        !e.machine.exception.pending && after.machine.exception.pending
                  | _, _ => false
              | _, _ => false
  | _, _ => false

theorem exists_of_raisesInCall {source : SourceText} {id : FuncId} {args : List Value} {count : Nat}
    (raises : raisesInCall source id args count = true) :
    ∃ program s linked start e after dest callee items,
      source.compile .default = .ok program ∧ Simulator.create program .default = .ok s ∧
      source.linked = .ok linked ∧ FlagsByLiteral linked.tree ∧
      s.linked.enter 0 id args = .ok start ∧
      s.linked.Steps count ⟨start, [], s.machine⟩ e ∧
      e.site.HasOp e.current.function.blocks (.call dest callee items) ∧
      e.machine.exception.pending = false ∧ s.linked.Completes e after ∧
      after.machine.exception.pending = true := by
  unfold raisesInCall at raises
  split at raises
  · rename_i linked program s isLinked simulated
    obtain ⟨compiled, created⟩ := SourceText.compile_of_simulator? simulated
    split at raises
    · cases raises
    · rename_i start entered
      split at raises
      · cases raises
      · rename_i e reached
        split at raises
        · rename_i first block stepped found
          split at raises
          · rename_i after dest callee items back call
            simp only [Bool.and_eq_true, Bool.not_eq_true'] at raises
            have completed : s.linked.Completes e after :=
              ⟨first, stepped, Linked.above_of_back? back⟩
            exact ⟨program, s, linked, start, e, after, dest, callee, items, compiled, created,
              isLinked, flagsByLiteral_of_all raises.1.1, entered, Linked.steps_of_advance reached,
              ⟨block, found, call⟩, raises.1.2, completed, raises.2⟩
          · cases raises
        · cases raises
  · cases raises

theorem throwText_raisesInCall : raisesInCall throwText ⟨1⟩ [.bool true] 1 = true := by
  decide +kernel

theorem branch_of_raised_call_throwText : ∃ (program : Program) (s : Simulator)
    (e after : Execution) (taken : BlockId), throwText.compile .default = .ok program ∧
    Simulator.create program .default = .ok s ∧ s.linked.Completes e after ∧
    e.machine.exception.pending = false ∧
    after.machine.exception.pending = true ∧ s.linked.TestsFlag after taken := by
  obtain ⟨program, s, linked, start, e, after, dest, callee, items, compiled, created, isLinked,
    literals, entered, steps, call, unraised, completed, raised⟩ :=
    exists_of_raisesInCall throwText_raisesInCall
  obtain ⟨f, _member, compiles, flagTested⟩ := branch_of_raised_call compiled created rfl isLinked
    literals entered steps call unraised completed raised
  obtain ⟨layout⟩ := compiles.layout
  obtain ⟨_n, _stmt, _place, _value, _found, _site, _dest, _sets, taken, tested, _leads⟩ :=
    flagTested layout
  exact ⟨program, s, e, after, taken, compiled, created, completed, unraised, raised, tested⟩

end JumpIR
