import JumpIR.Proofs.Lowering.Function
import JumpIR.Proofs.Program.Closed

/-!
# Where blocks lead

At every stage of a graph each block leads to blocks that are there, and a condition is the one of a
jump of the body or asks for a pending exception.
-/

set_option autoImplicit false

namespace JumpIR.Lowering.Body

variable {b : Body} {g h : Graph}

/-- The condition is asked by the body, or behind a checked call. -/
def Asks (b : Body) (cond : Operand) : Prop :=
  cond = .exception .pending ∨ ∃ stmt ∈ b.scope.decl.body, ∃ value target location,
    stmt.kind = .jump value target location ∧ b.scope.operand value = .ok cond

/-- The terminator leads to the first `size` blocks of a graph. -/
structure Leaves (b : Body) (size : Nat) (terminator : Terminator) : Prop where
  successors : ∀ id ∈ terminator.successors, id.index < size
  conds : ∀ cond x y, terminator = .branch cond x y → b.Asks cond

theorem Leaves.asks {size : Nat} {terminator : Terminator} (leaves : b.Leaves size terminator)
    {cond : Operand} (member : cond ∈ terminator.conds) : b.Asks cond := by
  cases terminator with
  | branch other x y =>
      cases List.mem_singleton.mp member
      exact leaves.conds cond x y rfl
  | _ => cases member

/-- What holds of a graph at every stage. -/
structure Bound (b : Body) (g : Graph) : Prop where
  leaders : b.leaders.length ≤ g.blocks.size
  leaves : ∀ id block, g.block? id = some block → b.Leaves g.blocks.size block.terminator
  propagate : ∀ id, g.propagate = some id → id.index < g.blocks.size
  fallOff : ∀ id, g.fallOff = some id → id.index < g.blocks.size

theorem Leaves.mono {size more : Nat} {terminator : Terminator}
    (leaves : b.Leaves size terminator) (grown : size ≤ more) : b.Leaves more terminator :=
  ⟨fun id member => Nat.lt_of_lt_of_le (leaves.successors id member) grown, leaves.conds⟩

theorem leaves_of_none {size : Nat} {terminator : Terminator}
    (none : terminator.successors = []) : b.Leaves size terminator := by
  constructor
  · intro id member
    rw [none] at member
    cases member
  · rintro cond x y rfl
    cases none

theorem leaves_goto {size : Nat} {id : BlockId} (bound : id.index < size) :
    b.Leaves size (.goto id) := by
  constructor
  · intro other member
    cases List.mem_singleton.mp member
    exact bound
  · intro cond x y impossible
    cases impossible

theorem leaves_branch {size : Nat} {cond : Operand} {x y : BlockId} (asks : b.Asks cond)
    (bound : x.index < size) (bound' : y.index < size) : b.Leaves size (.branch cond x y) := by
  constructor
  · intro id member
    rcases List.mem_cons.mp member with same | member
    · rw [same]
      exact bound
    · cases List.mem_singleton.mp member
      exact bound'
  · intro cond' x' y' same
    cases same
    exact asks

/-! ### Changes of a graph -/

theorem Bound.leaderBlock?_lt {n : Nat} {id : BlockId} (bound : b.Bound g)
    (starts : b.leaderBlock? n = some id) : id.index < g.blocks.size := by
  obtain ⟨inside, _found, _first⟩ :=
    List.findIdx?_eq_some_iff_getElem.mp (leaderBlock?_eq_some.mp starts)
  exact Nat.lt_of_lt_of_le inside bound.leaders

theorem Bound.addOp (bound : b.Bound g) (id : BlockId) (op : Op) : b.Bound (g.addOp id op) := by
  have size : (g.addOp id op).blocks.size = g.blocks.size := Array.size_modify
  refine ⟨?_, ?_, ?_, ?_⟩
  · rw [size]
    exact bound.leaders
  · intro other block found
    rw [Graph.block?_addOp] at found
    rw [size]
    split at found
    · obtain ⟨old, before, rfl⟩ := Option.map_eq_some_iff.mp found
      exact bound.leaves other old before
    · exact bound.leaves other block found
  · rw [size]
    exact bound.propagate
  · rw [size]
    exact bound.fallOff

theorem Bound.setTerminator (bound : b.Bound g) (id : BlockId) {terminator : Terminator}
    (leaves : b.Leaves g.blocks.size terminator) : b.Bound (g.setTerminator id terminator) := by
  have size : (g.setTerminator id terminator).blocks.size = g.blocks.size := Array.size_modify
  refine ⟨?_, ?_, ?_, ?_⟩
  · rw [size]
    exact bound.leaders
  · intro other block found
    rw [Graph.block?_setTerminator] at found
    rw [size]
    split at found
    · obtain ⟨old, before, rfl⟩ := Option.map_eq_some_iff.mp found
      exact leaves
    · exact bound.leaves other block found
  · rw [size]
    exact bound.propagate
  · rw [size]
    exact bound.fallOff

theorem Bound.addBlock (bound : b.Bound g) (origin : Option Nat) {terminator : Terminator}
    (none : terminator.successors = []) : b.Bound (g.addBlock origin terminator).2 := by
  have size : (g.addBlock origin terminator).2.blocks.size = g.blocks.size + 1 := Array.size_push _
  refine ⟨?_, ?_, ?_, ?_⟩
  · rw [size]
    exact Nat.le_succ_of_le bound.leaders
  · intro other block found
    rw [Graph.block?_addBlock] at found
    rw [size]
    split at found
    · cases found
      exact leaves_of_none none
    · exact (bound.leaves other block found).mono (Nat.le_succ _)
  · intro id chosen
    rw [size]
    exact Nat.lt_succ_of_lt (bound.propagate id chosen)
  · intro id chosen
    rw [size]
    exact Nat.lt_succ_of_lt (bound.fallOff id chosen)

/-! ### Stages of a body -/

theorem Bound.pushOp {op : Op} (bound : b.Bound g) (pushed : b.pushOp op g = .ok h) :
    b.Bound h := by
  unfold Body.pushOp at pushed
  split at pushed
  · cases pushed
    exact bound.addOp _ op
  · cases pushed

theorem Bound.terminate {terminator : Terminator} (bound : b.Bound g)
    (leaves : b.Leaves g.blocks.size terminator) (done : b.terminate terminator g = .ok h) :
    b.Bound h := by
  unfold Body.terminate at done
  split at done
  · rename_i id _isOpen
    cases done
    have after := bound.setTerminator id leaves
    exact ⟨after.leaders, after.leaves, after.propagate, after.fallOff⟩
  · cases done

theorem Bound.propagateBlock (bound : b.Bound g) :
    b.Bound g.propagateBlock.2 ∧ g.propagateBlock.1.index < g.propagateBlock.2.blocks.size := by
  unfold Graph.propagateBlock
  split
  · rename_i id chosen
    exact ⟨bound, bound.propagate id chosen⟩
  · have after := bound.addBlock none (show Terminator.arbitrary.successors = [] from rfl)
    have inside : (g.addBlock none .arbitrary).1.index <
        (g.addBlock none .arbitrary).2.blocks.size := by
      change g.blocks.size < (g.blocks.push _).size
      rw [Array.size_push]
      exact Nat.lt_succ_self _
    refine ⟨⟨after.leaders, after.leaves, ?_, after.fallOff⟩, inside⟩
    intro id chosen
    cases chosen
    exact inside

theorem Bound.fallOffBlock (bound : b.Bound g) :
    b.Bound (b.fallOffBlock g).2 ∧
      (b.fallOffBlock g).1.index < (b.fallOffBlock g).2.blocks.size ∧
      g.blocks.size ≤ (b.fallOffBlock g).2.blocks.size := by
  unfold Body.fallOffBlock
  split
  · rename_i id chosen
    exact ⟨bound, bound.fallOff id chosen, Nat.le_refl _⟩
  · have after := bound.addBlock none (show b.fellOff.successors = [] from rfl)
    have size : (g.addBlock none b.fellOff).2.blocks.size = g.blocks.size + 1 := Array.size_push _
    have inside : (g.addBlock none b.fellOff).1.index <
        (g.addBlock none b.fellOff).2.blocks.size := by
      rw [size]
      exact Nat.lt_succ_self _
    refine ⟨⟨after.leaders, after.leaves, after.propagate, ?_⟩, inside, ?_⟩
    · intro id chosen
      cases chosen
      exact inside
    · exact Nat.le_of_lt (size ▸ Nat.lt_succ_self _)

theorem Bound.passOn (bound : b.Bound g) (passed : b.passOn g = .ok h) : b.Bound h := by
  obtain ⟨after, exits⟩ := bound.propagateBlock
  unfold Body.passOn at passed
  generalize g.propagateBlock = chosen at after exits passed
  obtain ⟨exit, middle⟩ := chosen
  obtain ⟨closed, terminated, reopened⟩ := bind_ok passed
  cases reopened
  have grown := after.addBlock none (show (Terminator.unreachable "").successors = [] from rfl)
  have size : (middle.addBlock none (.unreachable "")).2.blocks.size = middle.blocks.size + 1 :=
    Array.size_push _
  have left := grown.terminate (leaves_branch (Or.inl rfl)
    (by rw [size]; exact Nat.lt_succ_of_lt exits)
    (by rw [size]; exact Nat.lt_succ_self _)) terminated
  exact ⟨left.leaders, left.leaves, left.propagate, left.fallOff⟩

theorem Bound.call {dest : Place} {callee : Callee} {args : List Tree.Expr} (bound : b.Bound g)
    (called : b.call dest callee args g = .ok h) : b.Bound h := by
  obtain ⟨items, _lowered, pushed⟩ := bind_ok called
  exact bound.pushOp pushed

theorem Bound.assign {index : Nat} {dest : Place} {value : Tree.Expr} (bound : b.Bound g)
    (assigned : b.assign index dest value g = .ok h) : b.Bound h := by
  unfold Body.assign at assigned
  split at assigned
  · obtain ⟨target, _found, assigned⟩ := bind_ok assigned
    split at assigned
    · obtain ⟨items, _lowered, pushed⟩ := bind_ok assigned
      exact bound.pushOp pushed
    · rename_i op
      have interned : b.Bound (g.intern op).2 := by
        unfold Graph.intern
        split <;> exact ⟨bound.leaders, bound.leaves, bound.propagate, bound.fallOff⟩
      generalize g.intern op = chosen at interned assigned
      obtain ⟨id, middle⟩ := chosen
      dsimp only at assigned
      split at assigned
      · exact interned.call assigned
      · cases assigned
    · obtain ⟨middle, called, assigned⟩ := bind_ok assigned
      split at assigned
      · exact (bound.call called).passOn assigned
      · cases assigned
        exact bound.call called
    · cases assigned
  · obtain ⟨operand, _lowered, pushed⟩ := bind_ok assigned
    exact bound.pushOp pushed

theorem Bound.openBlock (bound : b.Bound g) (index : Nat) : b.Bound (b.openBlock index g) := by
  unfold Body.openBlock
  split
  · exact bound
  · rename_i leader starts
    split
    · rename_i id _isOpen
      have after := bound.setTerminator id (leaves_goto (bound.leaderBlock?_lt starts))
      exact ⟨after.leaders, after.leaves, after.propagate, after.fallOff⟩
    · exact ⟨bound.leaders, bound.leaves, bound.propagate, bound.fallOff⟩

theorem Bound.statement {index : Nat} {stmt : Tree.Stmt} (bound : b.Bound g)
    (member : stmt ∈ b.scope.decl.body) (lowered : b.statement index stmt g = .ok h) :
    b.Bound h := by
  unfold Body.statement at lowered
  split at lowered
  · split at lowered
    · cases lowered
    · obtain ⟨middle, pushed, lowered⟩ := bind_ok lowered
      split at lowered
      · cases lowered
        exact bound.pushOp pushed
      · exact (bound.pushOp pushed).assign lowered
  · obtain ⟨dest, _placed, assigned⟩ := bind_ok lowered
    exact bound.assign assigned
  · rename_i value target location kind
    obtain ⟨cond, condition, lowered⟩ := bind_ok lowered
    obtain ⟨thenBlock, starts, lowered⟩ := bind_ok lowered
    have asks : b.Asks cond := Or.inr ⟨stmt, member, value, target, location, kind, condition⟩
    have inside := bound.leaderBlock?_lt (leaderBlock?_of_blockOf starts)
    split at lowered
    · obtain ⟨elseBlock, next, done⟩ := bind_ok lowered
      have inside' := bound.leaderBlock?_lt (leaderBlock?_of_blockOf next)
      exact bound.terminate (leaves_branch asks inside inside') done
    · obtain ⟨after, inside', grown⟩ := bound.fallOffBlock
      generalize b.fallOffBlock g = chosen at after inside' grown lowered
      obtain ⟨elseBlock, middle⟩ := chosen
      exact after.terminate (leaves_branch asks (Nat.lt_of_lt_of_le inside grown) inside') lowered
  · obtain ⟨id, starts, done⟩ := bind_ok lowered
    have inside := bound.leaderBlock?_lt (leaderBlock?_of_blockOf starts)
    exact bound.terminate (leaves_goto inside) done
  · exact bound.terminate (leaves_of_none rfl) lowered
  · exact bound.terminate (leaves_of_none rfl) lowered
  · exact bound.terminate (leaves_of_none rfl) lowered

theorem Bound.statements {stmts : List Tree.Stmt} :
    ∀ {index : Nat} {g : Graph}, b.Bound g → (∀ stmt ∈ stmts, stmt ∈ b.scope.decl.body) →
      b.statements index stmts g = .ok h → b.Bound h := by
  induction stmts with
  | nil =>
      intro index g bound _members lowered
      cases lowered
      exact bound
  | cons stmt rest ih =>
      intro index g bound members lowered
      obtain ⟨middle, first, others⟩ := bind_ok lowered
      have after := (bound.openBlock index).statement (members stmt List.mem_cons_self) first
      exact ih after (fun other member => members other (List.mem_cons_of_mem _ member)) others

theorem Bound.close (bound : b.Bound g) : b.Bound (b.close g) := by
  unfold Body.close
  split
  · rename_i id _isOpen
    have after := bound.setTerminator id (leaves_of_none (show b.fellOff.successors = [] from rfl))
    exact ⟨after.leaders, after.leaves, after.propagate, after.fallOff⟩
  · exact bound

theorem bound_ofLeaders (b : Body) (supports : List SupportDef) :
    b.Bound (.ofLeaders b.leaders supports) where
  leaders := by simp [Graph.ofLeaders]
  leaves := by
    intro id block found
    rw [block?_ofLeaders] at found
    obtain ⟨leader, _listed, rfl⟩ := Option.map_eq_some_iff.mp found
    exact leaves_of_none rfl
  propagate := by
    intro id impossible
    cases impossible
  fallOff := by
    intro id impossible
    cases impossible

theorem bound_graph {supports : List SupportDef} (lowered : b.graph supports = .ok g) :
    b.Bound g := by
  obtain ⟨_checked, _targets, lowered⟩ := bind_ok lowered
  obtain ⟨last, built, same⟩ := bind_ok lowered
  cases same
  exact ((bound_ofLeaders b supports).statements (fun _stmt member => member) built).close

/-- A body has blocks, and each of them leads to blocks of the body. -/
theorem bound_lowerBody {scope : Scope} {supports after : List SupportDef} {blocks : List Block}
    (lowered : lowerBody scope supports = .ok (blocks, after)) :
    blocks ≠ [] ∧ ∀ block ∈ blocks, scope.cut.Leaves blocks.length block.terminator := by
  unfold lowerBody at lowered
  split at lowered
  · cases lowered
    refine ⟨List.cons_ne_nil _ _, ?_⟩
    intro block member
    cases List.mem_singleton.mp member
    exact leaves_of_none rfl
  · rename_i nonempty
    obtain ⟨g, built, done⟩ := bind_ok lowered
    cases done
    have bound : scope.cut.Bound g := bound_graph built
    have first := bound.leaderBlock?_lt
      (leaderBlock?_zero rfl fun empty => nonempty (List.isEmpty_iff.mpr empty))
    constructor
    · intro empty
      rw [← Array.length_toList, empty] at first
      cases first
    · intro block member
      obtain ⟨index, here⟩ := List.getElem?_of_mem member
      rw [Array.length_toList]
      exact bound.leaves ⟨index⟩ block here

end JumpIR.Lowering.Body
