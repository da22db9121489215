import JumpIR.Proofs.Machine.Stop
import JumpIR.Proofs.Machine.Flag
import JumpIR.Proofs.Value.Path

/-!
# Stores as a lens

A place is a root and a path below it. `PlaceRoot.read` and `PlaceRoot.put` look at a root and
exchange all of it; a store reads the root, exchanges one part of what it held, and puts the result
back. `Place.store_lens` says what the places then read: the stored part is the stored value, and
everything beside it is as it was.

The pending flag and the location are no such roots. They take values of one shape only, and a path
below them means nothing.
-/

set_option autoImplicit false

namespace JumpIR

/-! ### Roots -/

theorem Frame.local?_ok {f : Frame} {id : LocalId} {value : Value} :
    f.local? id = .ok value ↔ f.locals[id.index]? = some value := by
  unfold local?
  cases f.locals[id.index]? <;> simp

theorem Machine.register?_ok {m : Machine} {id : RegisterId} {value : Value} :
    m.register? id = .ok value ↔ m.registers[id.index]? = some value := by
  unfold register?
  cases m.registers[id.index]? <;> simp

theorem Machine.thrown_ok {m : Machine} {value : Value} :
    m.exceptionPart .thrown = .ok value ↔ m.exception.thrown = some value := by
  unfold exceptionPart
  cases m.exception.thrown <;> simp

namespace PlaceRoot

/-- The roots that hold values of every shape. -/
def TakesAny : PlaceRoot → Prop
  | .localVar _ | .register _ | .result | .exception .thrown => True
  | .exception .pending | .exception .location => False

/-- Whether there is such a root. The exception state is there before anything is thrown. -/
def Exists (root : PlaceRoot) (f : Frame) (m : Machine) : Prop :=
  match root with
  | .localVar id => id.index < f.locals.length
  | .register id => id.index < m.registers.length
  | .result | .exception _ => True

def read (root : PlaceRoot) (f : Frame) (m : Machine) : Except RunFault Value :=
  match root with
  | .localVar id => f.local? id
  | .register id => m.register? id
  | .result => .ok f.result
  | .exception part => m.exceptionPart part

/-- The operand that is the value of a root; a result under construction cannot be read. -/
def operand? : PlaceRoot → Option Operand
  | .localVar id => some (.localVar id)
  | .register id => some (.register id)
  | .exception part => some (.exception part)
  | .result => none

theorem evaluate_operand? {root : PlaceRoot} {operand : Operand} (p : Program) (f : Frame)
    (m : Machine) (named : root.operand? = some operand) :
    operand.evaluate p f m = root.read f m := by
  cases root with
  | result => cases named
  | _ =>
      cases named
      rw [Operand.evaluate]
      rfl

/-- The frame and the machine with another value in the root. -/
def put (root : PlaceRoot) (new : Value) (f : Frame) (m : Machine) : Frame × Machine :=
  match root with
  | .localVar id => ({ f with locals := f.locals.set id.index new }, m)
  | .register id => (f, m.setRegister id.index new)
  | .result => ({ f with result := new }, m)
  | .exception .thrown => (f, { m with exception := { m.exception with thrown := some new } })
  | .exception .pending | .exception .location => (f, m)

variable {root : PlaceRoot} {f : Frame} {m : Machine} {old new : Value}

theorem exists_of_read (root : PlaceRoot) (held : root.read f m = .ok old) : root.Exists f m := by
  cases root with
  | localVar id => exact (List.getElem?_eq_some_iff.mp (Frame.local?_ok.mp held)).choose
  | register id => exact (List.getElem?_eq_some_iff.mp (Machine.register?_ok.mp held)).choose
  | result | exception part => trivial

/-- Of the roots that are there, only the thrown value may hold nothing. -/
theorem read_of_exists (there : root.Exists f m)
    (thrown : root = .exception .thrown → m.exception.thrown ≠ none) :
    Succeeds (root.read f m) := by
  cases root with
  | localVar id => exact ⟨_, Frame.local?_ok.mpr (List.getElem?_eq_getElem there)⟩
  | register id => exact ⟨_, Machine.register?_ok.mpr (List.getElem?_eq_getElem there)⟩
  | result => exact ⟨f.result, rfl⟩
  | exception part =>
      cases part with
      | pending | location => exact ⟨_, rfl⟩
      | thrown =>
          cases held : m.exception.thrown with
          | none => exact absurd held (thrown rfl)
          | some value => exact ⟨value, Machine.thrown_ok.mpr held⟩

end PlaceRoot

namespace Machine

@[simp] theorem registers_setRegister (m : Machine) (index : Nat) (new : Value) :
    (m.setRegister index new).registers = m.registers.set index new :=
  (keeps_noteRegister _ index).registers

/-- What a store into register `index` leaves of a machine, its registers and its events apart. -/
structure SparesBeside (m after : Machine) : Prop where
  memory : after.memory = m.memory
  output : after.output = m.output
  reservation : after.reservation = m.reservation
  registerNames : after.registerNames = m.registerNames
  trace : after.trace = m.trace

theorem sparesBeside_setRegister (m : Machine) (index : Nat) (new : Value) :
    m.SparesBeside (m.setRegister index new) := by
  unfold setRegister noteRegister
  split
  · split <;> exact ⟨rfl, rfl, rfl, rfl, rfl⟩
  · exact ⟨rfl, rfl, rfl, rfl, rfl⟩

/-- The event of a register write, which is kept if the trace asks for it. -/
theorem events_setRegister {m : Machine} {index : Nat} (bound : index < m.registers.length)
    (new : Value) :
    (m.setRegister index new).events = m.events ∨
      ∃ name, m.trace.registers = true ∧ m.registerNames[index]? = some name ∧
        (m.setRegister index new).events = m.events.push (.register name new) := by
  have here : (m.registers.set index new)[index]? = some new := List.getElem?_set_self bound
  cases asked : m.trace.registers with
  | false =>
      left
      simp [setRegister, noteRegister, asked]
  | true =>
      cases known : m.registerNames[index]? with
      | none =>
          left
          simp [setRegister, noteRegister, asked, known]
      | some name =>
          right
          exact ⟨name, rfl, rfl, by simp [setRegister, noteRegister, asked, known, here, record]⟩

end Machine

/-! ### Putting a value into a root -/

namespace PlaceRoot

variable {root : PlaceRoot} {f : Frame} {m : Machine} {old new : Value}

theorem read_put (new : Value) (takes : root.TakesAny) (there : root.Exists f m) :
    root.read (root.put new f m).1 (root.put new f m).2 = .ok new := by
  cases root with
  | localVar id => exact Frame.local?_ok.mpr (List.getElem?_set_self there)
  | register id =>
      refine Machine.register?_ok.mpr ?_
      rw [put, Machine.registers_setRegister]
      exact List.getElem?_set_self there
  | result => rfl
  | exception part =>
      cases part with
      | thrown => rfl
      | pending | location => cases takes

theorem read_put_of_ne {other : PlaceRoot} (apart : other ≠ root) :
    other.read (root.put new f m).1 (root.put new f m).2 = other.read f m := by
  cases root with
  | result => cases other <;> first | rfl | exact absurd rfl apart
  | localVar id =>
      cases other with
      | localVar id' =>
          have distinct : id.index ≠ id'.index := fun same =>
            apart (by cases id; cases id'; cases same; rfl)
          simp only [read, put, Frame.local?, List.getElem?_set_ne distinct]
      | _ => rfl
  | register id =>
      cases other with
      | register id' =>
          have distinct : id.index ≠ id'.index := fun same =>
            apart (by cases id; cases id'; cases same; rfl)
          simp only [read, put, Machine.register?, Machine.registers_setRegister,
            List.getElem?_set_ne distinct]
      | exception part =>
          cases part <;> simp only [read, put, Machine.exceptionPart, Machine.exception_setRegister]
      | _ => rfl
  | exception part =>
      cases part with
      | pending | location => rfl
      | thrown =>
          cases other with
          | exception part => cases part <;> first | rfl | exact absurd rfl apart
          | _ => rfl

/-- To put back what a root holds changes nothing, an event apart. -/
theorem put_of_read (held : root.read f m = .ok old) :
    (root.put old f m).1 = f ∧ (root.put old f m).2.registers = m.registers ∧
      (root.put old f m).2.exception = m.exception := by
  cases root with
  | localVar id =>
      obtain ⟨bound, rfl⟩ := List.getElem?_eq_some_iff.mp (Frame.local?_ok.mp held)
      exact ⟨congrArg (Frame.mk · f.result) (List.set_getElem_self bound), rfl, rfl⟩
  | register id =>
      obtain ⟨bound, rfl⟩ := List.getElem?_eq_some_iff.mp (Machine.register?_ok.mp held)
      exact ⟨rfl, (m.registers_setRegister _ _).trans (List.set_getElem_self bound),
        m.exception_setRegister _ _⟩
  | result =>
      cases held
      exact ⟨rfl, rfl, rfl⟩
  | exception part =>
      cases part with
      | pending | location => exact ⟨rfl, rfl, rfl⟩
      | thrown =>
          refine ⟨rfl, rfl, ?_⟩
          unfold put
          rw [← Machine.thrown_ok.mp held]

theorem length_put :
    (root.put new f m).1.locals.length = f.locals.length ∧
      (root.put new f m).2.registers.length = m.registers.length := by
  cases root with
  | localVar id => exact ⟨List.length_set, rfl⟩
  | register id => exact ⟨rfl, by simp [put]⟩
  | result => exact ⟨rfl, rfl⟩
  | exception part => cases part <;> exact ⟨rfl, rfl⟩

theorem sparesBeside_put : m.SparesBeside (root.put new f m).2 := by
  cases root with
  | register id => exact m.sparesBeside_setRegister id.index new
  | localVar id | result => exact ⟨rfl, rfl, rfl, rfl, rfl⟩
  | exception part => cases part <;> exact ⟨rfl, rfl, rfl, rfl, rfl⟩

end PlaceRoot

/-! ### Paths below a root -/

/-- The operand that reads a part of what another one evaluates to. -/
def Operand.along (path : List Nat) (operand : Operand) : Operand := path.foldl .field operand

theorem Operand.evaluate_along (p : Program) (f : Frame) (m : Machine) (path : List Nat)
    (operand : Operand) :
    (operand.along path).evaluate p f m = operand.evaluate p f m >>= Value.along path := by
  induction path generalizing operand with
  | nil => exact (bind_pure _).symm
  | cons index path ih =>
      refine (ih (.field operand index)).trans ?_
      rw [Operand.evaluate]
      exact bind_assoc _ _ _

namespace Place

/-- What a place holds. -/
def read (place : Place) (f : Frame) (m : Machine) : Except RunFault Value :=
  place.root.read f m >>= Value.along place.path

def operand? (place : Place) : Option Operand := place.root.operand?.map (Operand.along place.path)

theorem evaluate_operand? {place : Place} {operand : Operand} (p : Program) (f : Frame)
    (m : Machine) (named : place.operand? = some operand) :
    operand.evaluate p f m = place.read f m := by
  obtain ⟨root, isRoot, rfl⟩ := Option.map_eq_some_iff.mp named
  rw [Operand.evaluate_along, PlaceRoot.evaluate_operand? p f m isRoot, read]

theorem read_below {root : PlaceRoot} {f : Frame} {m : Machine} {held : Value}
    (isHeld : root.read f m = .ok held) (path : List Nat) :
    read ⟨root, path⟩ f m = held.along path :=
  bind_of_ok isHeld

variable {place : Place} {value : Value} {f f' : Frame} {m m' : Machine}

/-! ### One store -/

/-- A store that succeeds puts a value into the root: what the root held, with the stored value at
the path. If the root held nothing, all of it was stored. -/
theorem put_of_store (takes : place.root.TakesAny) (stored : place.store value f m = .ok (f', m')) :
    ∃ new, place.root.Exists f m ∧ (f', m') = place.root.put new f m ∧
      ((place.path = [] ∧ new = value) ∨
        ∃ old, place.root.read f m = .ok old ∧ old.setPath place.path value = .ok new) := by
  unfold store at stored
  cases root : place.root with
  | localVar id =>
      rw [root] at stored
      obtain ⟨old, found, stored⟩ := bind_ok stored
      obtain ⟨new, set, done⟩ := bind_ok stored
      cases done
      exact ⟨new, PlaceRoot.exists_of_read (.localVar id) found, rfl,
        Or.inr ⟨old, found, set⟩⟩
  | result =>
      rw [root] at stored
      obtain ⟨new, set, done⟩ := bind_ok stored
      cases done
      exact ⟨new, trivial, rfl, Or.inr ⟨f.result, rfl, set⟩⟩
  | register id =>
      rw [root] at stored
      obtain ⟨old, found, stored⟩ := bind_ok stored
      obtain ⟨new, set, done⟩ := bind_ok stored
      cases done
      exact ⟨new, @PlaceRoot.exists_of_read f m old (.register id) found, rfl,
        Or.inr ⟨old, found, set⟩⟩
  | exception part =>
      rw [root] at stored takes
      cases part with
      | pending | location => cases takes
      | thrown =>
          obtain ⟨after, changed, done⟩ := bind_ok stored
          cases done
          cases path : place.path with
          | nil =>
              rw [path] at changed
              cases changed
              exact ⟨value, trivial, rfl, Or.inl ⟨rfl, rfl⟩⟩
          | cons index below =>
              rw [path] at changed
              simp only [ExceptionState.store] at changed
              cases held : m.exception.thrown with
              | none =>
                  rw [held] at changed
                  cases changed
              | some old =>
                  rw [held] at changed
                  obtain ⟨new, set, done⟩ := bind_ok changed
                  cases done
                  exact ⟨new, trivial, rfl, Or.inr ⟨old, Machine.thrown_ok.mpr held, set⟩⟩

/-- The root is there, and each step of the path finds a tuple that has the field it asks for. Only
below the thrown value must there be one already. -/
structure Reachable (place : Place) (f : Frame) (m : Machine) : Prop where
  root : place.root.Exists f m
  thrown : place.root = .exception .thrown → place.path ≠ [] → m.exception.thrown ≠ none
  tuples : ∀ front index, front ++ [index] <+: place.path →
    ∃ items, read ⟨place.root, front⟩ f m = .ok (.tuple items) ∧ index < items.length

theorem reachable_iff_of_read {old : Value} (held : place.root.read f m = .ok old) :
    place.Reachable f m ↔ old.Leads place.path := by
  have below := read_below held
  constructor
  · intro reachable front index step
    obtain ⟨items, reached, bound⟩ := reachable.tuples front index step
    exact ⟨items, (below front).symm.trans reached, bound⟩
  · intro leads
    refine ⟨PlaceRoot.exists_of_read _ held, ?_, ?_⟩
    · intro root _nonempty nothing
      rw [root] at held
      exact Option.some_ne_none old ((Machine.thrown_ok.mp held).symm.trans nothing)
    · intro front index step
      obtain ⟨items, reached, bound⟩ := leads front index step
      exact ⟨items, (below front).trans reached, bound⟩

theorem store_of_setPath {old new : Value} (takes : place.root.TakesAny)
    (held : place.root.read f m = .ok old) (set : old.setPath place.path value = .ok new) :
    place.store value f m = .ok (place.root.put new f m) := by
  obtain ⟨root, path⟩ := place
  cases root with
  | localVar id => exact (bind_of_ok held).trans (bind_of_ok set)
  | register id => exact (bind_of_ok held).trans (bind_of_ok set)
  | result =>
      cases held
      exact bind_of_ok set
  | exception part =>
      cases part with
      | pending | location => cases takes
      | thrown =>
          have changed : m.exception.store .thrown path value =
              .ok { m.exception with thrown := some new } := by
            cases path with
            | nil =>
                cases set
                rfl
            | cons index below =>
                simp only [ExceptionState.store, Machine.thrown_ok.mp held]
                exact bind_of_ok set
          exact bind_of_ok changed

theorem succeeds_store_iff (takes : place.root.TakesAny) :
    Succeeds (place.store value f m) ↔ place.Reachable f m := by
  constructor
  · rintro ⟨⟨f', m'⟩, stored⟩
    obtain ⟨new, there, _put, (⟨whole, _same⟩ | ⟨old, held, set⟩)⟩ := put_of_store takes stored
    · refine ⟨there, fun _root nonempty => absurd whole nonempty, fun front index step => ?_⟩
      rw [whole] at step
      exact absurd (List.prefix_nil.mp step) (List.append_ne_nil_of_right_ne_nil front nofun)
    · exact (reachable_iff_of_read held).mpr (Value.succeeds_setPath_iff.mp ⟨new, set⟩)
  · intro reachable
    -- The one store that reads nothing first is the first one into the thrown value.
    by_cases first : place.root = .exception .thrown ∧ place.path = []
    · obtain ⟨root, path⟩ := place
      obtain ⟨rfl, rfl⟩ := first
      exact ⟨_, rfl⟩
    · obtain ⟨old, held⟩ := PlaceRoot.read_of_exists reachable.root
        fun root => reachable.thrown root fun path => first ⟨root, path⟩
      obtain ⟨new, set⟩ :=
        Value.succeeds_setPath_iff.mpr ((reachable_iff_of_read held).mp reachable)
      exact ⟨_, store_of_setPath takes held set⟩

/-! ### What the places read afterwards -/

/-- A store below a root as the readers of that root see it. -/
structure Replaces (place : Place) (value : Value) (f : Frame) (m : Machine) (f' : Frame)
    (m' : Machine) : Prop where
  here : place.read f' m' = .ok value
  evaluated : ∀ p operand, place.operand? = some operand → operand.evaluate p f' m' = .ok value
  /-- A path that is no prefix and no extension of the stored one leads to what it led to. -/
  apart : ∀ path, ¬ path <+: place.path → ¬ place.path <+: path →
    read ⟨place.root, path⟩ f' m' = read ⟨place.root, path⟩ f m
  /-- The tuples on the way to the stored part keep their lengths. -/
  above : ∀ front, front <+: place.path → front ≠ place.path →
    ∃ items items', read ⟨place.root, front⟩ f m = .ok (.tuple items) ∧
      read ⟨place.root, front⟩ f' m' = .ok (.tuple items') ∧ items'.length = items.length
  /-- To store what is there already changes nothing. -/
  again : place.read f m = .ok value →
    f' = f ∧ m'.registers = m.registers ∧ m'.exception = m.exception

/-- All that a store below a root leaves as it was. -/
structure Spares (place : Place) (f : Frame) (m : Machine) (f' : Frame) (m' : Machine) :
    Prop where
  others : ∀ other : Place, other.root ≠ place.root → other.read f' m' = other.read f m
  locals : f'.locals.length = f.locals.length
  registers : m'.registers.length = m.registers.length
  beside : m.SparesBeside m'
  /-- Only a write of a register is an event, and only if the trace asks for it. -/
  events : m'.events = m.events ∨
    ∃ id name new, place.root = .register id ∧ m.trace.registers = true ∧
      m.registerNames[id.index]? = some name ∧ m'.register? id = .ok new ∧
      m'.events = m.events.push (.register name new)

theorem replaces_of_store (takes : place.root.TakesAny)
    (stored : place.store value f m = .ok (f', m')) : place.Replaces value f m f' m' := by
  obtain ⟨new, there, put, means⟩ := put_of_store takes stored
  have held' : place.root.read f' m' = .ok new := by
    have stands := PlaceRoot.read_put new takes there
    rwa [← put] at stands
  have after := read_below held'
  have here : place.read f' m' = .ok value := by
    refine (after place.path).trans ?_
    obtain ⟨whole, rfl⟩ | ⟨old, _held, set⟩ := means
    · rw [whole, Value.along_nil]
    · exact Value.along_setPath set
  refine ⟨here, fun p operand named => (evaluate_operand? p f' m' named).trans here, ?_, ?_, ?_⟩
  · intro path above below
    obtain ⟨whole, _same⟩ | ⟨old, held, set⟩ := means
    · rw [whole] at below
      exact absurd path.nil_prefix below
    · rw [after path, read_below held]
      exact Value.along_of_apart set above below
  · intro front above proper
    obtain ⟨whole, _same⟩ | ⟨old, held, set⟩ := means
    · rw [whole] at above proper
      exact absurd (List.prefix_nil.mp above) proper
    · rw [after front, read_below held]
      exact Value.length_of_above set above proper
  · intro there
    have same : place.root.read f m = .ok new := by
      obtain ⟨whole, rfl⟩ | ⟨old, held, set⟩ := means
      · rw [read, whole] at there
        obtain ⟨old, held, same⟩ := bind_ok there
        cases same
        exact held
      · have there : old.along place.path = .ok value :=
          (read_below held place.path).symm.trans there
        cases (Value.setPath_along there).symm.trans set
        exact held
    have unchanged := PlaceRoot.put_of_read same
    rwa [← put] at unchanged

theorem spares_of_store (takes : place.root.TakesAny)
    (stored : place.store value f m = .ok (f', m')) : place.Spares f m f' m' := by
  obtain ⟨new, there, put, _means⟩ := put_of_store takes stored
  obtain rfl : f' = (place.root.put new f m).1 := congrArg Prod.fst put
  obtain rfl : m' = (place.root.put new f m).2 := congrArg Prod.snd put
  refine ⟨?_, PlaceRoot.length_put.1, PlaceRoot.length_put.2, PlaceRoot.sparesBeside_put, ?_⟩
  · intro other apart
    rw [read, read, PlaceRoot.read_put_of_ne apart]
  · have held' := PlaceRoot.read_put new takes there
    cases root : place.root with
    | register id =>
        rw [root] at there held'
        obtain same | ⟨name, asked, named, noted⟩ := Machine.events_setRegister there new
        · exact Or.inl same
        · exact Or.inr ⟨id, name, new, rfl, asked, named, held', noted⟩
    | localVar id | result => exact Or.inl rfl
    | exception part => cases part <;> exact Or.inl rfl

/-- A store into a root that takes any value is a lens. What it stored is read there again, the rest
of the root and all other places are as they were, and nothing else changes but for the event of a
register write. It succeeds if the path leads from tuple to tuple; if it fails, the run ends with
the machine that it was started with, its events included. -/
theorem store_lens (place : Place) (value : Value) (f : Frame) (m : Machine)
    (takes : place.root.TakesAny) :
    (∀ f' m', place.store value f m = .ok (f', m') →
      place.Replaces value f m f' m' ∧ place.Spares f m f' m') ∧
    (Succeeds (place.store value f m) ↔ place.Reachable f m) ∧
    ∀ fault, place.store value f m = .error fault → ∀ a callers, a.frame = f →
      Linked.resume a callers (some place) value m = .finished (.error fault) m := by
  refine ⟨fun f' m' stored => ?_, succeeds_store_iff takes, ?_⟩
  · exact ⟨replaces_of_store takes stored, spares_of_store takes stored⟩
  · rintro fault failed a callers rfl
    simp only [Linked.resume, failed]

/-- A store two fields deep into a tuple that was thrown. -/
theorem store_lens_thrown :
    let place : Place := ⟨.exception .thrown, [0, 1]⟩
    let thrown : Value := .tuple [.tuple [.int 1, .int 2, .int 3], .string "kept"]
    let m : Machine :=
      ⟨[.int 7], ["R0"], ⟨true, some thrown, "here"⟩, .flat ⟨2, .empty⟩, none, #[],
        TraceFlags.none, #[]⟩
    place.root.TakesAny ∧
      ∃ f' m', place.store (.bool true) ⟨[.unit], .unit⟩ m = .ok (f', m') ∧
        place.Replaces (.bool true) ⟨[.unit], .unit⟩ m f' m' ∧
        place.Spares ⟨[.unit], .unit⟩ m f' m' := by
  intro place thrown m
  have takes : place.root.TakesAny := trivial
  have lens := store_lens place (.bool true) ⟨[.unit], .unit⟩ m takes
  have stored : ∃ f' m', place.store (.bool true) ⟨[.unit], .unit⟩ m = .ok (f', m') := ⟨_, _, rfl⟩
  obtain ⟨f', m', stored⟩ := stored
  exact ⟨takes, f', m', stored, lens.1 f' m' stored⟩

end Place

end JumpIR
