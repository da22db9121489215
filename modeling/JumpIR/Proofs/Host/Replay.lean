import JumpIR.Proofs.Host.Request
import JumpIR.Proofs.Lowering.Names
import JumpIR.Proofs.Machine.Simulator
import JumpIR.Proofs.Machine.Stop
import JumpIR.Proofs.Memory.Replay

/-!
# The events of a call replay it

A machine that keeps the events of registers and of memory tells with them all that a call without a
fault did to both. Every change is told once, behind it and in order. Main statement:
`exists_replays_of_call`.
-/

set_option autoImplicit false

namespace JumpIR

namespace Event

/-- The access of memory that an event tells. -/
def access? : Event → Option MemoryAccess
  | .memory access => some access
  | .retire _ _ | .register _ _ | .platform _ => none

/-- The value that an event says the register of that name was given. -/
def written? (name : String) : Event → Option Value
  | .register other value => if other = name then some value else none
  | .retire _ _ | .memory _ | .platform _ => none

end Event

/-- The accesses among events. -/
def accesses (log : List Event) : List MemoryAccess := log.filterMap Event.access?

/-- The value that the register of that name was given last. -/
def lastWritten? (name : String) (log : List Event) : Option Value :=
  log.reverse.findSome? (Event.written? name)

theorem lastWritten?_append (name : String) (log more : List Event) :
    lastWritten? name (log ++ more) = (lastWritten? name more).or (lastWritten? name log) := by
  unfold lastWritten?
  rw [List.reverse_append, List.findSome?_append]

namespace Machine

/-- The events `log` are those between two machines, and tell all that became of the bytes and of
the registers. -/
structure Replays (m after : Machine) (log : List Event) : Prop where
  events : after.events.toList = m.events.toList ++ log
  bytes : after.memory.bytes = m.memory.bytes.replay (accesses log)
  reads : ∀ earlier access later, accesses log = earlier ++ access :: later →
    access.kind = .read →
    access.value.toNat =
      (m.memory.bytes.replay earlier).number access.address access.width
  registers : ∀ (index : Nat) (name : String), m.registerNames[index]? = some name →
    after.registers[index]? = (lastWritten? name log).or m.registers[index]?

/-- A machine that keeps the events of its registers, whose names differ, and of its memory. -/
structure Traced (m : Machine) : Prop where
  names : m.registerNames.Nodup
  registers : m.trace.registers = true
  memory : m.trace.memory = true
  sound : m.memory.Sound

/-- What one piece of a run makes of a machine that keeps its events. -/
structure Follows (m after : Machine) (log : List Event) : Prop extends m.Replays after log where
  names : after.registerNames = m.registerNames
  traced : after.Traced

variable {m middle after : Machine} {log more : List Event}

/-- Nothing is to be told where neither registers nor memory change. -/
theorem follows_of_same (traced : m.Traced) (events : after.events = m.events)
    (memory : after.memory = m.memory) (registers : after.registers = m.registers)
    (names : after.registerNames = m.registerNames) (trace : after.trace = m.trace) :
    m.Follows after [] := by
  refine ⟨⟨?_, ?_, ?_, ?_⟩, names, ?_, ?_, ?_, ?_⟩
  · rw [events, List.append_nil]
  · rw [memory]
    rfl
  · intro earlier access later split
    cases earlier <;> cases split
  · intro index name _known
    rw [registers]
    rfl
  · exact names ▸ traced.names
  · exact trace ▸ traced.registers
  · exact trace ▸ traced.memory
  · exact memory ▸ traced.sound

theorem follows_refl (traced : m.Traced) : m.Follows m [] :=
  follows_of_same traced rfl rfl rfl rfl rfl

theorem Replays.reads_append (first : m.Replays middle log) (second : middle.Replays after more)
    {earlier later : List MemoryAccess} {access : MemoryAccess}
    (split : accesses (log ++ more) = earlier ++ access :: later) (kind : access.kind = .read) :
    access.value.toNat =
      (m.memory.bytes.replay earlier).number access.address access.width := by
  rw [accesses, List.filterMap_append] at split
  rcases List.append_eq_append_iff.mp split with ⟨between, same, rest⟩ | ⟨between, same, rest⟩
  · -- The access is one of the second part, behind all of the first one.
    have value := second.reads between access later rest kind
    rw [first.bytes, ← ByteMap.replay_append] at value
    rw [same]
    exact value
  · cases between with
    | nil =>
        rw [List.append_nil] at same
        rw [List.nil_append] at rest
        have value := second.reads [] access later rest.symm kind
        rw [first.bytes, ← ByteMap.replay_append, List.append_nil] at value
        rw [← same]
        exact value
    | cons head between =>
        obtain ⟨rfl, _others⟩ := List.cons.inj rest
        exact first.reads earlier access between same kind

theorem Follows.trans (first : m.Follows middle log) (second : middle.Follows after more) :
    m.Follows after (log ++ more) := by
  refine ⟨⟨?_, ?_, ?_, ?_⟩, second.names.trans first.names, second.traced⟩
  · rw [second.events, first.events, List.append_assoc]
  · rw [second.bytes, first.bytes, ← ByteMap.replay_append, accesses, accesses, accesses,
      List.filterMap_append]
  · intro earlier access later split kind
    exact first.toReplays.reads_append second.toReplays split kind
  · intro index name known
    have also : middle.registerNames[index]? = some name := first.names ▸ known
    rw [second.registers index name also, first.registers index name known, lastWritten?_append,
      Option.or_assoc]

/-! ### Registers -/

/-- Registers whose names differ are not the same. -/
theorem Traced.index_unique (traced : m.Traced) {index other : Nat} {name : String}
    (here : m.registerNames[index]? = some name) (there : m.registerNames[other]? = some name) :
    index = other := by
  obtain ⟨bound, _same⟩ := List.getElem?_eq_some_iff.mp here
  exact (List.getElem?_inj bound traced.names).mp (here.trans there.symm)

theorem follows_setRegister (traced : m.Traced) (index : Nat) (value : Value) :
    ∃ log, m.Follows (m.setRegister index value) log := by
  unfold setRegister noteRegister
  rw [if_pos (show _ = true from traced.registers)]
  dsimp only
  split
  · rename_i name held named here
    obtain ⟨bound, same⟩ := List.getElem?_eq_some_iff.mp here
    rw [List.getElem_set_self] at same
    rw [List.length_set] at bound
    subst same
    refine ⟨[.register name value], ⟨Array.toList_push, rfl, ?_, ?_⟩, rfl, traced.names,
      traced.registers, traced.memory, traced.sound⟩
    · intro earlier access later split
      cases earlier <;> cases split
    · intro other wanted known
      change (m.registers.set index value)[other]? = _
      by_cases same : index = other
      · subst same
        cases named.symm.trans known
        rw [List.getElem?_set_self bound]
        simp [lastWritten?, Event.written?]
      · have apart : name ≠ wanted := by
          intro equal
          exact same (traced.index_unique named (equal ▸ known))
        rw [List.getElem?_set_ne same]
        simp [lastWritten?, Event.written?, apart]
  · rename_i untold
    -- Such a register has no name or does not exist, so that no named one changes.
    refine ⟨[], ⟨(List.append_nil _).symm, rfl, ?_, ?_⟩, rfl, traced.names, traced.registers,
      traced.memory, traced.sound⟩
    · intro earlier access later split
      cases earlier <;> cases split
    · intro other wanted known
      change (m.registers.set index value)[other]? = m.registers[other]?
      by_cases same : index = other
      · subst same
        cases here : (m.registers.set index value)[index]? with
        | none =>
            rw [List.getElem?_eq_none_iff, List.length_set] at here
            exact (List.getElem?_eq_none here).symm
        | some held => exact absurd here (untold wanted held known)
      · exact List.getElem?_set_ne same

/-! ### Memory -/

theorem follows_readMemory (traced : m.Traced) {address value : UInt64} {width : Nat}
    (done : m.readMemory address width = (.ok value, after)) : ∃ log, m.Follows after log := by
  unfold readMemory at done
  split at done
  · cases done
  · rename_i value' memory read
    obtain ⟨sound, bytes, number⟩ := Memory.read_ok traced.sound read
    unfold noteAccess at done
    rw [if_pos (show _ = true from traced.memory)] at done
    cases done
    refine ⟨[.memory ⟨.read, address, width, value⟩], ⟨Array.toList_push, bytes, ?_, ?_⟩, rfl,
      traced.names, traced.registers, traced.memory, sound⟩
    · intro earlier access later split _kind
      cases earlier with
      | nil =>
          cases split
          exact number
      | cons head earlier => cases earlier <;> cases split
    · intro index name _known
      rfl

theorem follows_writeMemory (traced : m.Traced) {address value : UInt64} {width : Nat}
    (done : m.writeMemory address width value = (.ok (), after)) : ∃ log, m.Follows after log := by
  unfold writeMemory at done
  split at done
  · cases done
  · rename_i memory wrote
    obtain ⟨sound, bytes⟩ := Memory.write_ok traced.sound wrote
    unfold noteAccess at done
    rw [if_pos (show _ = true from traced.memory)] at done
    cases done
    refine ⟨[.memory ⟨.write, address, width, truncate value width⟩],
      ⟨Array.toList_push, bytes, ?_, ?_⟩, rfl, traced.names, traced.registers, traced.memory,
      sound⟩
    · intro earlier access later split kind
      cases earlier with
      | nil =>
          cases split
          cases kind
      | cons head earlier => cases earlier <;> cases split
    · intro index name _known
      rfl

theorem follows_notePlatform (traced : m.Traced) (message : String) :
    ∃ log, m.Follows (m.notePlatform message) log := by
  unfold notePlatform
  split
  · refine ⟨[.platform message], ⟨Array.toList_push, rfl, ?_, ?_⟩, rfl, traced.names,
      traced.registers, traced.memory, traced.sound⟩
    · intro earlier access later split
      cases earlier <;> cases split
    · intro index name _known
      rfl
  · exact ⟨[], follows_refl traced⟩

end Machine

open Machine

/-! ### Runs -/

theorem Support.Action.follows_run {a : Action} {m after : Machine} {value : Value}
    (traced : m.Traced) (done : a.run m = (.ok value, after)) : ∃ log, m.Follows after log := by
  cases a with
  | printPlatform message =>
      obtain ⟨log, told⟩ := follows_notePlatform traced message
      cases done
      have printed : (m.notePlatform message).Follows ((m.notePlatform message).print message) [] :=
        follows_of_same told.traced rfl rfl rfl rfl rfl
      exact ⟨_, told.trans printed⟩
  | read address width =>
      rw [run_read] at done
      rcases read : m.readMemory address width with ⟨_ | found, memory⟩
      · rw [read] at done
        cases done
      · rw [read] at done
        cases done
        exact follows_readMemory traced read
  | write address width word =>
      rw [run_write] at done
      rcases wrote : m.writeMemory address width word with ⟨_ | _, memory⟩
      · rw [wrote] at done
        cases done
      · rw [wrote] at done
        cases done
        exact follows_writeMemory traced wrote
  | answer _ | print _ | ask _ | reserve _ | isReserved _ | release =>
      cases done
      exact ⟨[], follows_of_same traced rfl rfl rfl rfl rfl⟩

theorem Place.follows_store {place : Place} {value : Value} {f frame : Frame} {m after : Machine}
    (traced : m.Traced) (stored : place.store value f m = .ok (frame, after)) :
    ∃ log, m.Follows after log := by
  unfold store at stored
  split at stored
  · obtain ⟨old, _found, stored⟩ := bind_ok stored
    obtain ⟨new, _set, done⟩ := bind_ok stored
    cases done
    exact ⟨[], follows_refl traced⟩
  · obtain ⟨new, _set, done⟩ := bind_ok stored
    cases done
    exact ⟨[], follows_refl traced⟩
  · obtain ⟨old, _found, stored⟩ := bind_ok stored
    obtain ⟨new, _set, done⟩ := bind_ok stored
    cases done
    exact follows_setRegister traced _ new
  · obtain ⟨exception, _changed, done⟩ := bind_ok stored
    cases done
    exact ⟨[], follows_of_same traced rfl rfl rfl rfl rfl⟩

namespace Linked

variable {l : Linked} {e next : Execution}

theorem follows_resume {a : Activation} {callers : List Suspended} {dest : Option Place}
    {value : Value} {m : Machine} (traced : m.Traced)
    (stored : resume a callers dest value m = .running next) :
    ∃ log, m.Follows next.machine log := by
  unfold resume at stored
  split at stored
  · cases stored
    exact ⟨[], follows_refl traced⟩
  · split at stored
    · rename_i frame after storedTo
      cases stored
      exact Place.follows_store traced storedTo
    · cases stored

theorem follows_leave {callers : List Suspended} {value : Value} {m : Machine} (traced : m.Traced)
    (left : leave callers value m = .running next) : ∃ log, m.Follows next.machine log := by
  cases callers with
  | nil => cases left
  | cons caller rest => exact follows_resume traced left

theorem follows_callSupport (actions : ∀ op ∈ l.supports, op.IsAction) {id : SupportId}
    {args : List Value} {value : Value} {m after : Machine} (traced : m.Traced)
    (called : l.callSupport id args m = (.ok value, after)) : ∃ log, m.Follows after log := by
  unfold callSupport at called
  split at called
  · rename_i op found
    obtain ⟨a, acts⟩ := actions op (List.mem_of_getElem? found) args
    rw [acts.runs] at called
    exact a.follows_run traced called
  · cases called

theorem follows_step (actions : ∀ op ∈ l.supports, op.IsAction) (traced : e.machine.Traced)
    (stepped : l.step e = .running next) : ∃ log, e.machine.Follows next.machine log := by
  cases moves_of_step stepped with
  | assign op evaluated stored => exact follows_resume traced stored
  | support op evaluated called stored =>
      obtain ⟨log, acted⟩ := follows_callSupport actions traced called
      obtain ⟨more, resumed⟩ := follows_resume acted.traced stored
      exact ⟨log ++ more, acted.trans resumed⟩
  | ret left returned => exact follows_leave traced returned
  | arbitrary left defaulted returned => exact follows_leave traced returned
  | declare _ _ same | call _ _ _ same | goto _ same | branch _ _ same =>
      subst same
      exact ⟨[], follows_refl traced⟩

theorem follows_steps (actions : ∀ op ∈ l.supports, op.IsAction) {count : Nat} {last : Execution}
    (steps : l.Steps count e last) (traced : e.machine.Traced) :
    ∃ log, e.machine.Follows last.machine log := by
  induction steps with
  | refl e => exact ⟨[], follows_refl traced⟩
  | step first _others ih =>
      obtain ⟨log, here⟩ := follows_step actions traced first
      obtain ⟨more, later⟩ := ih here.traced
      exact ⟨log ++ more, here.trans later⟩

end Linked

/-! ### Calls -/

/-- The registers of a compiled program have names that differ. -/
theorem nodup_registerNames {source : SourceText} {options : Lowering.Options} {program : Program}
    (compiled : source.compile options = .ok program) :
    (program.registers.map (·.name)).Nodup := by
  obtain ⟨c, linked, rfl, rfl⟩ := Lowering.exists_compilation compiled
  have describes := c.describes linked
  have names := related_imp describes.registers.defs fun _ _ _ both => both.1
  rw [map_eq_of_related names]
  exact Lowering.nodup_registers describes.distinct

/-- The events of a call that returns a value replay all that it did to the memory and to the
registers, whatever was asked of the memory before and whatever the machine is besides. -/
theorem exists_replays_of_call {source : SourceText} {options : Lowering.Options}
    {program : Program} {config : SimConfig} {s : Simulator} {fresh : Memory}
    (compiled : source.compile options = .ok program)
    (created : Simulator.create program config = .ok s) (built : config.memory.build = .ok fresh)
    {requests : List MemoryRequest} {machine : Machine}
    (names : machine.registerNames = s.machine.registerNames)
    (memory : machine.memory = fresh.after requests)
    (tracesRegisters : machine.trace.registers = true) (tracesMemory : machine.trace.memory = true)
    {budget : Nat} {name : String} {args : List Value} {value : Value} {after : Simulator}
    (called : Simulator.call { s with machine := machine } budget name args =
      some (.ok value, after)) :
    ∃ log, machine.Replays after.machine log := by
  have traced : machine.Traced := by
    refine ⟨?_, tracesRegisters, tracesMemory, ?_⟩
    · obtain ⟨values, initial, _defaults, _built, same⟩ :=
        (Simulator.fresh_of_create created).machine
      rw [names, same]
      exact nodup_registerNames compiled
    · rw [memory]
      exact Memory.sound_after requests (MemoryKind.represents_build built).sound
  cases Simulator.called_of_call called with
  | ran named entered steps finished =>
      obtain ⟨log, told⟩ :=
        Linked.follows_steps (Simulator.isAction_of_create created) steps traced
      rw [Linked.machine_of_finished finished]
      exact ⟨log, told.toReplays⟩

/-- What is asked of the memory before the text runs; the second request faults. -/
def earlierRequests : List MemoryRequest := [.write 64 8 5, .write 124 8 6, .read 60 8]

/-- A flat memory behind those requests. -/
def echoMemory : Memory := Memory.after (.flat ⟨16, .empty⟩) earlierRequests

/-- The program of a text, a simulator of it that keeps all events, and the one behind a call. -/
def SourceText.echo? (source : SourceText) : Option (Program × Simulator × Simulator) :=
  match source.compile .default with
  | .error _ => none
  | .ok program =>
      match Simulator.create program ⟨.flat 128, .all, 8⟩ with
      | .error _ => none
      | .ok s =>
          let before := { s with machine := { s.machine with memory := echoMemory } }
          match before.call 20 "zmain" [.bits 64 64] with
          | some (.ok value, after) =>
              if value = .bits 8 0xab then some (program, s, after) else none
          | _ => none

theorem SourceText.called_of_echo? {source : SourceText} {program : Program} {s after : Simulator}
    (found : source.echo? = some (program, s, after)) :
    source.compile .default = .ok program ∧
      Simulator.create program ⟨.flat 128, .all, 8⟩ = .ok s ∧
      Simulator.call { s with machine := { s.machine with memory := echoMemory } } 20 "zmain"
        [.bits 64 64] = some (.ok (.bits 8 0xab), after) := by
  unfold echo? at found
  split at found
  · cases found
  · rename_i compiled
    split at found
    · cases found
    · rename_i created
      dsimp only at found
      split at found
      · rename_i called
        split at found
        · rename_i isByte
          cases found
          exact ⟨compiled, created, isByte ▸ called⟩
        · cases found
      · cases found

theorem exists_replays_of_call_echoText : ∃ program s after,
    echoText.compile .default = .ok program ∧
    Simulator.create program ⟨.flat 128, .all, 8⟩ = .ok s ∧
    Simulator.call { s with machine := { s.machine with memory := echoMemory } } 20 "zmain"
      [.bits 64 64] = some (.ok (.bits 8 0xab), after) ∧
    ∃ log, Machine.Replays { s.machine with memory := echoMemory } after.machine log := by
  have works : echoText.echo?.isSome = true := by
    decide +kernel
  obtain ⟨⟨program, s, after⟩, found⟩ := Option.isSome_iff_exists.mp works
  obtain ⟨compiled, created, called⟩ := SourceText.called_of_echo? found
  obtain ⟨values, memory, _defaults, _built, same⟩ := (Simulator.fresh_of_create created).machine
  have flags : s.machine.trace = .all := by
    rw [same]
    rfl
  have registers : s.machine.trace.registers = true := flags ▸ rfl
  have accesses : s.machine.trace.memory = true := flags ▸ rfl
  have behind : echoMemory = Memory.after (.flat ⟨16, .empty⟩) earlierRequests := rfl
  exact ⟨program, s, after, compiled, created, called, exists_replays_of_call compiled created rfl
    (show Machine.registerNames { s.machine with memory := echoMemory } = _ from rfl) behind
    registers accesses called⟩

end JumpIR
