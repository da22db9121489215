import JumpIR.Proofs.Machine.Action
import JumpIR.Proofs.Memory.Torn

/-!
# What support operations leave alone

An operation of the library touches only the part of the machine that its name tells: writers the
bytes of memory, the operations on reservations the reservation, and printers the output. One that
faults touches nothing but bytes. Main statement: `Support.framed_of_mem`.
-/

set_option autoImplicit false

namespace JumpIR

/-! ### Machines -/

/-- Reading leaves every byte as it was. -/
theorem Memory.Reached.byte?_read {kind : MemoryKind} {m after : Memory} {address value : UInt64}
    {width : Nat} (reached : Memory.Reached kind m)
    (done : m.read address width = .ok (value, after)) (place : UInt64) :
    after.byte? place = m.byte? place := by
  obtain ⟨b, represents⟩ := reached.represents
  rw [represents.byte?_eq, (represents.of_read done).byte?_eq]

namespace Machine

variable (m : Machine)

theorem exists_events_noteAccess (kind : AccessKind) (address : UInt64) (width : Nat)
    (value : UInt64) :
    ∃ events, m.noteAccess kind address width value = { m with events := events } := by
  unfold noteAccess
  split
  · exact ⟨_, rfl⟩
  · exact ⟨m.events, rfl⟩

theorem exists_events_notePlatform (message : String) :
    ∃ events, m.notePlatform message = { m with events := events } := by
  unfold notePlatform
  split
  · exact ⟨_, rfl⟩
  · exact ⟨m.events, rfl⟩

/-- A traced read that faults changes nothing, and any other the memory and the events only. -/
theorem readMemory_cases (address : UInt64) (width : Nat) :
    (∃ fault, m.readMemory address width = (.error fault, m)) ∨
    ∃ value memory events, m.memory.read address width = .ok (value, memory) ∧
      m.readMemory address width = (.ok value, { m with memory := memory, events := events }) := by
  unfold readMemory
  cases read : m.memory.read address width with
  | error fault => exact Or.inl ⟨_, rfl⟩
  | ok found =>
      obtain ⟨value, memory⟩ := found
      obtain ⟨events, noted⟩ :=
        exists_events_noteAccess { m with memory := memory } .read address width value
      refine Or.inr ⟨value, memory, events, rfl, ?_⟩
      dsimp only
      rw [noted]

/-- A traced write changes the memory, and the events unless it faults. -/
theorem writeMemory_cases (address : UInt64) (width : Nat) (value : UInt64) :
    (∃ fault, m.writeMemory address width value =
      (.error fault, { m with memory := (m.memory.write address width value).2 })) ∨
    ∃ events, m.writeMemory address width value =
      (.ok (), { m with memory := (m.memory.write address width value).2, events := events }) := by
  unfold writeMemory
  cases wrote : m.memory.write address width value with
  | mk result memory =>
      cases result with
      | error fault => exact Or.inl ⟨_, rfl⟩
      | ok done =>
          obtain ⟨events, noted⟩ := exists_events_noteAccess { m with memory := memory } .write
            address width (truncate value width)
          refine Or.inr ⟨events, ?_⟩
          dsimp only
          rw [noted]

end Machine

/-! ### Actions -/

namespace Support

theorem not_printer_of_flag : ∀ symbol ∈ flagSymbols, symbol ∉ printSymbols := by
  simp [flagSymbols, printSymbols]

theorem not_printer_of_writer : ∀ symbol ∈ writeSymbols, symbol ∉ printSymbols := by
  simp [writeSymbols, printSymbols]

theorem not_printer_of_reservation : ∀ symbol ∈ reservationSymbols, symbol ∉ printSymbols := by
  simp [reservationSymbols, printSymbols]

/-- What an operation of that name may do to a machine. -/
structure Framed (symbol : String) (m : Machine) (result : Except RunFault Value)
    (after : Machine) : Prop where
  /-- Registers, exception state and trace flags stay. -/
  keeps : m.Keeps after
  reached : ∀ kind, Memory.Reached kind m.memory → Memory.Reached kind after.memory
  /-- Only writers change a byte of memory. -/
  bytes : symbol ∉ writeSymbols → ∀ kind, Memory.Reached kind m.memory →
    ∀ place, after.memory.byte? place = m.memory.byte? place
  reservation : symbol ∉ reservationSymbols → after.reservation = m.reservation
  /-- Only printers change the output. -/
  silent : symbol ∉ printSymbols → after.output = m.output
  prints : symbol ∈ printSymbols → ∀ value, result = .ok value →
    ∃ line, after.output = m.output.push line
  /-- An operation that faults leaves all but the bytes of memory, and no event is kept. -/
  failed : ∀ fault, result = .error fault → after.reservation = m.reservation ∧
    after.output = m.output ∧ after.events = m.events

/-- An action that only answers changes nothing at all. -/
theorem framed_of_answer {symbol : String} {m : Machine} {result : Except RunFault Value}
    (printer : symbol ∈ printSymbols → ∃ fault, result = .error fault) :
    Framed symbol m result m := by
  refine ⟨⟨rfl, rfl, rfl, rfl⟩, fun _ reached => reached, fun _ _ _ _ => rfl, fun _ => rfl,
    fun _ => rfl, ?_, fun _ _ => ⟨rfl, rfl, rfl⟩⟩
  intro prints value done
  obtain ⟨fault, failed⟩ := printer prints
  cases done.symm.trans failed

/-- A printer that prints appends its line. -/
theorem framed_of_print {symbol : String} (printer : symbol ∈ printSymbols) (m : Machine)
    (line : String) (events : Array Event) :
    Framed symbol m (.ok .unit) { m with output := m.output.push line, events := events } := by
  refine ⟨⟨rfl, rfl, rfl, rfl⟩, fun _ reached => reached, fun _ _ _ _ => rfl, fun _ => rfl,
    fun other => absurd printer other, fun _ _ _ => ⟨line, rfl⟩, ?_⟩
  intro fault failed
  cases failed

/-- A change of the reservation leaves all else. -/
theorem framed_of_reservation {symbol : String} (known : symbol ∈ reservationSymbols)
    (m : Machine) (reservation : Option UInt64) :
    Framed symbol m (.ok .unit) { m with reservation := reservation } := by
  refine ⟨⟨rfl, rfl, rfl, rfl⟩, fun _ reached => reached, fun _ _ _ _ => rfl,
    fun other => absurd known other, fun _ => rfl,
    fun printer => absurd printer (not_printer_of_reservation symbol known), ?_⟩
  intro fault failed
  cases failed

theorem framed_of_read {symbol : String} (other : symbol ∉ printSymbols) (m : Machine)
    (address : UInt64) (width : Nat) :
    Framed symbol m ((Action.read address width).run m).1
      ((Action.read address width).run m).2 := by
  rw [Action.run_read]
  rcases m.readMemory_cases address width with ⟨fault, same⟩ | ⟨value, memory, events, read, same⟩
  · rw [same]
    exact framed_of_answer fun printer => absurd printer other
  · rw [same]
    refine ⟨⟨rfl, rfl, rfl, rfl⟩, fun _ reached => reached.read read,
      fun _ _ reached => reached.byte?_read read, fun _ => rfl, fun _ => rfl,
      fun printer => absurd printer other, ?_⟩
    intro fault failed
    cases failed

theorem framed_of_write {symbol : String} (writer : symbol ∈ writeSymbols) (m : Machine)
    (address : UInt64) (width : Nat) (value : UInt64) :
    Framed symbol m ((Action.write address width value).run m).1
      ((Action.write address width value).run m).2 := by
  have other := not_printer_of_writer symbol writer
  rw [Action.run_write]
  rcases m.writeMemory_cases address width value with ⟨fault, same⟩ | ⟨events, same⟩
  · rw [same]
    exact ⟨⟨rfl, rfl, rfl, rfl⟩, fun _ reached => reached.write address width value,
      fun reader => absurd writer reader, fun _ => rfl, fun _ => rfl,
      fun printer => absurd printer other, fun _ _ => ⟨rfl, rfl, rfl⟩⟩
  · rw [same]
    refine ⟨⟨rfl, rfl, rfl, rfl⟩, fun _ reached => reached.write address width value,
      fun reader => absurd writer reader, fun _ => rfl, fun _ => rfl,
      fun printer => absurd printer other, ?_⟩
    intro fault failed
    cases failed

theorem Action.Lawful.framed {symbol : String} {args : List Value} {a : Action}
    (lawful : a.Lawful symbol args) (m : Machine) : Framed symbol m (a.run m).1 (a.run m).2 := by
  cases a with
  | answer result => exact framed_of_answer lawful.2
  | ask flag =>
      exact framed_of_answer fun printer => absurd printer (not_printer_of_flag symbol lawful)
  | isReserved address => exact framed_of_answer fun printer => absurd printer lawful
  | print line => exact framed_of_print lawful m line m.events
  | printPlatform message =>
      obtain ⟨events, noted⟩ := m.exists_events_notePlatform message
      have framed := framed_of_print lawful m message events
      unfold run
      dsimp only
      rw [noted]
      exact framed
  | read address width => exact framed_of_read lawful m address width
  | write address width value => exact framed_of_write lawful m address width value
  | reserve address => exact framed_of_reservation lawful m (some address)
  | release => exact framed_of_reservation lawful m none

/-! ### The library -/

/-- Whatever an operation of the library is given, and whatever the machine, it changes no register,
no part of the exception state and no trace flag; a byte of memory only if it is one of the two
writers, the reservation only if it is one of the two that are there for it, and the output only if
it is a printer, which appends one line. If it faults, the reservation and the output are as before
and it has left no event. -/
theorem framed_of_mem {op : Operation} (member : op ∈ library) (args : List Value) (m : Machine) :
    Framed op.symbol m (op.call args m).1 (op.call args m).2 := by
  obtain ⟨a, acts⟩ := isAction_of_mem op member args
  rw [acts.runs]
  by_cases count : args.length = op.arity
  · exact (acts.lawful count).framed m
  · rw [acts.refuses count]
    exact framed_of_answer fun _ => ⟨_, rfl⟩

/-- A machine of 16 bytes that keeps all events, has printed a line and holds a reservation. -/
def smallMachine : Machine :=
  ⟨[], [], .initial, .flat ⟨2, .empty⟩, some 14, #["start"], ⟨true, true, true, true, false⟩, #[]⟩

/-- Four bytes are written two below the end of the memory: the write faults part way. -/
theorem framed_of_mem_tornWrite : ∃ op ∈ library, op.symbol = "platform_write_mem" ∧
    ∃ fault after, op.call [.unit, .int 64, .bits 64 14, .int 4, .bits 32 0xffffffff] smallMachine =
        (.error fault, after) ∧
      after.memory.byte? 15 = some 255 ∧ smallMachine.memory.byte? 15 = some 0 ∧
      after.reservation = some 14 ∧ after.output = #["start"] ∧ after.events = #[] := by
  have member : Operation.accessWith "platform_write_mem" (fun address count data =>
      writeAt (addressArg address) (countArg count) data.asBits) ∈ library := by
    simp [library, accesses]
  have framed := framed_of_mem member
    [.unit, .int 64, .bits 64 14, .int 4, .bits 32 0xffffffff] smallMachine
  exact ⟨_, member, rfl, _, _, rfl, rfl, rfl, framed.failed _ rfl⟩

end Support

end JumpIR
