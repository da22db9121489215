import JumpIR.Machine.Support
import JumpIR.Proofs.Memory.Refinement
import JumpIR.Proofs.Value.Normal

/-!
# What support operations do

Given its arguments, an operation of the library takes one `Support.Action`, which is all that it
does to a machine: it answers, prints a line, accesses memory, asks for a trace flag, or changes the
reservation. Whatever holds of the nine actions holds of the library. Main statement:
`Support.isAction_of_mem`.
-/

set_option autoImplicit false

namespace JumpIR

/-- Faults of calls that do not fit together. -/
def RunFault.Mislinked : RunFault → Prop
  | .arityMismatch _ _ _ | .unknownFunction _ | .unknownSupport _ => True
  | .unreachable _ | .variantMismatch _ _ | .typeMismatch _ | .unknownRegister _
  | .callDepthExceeded _ | .arithmeticTrap _ | .noException | .memory _ => False

/-- Faults that a call has of its own: it does not fit, or too many calls are under way. -/
def RunFault.OfCall : RunFault → Prop
  | .arityMismatch _ _ _ | .unknownFunction _ | .unknownSupport _ | .callDepthExceeded _ => True
  | .unreachable _ | .variantMismatch _ _ | .typeMismatch _ | .unknownRegister _
  | .arithmeticTrap _ | .noException | .memory _ => False

/-- The result is as wanted; a fault has nothing to do with calls. -/
def Yields {α : Type} (good : α → Prop) : Except RunFault α → Prop
  | .ok result => good result
  | .error fault => ¬ fault.OfCall

namespace Yields

variable {α β : Type} {good : α → Prop} {r : Except RunFault α}

theorem bind {also : β → Prop} {rest : α → Except RunFault β} (first : Yields good r)
    (others : ∀ a, good a → Yields also (rest a)) : Yields also (r >>= rest) := by
  cases r with
  | error fault => exact first
  | ok a => exact others a first

theorem imp {weaker : α → Prop} (yields : Yields good r) (weaken : ∀ a, good a → weaker a) :
    Yields weaker r := by
  cases r with
  | error fault => exact yields
  | ok a => exact weaken a yields

end Yields

/-! ### Looking into a value -/

namespace Value

theorem yields_mismatch {α : Type} (good : α → Prop) (expected : Shape) (found : Value) :
    Yields good (mismatch expected found) := id

theorem yields_asBool (a : Value) : Yields (fun _ => True) a.asBool := by
  cases a <;> first | exact trivial | exact yields_mismatch _ _ _

theorem yields_asInt (a : Value) : Yields (fun _ => True) a.asInt := by
  cases a <;> first | exact trivial | exact yields_mismatch _ _ _

theorem yields_asString (a : Value) : Yields (fun _ => True) a.asString := by
  cases a <;> first | exact trivial | exact yields_mismatch _ _ _

theorem yields_asBits (a : Value) : Yields (fun bits => a.Normal → IsWidth bits.1) a.asBits := by
  cases a with
  | bits width value => exact fun normal => normal.1
  | _ => exact yields_mismatch _ _ _

end Value

/-! ### Machines -/

/-- All that is untouched by a change of the memory, the reservation, the output or the events. -/
structure Machine.Keeps (m after : Machine) : Prop where
  registers : after.registers = m.registers
  registerNames : after.registerNames = m.registerNames
  exception : after.exception = m.exception
  trace : after.trace = m.trace

namespace Machine

theorem keeps_noteAccess (m : Machine) (kind : AccessKind) (address : UInt64) (width : Nat)
    (value : UInt64) : m.Keeps (m.noteAccess kind address width value) := by
  unfold noteAccess
  split <;> exact ⟨rfl, rfl, rfl, rfl⟩

theorem keeps_noteRegister (m : Machine) (index : Nat) : m.Keeps (m.noteRegister index) := by
  unfold noteRegister
  split
  · split <;> exact ⟨rfl, rfl, rfl, rfl⟩
  · exact ⟨rfl, rfl, rfl, rfl⟩

theorem keeps_notePlatform (m : Machine) (message : String) :
    m.Keeps (m.notePlatform message) := by
  unfold notePlatform
  split <;> exact ⟨rfl, rfl, rfl, rfl⟩

theorem keeps_readMemory (m : Machine) (address : UInt64) (width : Nat) :
    m.Keeps (m.readMemory address width).2 := by
  unfold readMemory
  split
  · exact ⟨rfl, rfl, rfl, rfl⟩
  · rename_i value memory _read
    obtain ⟨registers, names, exception, trace⟩ :=
      keeps_noteAccess { m with memory := memory } .read address width value
    exact ⟨registers, names, exception, trace⟩

theorem keeps_writeMemory (m : Machine) (address : UInt64) (width : Nat) (value : UInt64) :
    m.Keeps (m.writeMemory address width value).2 := by
  unfold writeMemory
  split
  · exact ⟨rfl, rfl, rfl, rfl⟩
  · rename_i memory _wrote
    obtain ⟨registers, names, exception, trace⟩ :=
      keeps_noteAccess { m with memory := memory } .write address width (truncate value width)
    exact ⟨registers, names, exception, trace⟩

end Machine

namespace Support

open Value (yields_asBool yields_asInt yields_asString yields_asBits)

theorem yields_trap {α : Type} (good : α → Prop) (cause : Trap) : Yields good (trap cause) := id

/-! ### Arguments -/

theorem yields_sameWidth (a b : Value) :
    Yields (fun bits => a.Normal → IsWidth bits.1) (sameWidth a b) := by
  unfold sameWidth
  refine (yields_asBits a).bind ?_
  intro first isWidth
  refine (yields_asBits b).bind ?_
  intro second _
  dsimp only
  split
  · exact isWidth
  · exact id

theorem yields_widthArg (a : Value) : Yields IsWidth (widthArg a) := by
  unfold widthArg
  refine (yields_asInt a).bind ?_
  intro n _
  split
  · rename_i range
    change 1 ≤ n.toInt.toNat ∧ n.toInt.toNat ≤ 64
    omega
  · exact yields_trap _ _

theorem yields_shiftArg (a : Value) : Yields (fun _ => True) (shiftArg a) := by
  unfold shiftArg
  refine (yields_asInt a).bind ?_
  intro n _
  split
  · exact trivial
  · exact yields_trap _ _

theorem yields_addressArg (a : Value) : Yields (fun _ => True) (addressArg a) := by
  unfold addressArg
  split
  · exact trivial
  · split
    · exact trivial
    · exact yields_trap _ _
  · exact id

theorem yields_countArg (a : Value) : Yields (fun _ => True) (countArg a) := by
  unfold countArg
  refine (yields_asInt a).bind ?_
  intro n _
  split
  · exact trivial
  · exact yields_trap _ _

/-! ### Computations -/

theorem yields_notBool (a : Value) : Yields Value.Normal (notBool a) := by
  unfold notBool
  refine (yields_asBool a).bind ?_
  intro b _
  exact trivial

theorem yields_andBool (a b : Value) : Yields Value.Normal (andBool a b) := by
  unfold andBool
  refine (yields_asBool a).bind ?_
  intro first _
  split
  · refine (yields_asBool b).bind ?_
    intro second _
    exact trivial
  · exact trivial

theorem yields_orBool (a b : Value) : Yields Value.Normal (orBool a b) := by
  unfold orBool
  refine (yields_asBool a).bind ?_
  intro first _
  split
  · exact trivial
  · refine (yields_asBool b).bind ?_
    intro second _
    exact trivial

theorem yields_compareInt (test : Int → Int → Bool) (a b : Value) :
    Yields Value.Normal (compareInt test a b) := by
  unfold compareInt
  refine (yields_asInt a).bind ?_
  intro m _
  refine (yields_asInt b).bind ?_
  intro n _
  exact trivial

theorem yields_compareBits (test : UInt64 → UInt64 → Bool) (a b : Value) :
    Yields Value.Normal (compareBits test a b) := by
  unfold compareBits
  refine (yields_sameWidth a b).bind ?_
  intro bits _
  exact trivial

theorem yields_equalString (a b : Value) : Yields Value.Normal (equalString a b) := by
  unfold equalString
  refine (yields_asString a).bind ?_
  intro s _
  refine (yields_asString b).bind ?_
  intro t _
  exact trivial

theorem yields_concat (a b : Value) : Yields Value.Normal (concat a b) := by
  unfold concat
  refine (yields_asString a).bind ?_
  intro s _
  refine (yields_asString b).bind ?_
  intro t _
  exact trivial

theorem yields_exactInt (sign : String) (f : Int → Int → Int) (a b : Value) :
    Yields Value.Normal (exactInt sign f a b) := by
  unfold exactInt
  refine (yields_asInt a).bind ?_
  intro m _
  refine (yields_asInt b).bind ?_
  intro n _
  split
  · exact trivial
  · exact yields_trap _ _

theorem yields_combineBits (f : UInt64 → UInt64 → UInt64) (a b : Value) :
    Yields (fun v => a.Normal → v.Normal) (combineBits f a b) := by
  unfold combineBits
  refine (yields_sameWidth a b).bind ?_
  intro bits isWidth normal
  exact Value.normal_ofBits (isWidth normal) _

theorem yields_notBits (a : Value) : Yields (fun v => a.Normal → v.Normal) (notBits a) := by
  unfold notBits
  refine (yields_asBits a).bind ?_
  intro bits isWidth normal
  exact Value.normal_ofBits (isWidth normal) _

theorem yields_addBitsInt (a b : Value) :
    Yields (fun v => a.Normal → v.Normal) (addBitsInt a b) := by
  unfold addBitsInt
  refine (yields_asBits a).bind ?_
  intro bits isWidth
  refine (yields_asInt b).bind ?_
  intro n _ normal
  exact Value.normal_ofBits (isWidth normal) _

theorem yields_shiftLeft (a b : Value) :
    Yields (fun v => a.Normal → v.Normal) (shiftLeft a b) := by
  unfold shiftLeft
  refine (yields_asBits a).bind ?_
  intro bits isWidth
  refine (yields_shiftArg b).bind ?_
  intro n _ normal
  exact Value.normal_ofBits (isWidth normal) _

theorem yields_shiftRight (a b : Value) :
    Yields (fun v => a.Normal → v.Normal) (shiftRight a b) := by
  unfold shiftRight
  refine (yields_asBits a).bind ?_
  intro bits isWidth
  refine (yields_shiftArg b).bind ?_
  intro n _ normal
  exact Value.normal_ofBits (isWidth normal) _

theorem yields_zeroExtend (a b : Value) : Yields Value.Normal (zeroExtend a b) := by
  unfold zeroExtend
  refine (yields_asBits a).bind ?_
  intro bits _
  refine (yields_widthArg b).bind ?_
  intro target isWidth
  split
  · exact yields_trap _ _
  · exact Value.normal_ofBits isWidth _

theorem yields_signExtend (a b : Value) : Yields Value.Normal (signExtend a b) := by
  unfold signExtend
  refine (yields_asBits a).bind ?_
  intro bits _
  refine (yields_widthArg b).bind ?_
  intro target isWidth
  split
  · exact yields_trap _ _
  · exact Value.normal_ofBits isWidth _

theorem yields_slice (a b c : Value) : Yields Value.Normal (slice a b c) := by
  unfold slice
  refine (yields_asBits a).bind ?_
  intro bits _
  refine (yields_shiftArg b).bind ?_
  intro start _
  refine (yields_widthArg c).bind ?_
  intro length isWidth
  split
  · exact yields_trap _ _
  · exact Value.normal_ofBits isWidth _

theorem yields_unsigned (a : Value) : Yields Value.Normal (unsigned a) := by
  unfold unsigned
  refine (yields_asBits a).bind ?_
  intro bits _
  dsimp only
  split
  · exact trivial
  · exact yields_trap _ _

theorem yields_signed (a : Value) : Yields Value.Normal (signed a) := by
  unfold signed
  refine (yields_asBits a).bind ?_
  intro bits _
  exact trivial

theorem yields_intLine (text n : Value) : Yields (fun _ => True) (intLine text n) := by
  unfold intLine
  refine (yields_asString text).bind ?_
  intro s _
  refine (yields_asInt n).bind ?_
  intro i _
  exact trivial

theorem yields_bitsLine (text bits : Value) : Yields (fun _ => True) (bitsLine text bits) := by
  unfold bitsLine
  refine (yields_asString text).bind ?_
  intro s _
  refine (yields_asBits bits).bind ?_
  intro b _
  exact trivial

/-! ### Actions -/

/-- All that a support operation can do to a machine. -/
inductive Action where
  | answer (result : Except RunFault Value)
  | print (line : String)
  | printPlatform (message : String)
  | read (address : UInt64) (width : Nat)
  | write (address : UInt64) (width : Nat) (value : UInt64)
  | ask (flag : TraceFlags → Bool)
  | reserve (address : UInt64)
  | isReserved (address : UInt64)
  | release

namespace Action

def run : Action → Machine → Outcome
  | .answer result, m => (result, m)
  | .print line, m => (.ok .unit, m.print line)
  | .printPlatform message, m => (.ok .unit, (m.notePlatform message).print message)
  | .read address width, m =>
      match m.readMemory address width with
      | (.ok value, m) => (.ok (.ofBits (8 * width) value), m)
      | (.error fault, m) => (.error fault, m)
  | .write address width value, m =>
      match m.writeMemory address width value with
      | (.ok (), m) => (.ok (.bool true), m)
      | (.error fault, m) => (.error fault, m)
  | .ask flag, m => (.ok (.bool (flag m.trace)), m)
  | .reserve address, m => (.ok .unit, { m with reservation := some address })
  | .isReserved address, m => (.ok (.bool (m.reservation == some address)), m)
  | .release, m => (.ok .unit, { m with reservation := none })

theorem run_read (address : UInt64) (width : Nat) (m : Machine) :
    (Action.read address width).run m =
      ((m.readMemory address width).1.map (.ofBits (8 * width)),
        (m.readMemory address width).2) := by
  unfold run
  dsimp only
  rcases m.readMemory address width with ⟨_ | _, after⟩ <;> rfl

theorem run_write (address : UInt64) (width : Nat) (value : UInt64) (m : Machine) :
    (Action.write address width value).run m =
      ((m.writeMemory address width value).1.map fun _ => .bool true,
        (m.writeMemory address width value).2) := by
  unfold run
  dsimp only
  rcases m.writeMemory address width value with ⟨_ | _, after⟩ <;> rfl

/-- An action touches no more than the memory, the reservation, the output and the events. -/
theorem keeps_run (a : Action) (m : Machine) : m.Keeps (a.run m).2 := by
  cases a with
  | printPlatform message =>
      have kept := m.keeps_notePlatform message
      exact ⟨kept.registers, kept.registerNames, kept.exception, kept.trace⟩
  | read address width =>
      rw [run_read]
      exact m.keeps_readMemory address width
  | write address width value =>
      rw [run_write]
      exact m.keeps_writeMemory address width value
  | answer _ | print _ | ask _ | reserve _ | isReserved _ | release => exact ⟨rfl, rfl, rfl, rfl⟩

end Action

/-- The operations that tell a program how it is traced. -/
def flagSymbols : List String :=
  ["get_config_print_instr", "get_config_print_reg", "get_config_print_mem",
    "get_config_print_platform"]

/-- The operations that print a line. -/
def printSymbols : List String :=
  ["print_endline", "print_int", "print_bits", "print_instr", "print_reg", "print_mem_access",
    "print_platform"]

/-- The operations that write to memory. -/
def writeSymbols : List String := ["write_mem", "platform_write_mem"]

/-- The operations that take up a reservation or give it up. -/
def reservationSymbols : List String := ["load_reservation", "cancel_reservation"]

/-- What an operation may do on arguments `args`: it answers with a normal value if they are normal,
its faults have nothing to do with calls, and it must have the right name to ask for a flag, to
print, to write or to change the reservation. One that has the name of a printer does nothing else
but print, or answers with a fault. -/
def Action.Lawful (symbol : String) (args : List Value) : Action → Prop
  | .answer result => Yields (fun v => Value.AllNormal args → v.Normal) result ∧
      (symbol ∈ printSymbols → ∃ fault, result = .error fault)
  | .ask _ => symbol ∈ flagSymbols
  | .print _ | .printPlatform _ => symbol ∈ printSymbols
  | .read _ _ | .isReserved _ => symbol ∉ printSymbols
  | .write _ _ _ => symbol ∈ writeSymbols
  | .reserve _ | .release => symbol ∈ reservationSymbols

/-- A lawful action that is taken yields a normal value from normal arguments. -/
theorem Action.Lawful.yields {symbol : String} {args : List Value} {a : Action}
    (lawful : a.Lawful symbol args) (m : Machine) :
    Yields (fun v => Value.AllNormal args → v.Normal) (a.run m).1 := by
  cases a with
  | answer result => exact lawful.1
  | read address width =>
      rw [Action.run_read]
      unfold Machine.readMemory
      cases read : m.memory.read address width with
      | error fault => exact id
      | ok found =>
          intro _
          refine Value.normal_ofBits ?_ _
          by_cases valid : width ∈ validWidths
          · have range := Memory.width_pos valid
            unfold IsWidth
            omega
          · rw [Memory.read_invalid _ _ valid] at read
            cases read
  | write address width value =>
      rw [Action.run_write]
      unfold Machine.writeMemory
      rcases m.memory.write address width value with ⟨_ | _, memory⟩
      · exact id
      · exact fun _ => trivial
  | print _ | printPlatform _ | ask _ | reserve _ | isReserved _ | release => exact fun _ => trivial

/-- On arguments `args`, whatever the machine, the function comes down to one lawful action. -/
def Does (symbol : String) (args : List Value) (f : Machine → Outcome) : Prop :=
  ∃ a : Action, (∀ m, f m = a.run m) ∧ a.Lawful symbol args

section

variable {symbol : String} {args : List Value}

theorem does_answer {result : Except RunFault Value}
    (yields : Yields (fun v => Value.AllNormal args → v.Normal) result)
    (other : symbol ∉ printSymbols) : Does symbol args fun m => (result, m) :=
  ⟨.answer result, fun _ => rfl, yields, fun printer => absurd printer other⟩

theorem does_fault {fault : RunFault} (other : ¬ fault.OfCall) :
    Does symbol args fun m => (.error fault, m) :=
  ⟨.answer (.error fault), fun _ => rfl, other, fun _ => ⟨fault, rfl⟩⟩

theorem does_printLine {line : Except RunFault String} (yields : Yields (fun _ => True) line)
    (printer : symbol ∈ printSymbols) : Does symbol args (printLine line) := by
  cases line with
  | ok line => exact ⟨.print line, fun _ => rfl, printer⟩
  | error fault => exact does_fault yields

theorem does_printPlatform (printer : symbol ∈ printSymbols) (a : Value) :
    Does symbol args (printPlatform a) := by
  unfold printPlatform
  have yields := yields_asString a
  cases found : a.asString with
  | ok message => exact ⟨.printPlatform message, fun _ => rfl, printer⟩
  | error fault =>
      rw [found] at yields
      exact does_fault yields

theorem does_readAt {address : Except RunFault UInt64} {count : Except RunFault Nat}
    (isAddress : Yields (fun _ => True) address) (isCount : Yields (fun _ => True) count)
    (other : symbol ∉ printSymbols) : Does symbol args (readAt address count) := by
  cases address with
  | error fault => exact does_fault isAddress
  | ok address =>
      cases count with
      | error fault => exact does_fault isCount
      | ok count => exact ⟨.read address count, fun _ => rfl, other⟩

theorem does_writeAt {address : Except RunFault UInt64} {count : Except RunFault Nat}
    {data : Except RunFault (Nat × UInt64)} {good : Nat × UInt64 → Prop}
    (isAddress : Yields (fun _ => True) address) (isCount : Yields (fun _ => True) count)
    (isData : Yields good data) (writer : symbol ∈ writeSymbols) :
    Does symbol args (writeAt address count data) := by
  cases address with
  | error fault => exact does_fault isAddress
  | ok address =>
      cases count with
      | error fault => exact does_fault isCount
      | ok count =>
          cases data with
          | error fault => exact does_fault isData
          | ok data => exact ⟨.write address count data.2, fun _ => rfl, writer⟩

theorem does_reserve (reserves : symbol ∈ reservationSymbols) (a : Value) :
    Does symbol args (reserve a) := by
  unfold reserve
  have yields := yields_addressArg a
  cases found : addressArg a with
  | ok address => exact ⟨.reserve address, fun _ => rfl, reserves⟩
  | error fault =>
      rw [found] at yields
      exact does_fault yields

theorem does_isReserved (other : symbol ∉ printSymbols) (a : Value) :
    Does symbol args (isReserved a) := by
  unfold isReserved
  have yields := yields_addressArg a
  cases found : addressArg a with
  | ok address => exact ⟨.isReserved address, fun _ => rfl, other⟩
  | error fault =>
      rw [found] at yields
      exact does_fault yields

theorem does_release (reserves : symbol ∈ reservationSymbols) (a : Value) :
    Does symbol args (release a) :=
  ⟨.release, fun _ => rfl, reserves⟩

end

/-! ### Operations -/

namespace Operation

/-- What the operation does on arguments `args`; it refuses them if they are not as many as it
takes. -/
structure Acts (op : Operation) (args : List Value) (a : Action) : Prop where
  runs : ∀ m, op.call args m = a.run m
  lawful : args.length = op.arity → a.Lawful op.symbol args
  refuses : args.length ≠ op.arity →
    a = .answer (.error (.arityMismatch op.symbol op.arity args.length))

/-- Whatever its arguments are, the operation comes down to one action. -/
def IsAction (op : Operation) : Prop := ∀ args, ∃ a, op.Acts args a

theorem Acts.yields {op : Operation} {args : List Value} {a : Action} (acts : op.Acts args a)
    (count : args.length = op.arity) (m : Machine) :
    Yields (fun v => Value.AllNormal args → v.Normal) (op.call args m).1 := by
  rw [acts.runs]
  exact (acts.lawful count).yields m

theorem IsAction.keeps {op : Operation} (isAction : op.IsAction) (args : List Value)
    (m : Machine) : m.Keeps (op.call args m).2 := by
  obtain ⟨a, acts⟩ := isAction args
  rw [acts.runs]
  exact a.keeps_run m

variable {symbol : String}

theorem acts_of_does {op : Operation} {args : List Value} (count : args.length = op.arity)
    (does : Does op.symbol args (op.call args)) : ∃ a, op.Acts args a := by
  obtain ⟨a, runs, lawful⟩ := does
  exact ⟨a, runs, fun _ => lawful, fun other => absurd count other⟩

theorem acts_of_refuses {op : Operation} {args : List Value} (other : args.length ≠ op.arity)
    (refuses : ∀ m, op.call args m =
      (.error (.arityMismatch op.symbol op.arity args.length), m)) : ∃ a, op.Acts args a :=
  ⟨.answer _, refuses, fun count => absurd count other, fun _ => rfl⟩

theorem isAction_unary {f : Value → Machine → Outcome} (does : ∀ a, Does symbol [a] (f a)) :
    (unary symbol f).IsAction := by
  intro args
  match args with
  | [a] => exact acts_of_does rfl (does a)
  | [] | _ :: _ :: _ => exact acts_of_refuses (by simp [unary]) fun _ => rfl

theorem isAction_binary {f : Value → Value → Machine → Outcome}
    (does : ∀ a b, Does symbol [a, b] (f a b)) : (binary symbol f).IsAction := by
  intro args
  match args with
  | [a, b] => exact acts_of_does rfl (does a b)
  | [] | [_] | _ :: _ :: _ :: _ => exact acts_of_refuses (by simp [binary]) fun _ => rfl

theorem isAction_ternary {f : Value → Value → Value → Machine → Outcome}
    (does : ∀ a b c, Does symbol [a, b, c] (f a b c)) : (ternary symbol f).IsAction := by
  intro args
  match args with
  | [a, b, c] => exact acts_of_does rfl (does a b c)
  | [] | [_] | [_, _] | _ :: _ :: _ :: _ :: _ =>
      exact acts_of_refuses (by simp [ternary]) fun _ => rfl

theorem isAction_access {f : Value → Value → Machine → Outcome}
    (does : ∀ args a b, Does symbol args (f a b)) : (access symbol f).IsAction := by
  intro args
  match args with
  | [_, _, a, b] => exact acts_of_does rfl (does _ a b)
  | [] | [_] | [_, _] | [_, _, _] | _ :: _ :: _ :: _ :: _ :: _ =>
      exact acts_of_refuses (by simp [access]) fun _ => rfl

theorem isAction_accessWith {f : Value → Value → Value → Machine → Outcome}
    (does : ∀ args a b c, Does symbol args (f a b c)) : (accessWith symbol f).IsAction := by
  intro args
  match args with
  | [_, _, a, b, c] => exact acts_of_does rfl (does _ a b c)
  | [] | [_] | [_, _] | [_, _, _] | [_, _, _, _] | _ :: _ :: _ :: _ :: _ :: _ :: _ =>
      exact acts_of_refuses (by simp [accessWith]) fun _ => rfl

section

variable (other : symbol ∉ printSymbols)

include other

theorem isAction_compute1 {f : Value → Except RunFault Value}
    (yields : ∀ a, Yields (fun v => a.Normal → v.Normal) (f a)) :
    (compute1 symbol f).IsAction := by
  refine isAction_unary fun a => does_answer ?_ other
  exact (yields a).imp fun v kept normal => kept normal.1

/-- Of the arguments of these operations only the first one lends its width to the result. -/
theorem isAction_compute2 {f : Value → Value → Except RunFault Value}
    (yields : ∀ a b, Yields (fun v => a.Normal → v.Normal) (f a b)) :
    (compute2 symbol f).IsAction := by
  refine isAction_binary fun a b => does_answer ?_ other
  exact (yields a b).imp fun v kept normal => kept normal.1

theorem isAction_normal1 {f : Value → Except RunFault Value}
    (yields : ∀ a, Yields Value.Normal (f a)) : (compute1 symbol f).IsAction :=
  isAction_compute1 other fun a => (yields a).imp fun _ normal _ => normal

theorem isAction_normal2 {f : Value → Value → Except RunFault Value}
    (yields : ∀ a b, Yields Value.Normal (f a b)) : (compute2 symbol f).IsAction :=
  isAction_compute2 other fun a b => (yields a b).imp fun _ normal _ => normal

theorem isAction_normal3 {f : Value → Value → Value → Except RunFault Value}
    (yields : ∀ a b c, Yields Value.Normal (f a b c)) : (compute3 symbol f).IsAction := by
  refine isAction_ternary fun a b c => does_answer ?_ other
  exact (yields a b c).imp fun v normal _ => normal

end

end Operation

/-! ### The library -/

section

open Operation

theorem isAction_of_mem_logic : ∀ op ∈ logic, op.IsAction := by
  have equal (a b : Value) : Yields Value.Normal (equal a b) := trivial
  simp [logic, printSymbols, isAction_normal1, isAction_normal2, yields_notBool, yields_andBool,
    yields_orBool, equal]

theorem isAction_of_mem_integers : ∀ op ∈ integers, op.IsAction := by
  simp [integers, printSymbols, isAction_normal2, yields_compareInt, yields_exactInt]

theorem isAction_of_mem_bitvectors : ∀ op ∈ bitvectors, op.IsAction := by
  simp [bitvectors, printSymbols, isAction_normal1, isAction_normal2, isAction_normal3,
    isAction_compute1, isAction_compute2, yields_compareBits, yields_combineBits, yields_addBitsInt,
    yields_notBits, yields_shiftLeft, yields_shiftRight, yields_zeroExtend, yields_signExtend,
    yields_slice, yields_unsigned, yields_signed]

theorem isAction_of_mem_strings : ∀ op ∈ strings, op.IsAction := by
  have equal (a b : Value) : Yields Value.Normal (equal a b) := trivial
  simp [strings, printSymbols, isAction_normal2, yields_equalString, yields_concat, equal]

theorem isAction_printLine : ∀ symbol ∈ printSymbols,
    (unary symbol fun a => printLine a.asString).IsAction := by
  intro symbol printer
  exact isAction_unary fun a => does_printLine (yields_asString a) printer

theorem isAction_of_mem_printers : ∀ op ∈ printers, op.IsAction := by
  have lines := isAction_printLine
  have ints := @isAction_binary "print_int" _ fun a b =>
    does_printLine (yields_intLine a b) (by simp [printSymbols])
  have bits := @isAction_binary "print_bits" _ fun a b =>
    does_printLine (yields_bitsLine a b) (by simp [printSymbols])
  simp only [printSymbols, List.forall_mem_cons] at lines
  simp [printers, lines, ints, bits]

theorem isAction_of_mem_accesses : ∀ op ∈ accesses, op.IsAction := by
  have one : Yields (fun _ => True) (.ok 1 : Except RunFault Nat) := trivial
  have read := @isAction_unary "read_mem" _ fun a =>
    does_readAt (yields_addressArg a) one (by simp [printSymbols])
  have write := @isAction_binary "write_mem" _ fun a b =>
    does_writeAt (yields_addressArg a) one (yields_asBits b) (by simp [writeSymbols])
  have readMany := @isAction_access "platform_read_mem" _ fun _ a b =>
    does_readAt (yields_addressArg a) (yields_countArg b) (by simp [printSymbols])
  have writeMany := @isAction_accessWith "platform_write_mem" _ fun _ a b c =>
    does_writeAt (yields_addressArg a) (yields_countArg b) (yields_asBits c)
      (by simp [writeSymbols])
  simp [accesses, read, write, readMany, writeMany]

theorem isAction_of_mem_tracing : ∀ op ∈ tracing, op.IsAction := by
  have flags : ∀ symbol ∈ flagSymbols, ∀ f, (flag symbol f).IsAction := by
    intro symbol known f
    exact isAction_unary fun _ => ⟨.ask f, fun _ => rfl, known⟩
  have lines := isAction_printLine
  have platform := @isAction_unary "print_platform" _ fun a =>
    does_printPlatform (by simp [printSymbols]) a
  simp only [flagSymbols, List.forall_mem_cons] at flags
  simp only [printSymbols, List.forall_mem_cons] at lines
  simp [tracing, flags, lines, platform]

theorem isAction_of_mem_reservations : ∀ op ∈ reservations, op.IsAction := by
  have load := @isAction_unary "load_reservation" _ fun a =>
    does_reserve (by simp [reservationSymbols]) a
  have test := @isAction_unary "match_reservation" _ fun a =>
    does_isReserved (by simp [printSymbols]) a
  have cancel := @isAction_unary "cancel_reservation" _ fun a =>
    does_release (by simp [reservationSymbols]) a
  simp [reservations, load, test, cancel]

theorem isAction_of_mem_undefinedValues : ∀ op ∈ undefinedValues, op.IsAction := by
  have constant (symbol) (other : symbol ∉ printSymbols) (v : Value) (normal : v.Normal) :
      (compute1 symbol fun _ => .ok v).IsAction := isAction_normal1 other fun _ => normal
  have bool := constant "undefined_bool" (by simp [printSymbols]) (.bool false) trivial
  have int := constant "undefined_int" (by simp [printSymbols]) (.int 0) trivial
  have unit := constant "undefined_unit" (by simp [printSymbols]) .unit trivial
  simp [undefinedValues, bool, int, unit]

theorem isAction_of_mem : ∀ op ∈ library, op.IsAction := by
  unfold library
  simp only [List.forall_mem_append]
  exact ⟨⟨⟨⟨⟨⟨⟨⟨isAction_of_mem_logic, isAction_of_mem_integers⟩, isAction_of_mem_bitvectors⟩,
    isAction_of_mem_strings⟩, isAction_of_mem_printers⟩, isAction_of_mem_accesses⟩,
    isAction_of_mem_tracing⟩, isAction_of_mem_reservations⟩, isAction_of_mem_undefinedValues⟩

theorem isAction_of_find? {symbol : String} {op : Operation} (found : find? symbol = some op) :
    op.IsAction :=
  isAction_of_mem op (List.mem_of_find?_eq_some found)

end

end Support

end JumpIR
