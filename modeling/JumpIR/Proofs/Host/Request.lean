import JumpIR.Compile.Pipeline
import JumpIR.Proofs.Driver.Invariant

/-!
# Requests of a host

A host calls functions of a simulator by name, sets registers, loads images and starts the step
loop. `Request.perform` is all of these in one; a request that is not done within the budget has no
reply. `Simulator.Reaches` is what any number of requests can lead to.
-/

set_option autoImplicit false

namespace JumpIR

inductive Request where
  | call (name : String) (args : List Value)
  | setRegister (name : String) (value : Value)
  | loadImage (image : Image)
  | drive (config : DriverConfig)

inductive Reply where
  | called (result : Except RunFault Value)
  | set (result : Except RunFault Unit)
  | loaded (result : Except RunFault Image.Report)
  | drove (result : Except RunFault RunSummary)

/-- The reply to a request, and the simulator behind it. -/
def Request.perform (budget : Nat) (s : Simulator) : Request → Option (Reply × Simulator)
  | .call name args => (s.call budget name args).map fun (result, s) => (.called result, s)
  | .setRegister name value =>
      match s.setRegister name value with
      | .ok s => some (.set (.ok ()), s)
      | .error fault => some (.set (.error fault), s)
  | .loadImage image =>
      let (result, s) := s.loadImage image
      some (.loaded result, s)
  | .drive config => (Driver.run config budget s).map fun (result, s) => (.drove result, s)

namespace Simulator

theorem setRegister_ok {s after : Simulator} {name : String} {value : Value}
    (set : s.setRegister name value = .ok after) :
    ∃ index, s.machine.registerIndex? name = some index ∧ index < s.machine.registers.length ∧
      after = { s with machine := s.machine.setRegister index value } := by
  unfold setRegister at set
  split at set
  · cases set
  · rename_i index found
    split at set
    · rename_i bound
      cases set
      exact ⟨index, found, bound, rfl⟩
    · cases set

/-- Loading an image changes the memory only. -/
theorem exists_memory_of_loadImage (s : Simulator) (image : Image) :
    ∃ memory,
      (s.loadImage image).2 = { s with machine := { s.machine with memory := memory } } := by
  unfold loadImage
  rcases image.load s.machine.memory with ⟨_ | report, memory⟩
  · exact ⟨memory, rfl⟩
  · exact ⟨memory, rfl⟩

end Simulator

/-- The program stays as it is, whatever a host asks for. -/
theorem Request.linked_of_perform {s after : Simulator} {budget : Nat} {request : Request}
    {reply : Reply} (performed : request.perform budget s = some (reply, after)) :
    after.linked = s.linked := by
  unfold perform at performed
  cases request with
  | call name args =>
      obtain ⟨outcome, called, same⟩ := Option.map_eq_some_iff.mp performed
      cases same
      exact Simulator.linked_of_call called
  | setRegister name value =>
      dsimp only at performed
      split at performed
      · rename_i changed set
        cases performed
        obtain ⟨index, _found, _bound, same⟩ := Simulator.setRegister_ok set
        rw [same]
      · cases performed
        rfl
  | loadImage image =>
      cases performed
      obtain ⟨memory, same⟩ := s.exists_memory_of_loadImage image
      have kept := congrArg Simulator.linked same
      exact kept
  | drive config =>
      obtain ⟨outcome, ran, same⟩ := Option.map_eq_some_iff.mp performed
      cases same
      exact (Driver.keeps_linked config budget s.linked).run rfl ran

/-- A simulator comes from another one by requests of one sort, each with its own budget. -/
inductive Simulator.Reaches (sort : Request → Prop) (s : Simulator) : Simulator → Prop where
  | refl : Reaches sort s s
  | tail {t after : Simulator} {budget : Nat} {request : Request} {reply : Reply}
      (before : Reaches sort s t) (ofSort : sort request)
      (performed : request.perform budget t = some (reply, after)) : Reaches sort s after

theorem Simulator.Reaches.linked {sort : Request → Prop} {s t : Simulator}
    (reached : s.Reaches sort t) : t.linked = s.linked := by
  induction reached with
  | refl => rfl
  | tail _before _ofSort performed ih => exact (Request.linked_of_perform performed).trans ih

/-- The text of a function that stores a byte, sets a register and loads the byte again. -/
def echoText : SourceText := .ofString "echo" (String.join [
  "register zpc : %bv64\n",
  "val zload = \"read_mem\" : (%bv64) -> %bv8\n",
  "val zsave = \"write_mem\" : (%bv64, %bv8) -> %bool\n",
  "val zmain : (%bv64) -> %bv8\n",
  "fn zmain(za) \x7b zok : %bool = zsave(za, 0xAB); zpc = za; return = zload(za); end; \x7d\n"])

def TraceFlags.all : TraceFlags := ⟨true, true, true, true, false⟩

end JumpIR
