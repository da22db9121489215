import JumpIR.Proofs.Reference.Simulation

/-!
# Compiled programs do what their texts say

Main statement: `call_iff_reference`. A call of a compiled function ends in a simulator exactly if
it ends in the reference interpreter, and then with the same result or fault and the same machine.
-/

set_option autoImplicit false

namespace JumpIR

namespace Reference

open Lowering

theorem ofLinked_eq (c : Compilation) (maxCallDepth : Nat) :
    Module.ofLinked c.linked c.options maxCallDepth = .ok (c.reference maxCallDepth) := by
  unfold Module.ofLinked
  rw [bind_of_ok c.declared]
  dsimp only
  rw [bind_of_ok c.ofDecls]
  rfl

theorem links_of_create {c : Compilation} {config : SimConfig} {s : Simulator}
    (created : Simulator.create c.program config = .ok s) :
    c.Links s.linked ∧ s.linked.maxCallDepth = config.maxCallDepth := by
  obtain ⟨supports, found, created⟩ := bind_ok created
  obtain ⟨values, _defaults, created⟩ := bind_ok created
  split at created
  · cases created
  · cases created
    exact ⟨⟨rfl, found⟩, rfl⟩

theorem call_unknown {c : Compilation} {name : String} (maxCallDepth fuel : Nat)
    (args : List Value) (m : Machine) (unknown : c.program.functionId? name = none) :
    call (c.reference maxCallDepth) fuel 0 name args m =
      some (.error (.unknownFunction name), m) := by
  rw [Compilation.functionId?_eq, Option.map_eq_none_iff, List.findIdx?_eq_none_iff] at unknown
  have absent : (c.reference maxCallDepth).functions.find? (fun f => f.name == name) = none := by
    rw [List.find?_eq_none]
    intro f member
    exact Bool.eq_false_iff.mp (unknown f member)
  unfold call enter
  rw [absent]

end Reference

open Reference

/-- Lowering keeps the meaning of a text, with and without checked calls: for every text that
compiles, every function, all arguments and every machine. -/
theorem call_iff_reference {source : SourceText} {options : Lowering.Options} {program : Program}
    {config : SimConfig} {s : Simulator} (compiled : source.compile options = .ok program)
    (created : Simulator.create program config = .ok s) :
    ∃ linked reference, source.linked = .ok linked ∧
      Reference.Module.ofLinked linked options config.maxCallDepth = .ok reference ∧
      ∀ (name : String) (args : List Value) (machine : Machine) (result : Except RunFault Value)
        (after : Simulator),
        (∃ budget, Simulator.call { s with machine := machine } budget name args =
          some (result, after)) ↔
        after.linked = s.linked ∧
          ∃ fuel, Reference.call reference fuel 0 name args machine =
            some (result, after.machine) := by
  obtain ⟨c, linked, rfl, rfl⟩ := Lowering.exists_compilation compiled
  obtain ⟨links, depth⟩ := links_of_create created
  refine ⟨c.linked, c.reference config.maxCallDepth, linked, ofLinked_eq c config.maxCallDepth, ?_⟩
  intro name args machine result after
  unfold Simulator.call
  dsimp only
  rw [links.program]
  cases named : c.program.functionId? name with
  | none =>
      have unknown := fun fuel => call_unknown config.maxCallDepth fuel args machine named
      constructor
      · rintro ⟨budget, done⟩
        cases done
        exact ⟨rfl, budget, unknown budget⟩
      · rintro ⟨kept, fuel, done⟩
        have found := Option.some.inj ((unknown fuel).symm.trans done)
        obtain ⟨linked', machine'⟩ := after
        cases kept
        cases found
        exact ⟨0, rfl⟩
  | some id =>
      have same := linked_call_iff links named args machine
      rw [depth] at same
      dsimp only
      constructor
      · rintro ⟨budget, done⟩
        obtain ⟨outcome, called, made⟩ := Option.map_eq_some_iff.mp done
        cases made
        exact ⟨rfl, (same outcome).mp ⟨budget, called⟩⟩
      · rintro ⟨kept, fuel, done⟩
        obtain ⟨linked', machine'⟩ := after
        cases kept
        obtain ⟨budget, called⟩ := (same (result, machine')).mpr ⟨fuel, done⟩
        refine ⟨budget, ?_⟩
        rw [called]
        rfl

/-- The text of a function that throws if it is told to, and of one that calls it. -/
def throwText : SourceText := .ofString "throw" (String.join [
  "val zthrow : (%bool) -> %unit\n",
  "fn zthrow(zb) \x7b jump zb goto 2; end; have_exception = true; end; \x7d\n",
  "val zcall : (%bool) -> %bool\n",
  "fn zcall(zb) \x7b zu : %unit = zthrow(zb); return = true; end; \x7d\n"])

theorem throwText_compiles : ∃ program s, throwText.compile .default = .ok program ∧
    Simulator.create program .default = .ok s := by
  have works : throwText.simulator?.isSome = true := by
    decide +kernel
  obtain ⟨⟨program, s⟩, found⟩ := Option.isSome_iff_exists.mp works
  exact ⟨program, s, SourceText.compile_of_simulator? found⟩

theorem call_iff_reference_throwText : ∃ program s,
    throwText.compile .default = .ok program ∧ Simulator.create program .default = .ok s ∧
    ∃ linked reference, throwText.linked = .ok linked ∧
      Reference.Module.ofLinked linked .default SimConfig.default.maxCallDepth = .ok reference ∧
      ∀ (result : Except RunFault Value) (after : Simulator),
        (∃ budget, Simulator.call s budget "zcall" [.bool true] = some (result, after)) ↔
        after.linked = s.linked ∧
          ∃ fuel, Reference.call reference fuel 0 "zcall" [.bool true] s.machine =
            some (result, after.machine) := by
  obtain ⟨program, s, compiled, created⟩ := throwText_compiles
  obtain ⟨linked, reference, isLinked, refers, same⟩ := call_iff_reference compiled created
  exact ⟨program, s, compiled, created, linked, reference, isLinked, refers,
    fun result after => same "zcall" [.bool true] s.machine result after⟩

end JumpIR
