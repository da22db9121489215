import JumpIR.Compile.Result
import JumpIR.Proofs.Diagnostic.Codec
import JumpIR.Proofs.Machine.Codec
import JumpIR.Proofs.Program.RoundTrip

/-!
# Everything that is exchanged as JSON is read back

The outcome of a compilation holds a program and diagnostics, and is read back unless the program is
nested too deeply. Main statement: `readsBack_and_takesDefaults`, for all that is written and read as JSON.
-/

set_option autoImplicit false

namespace JumpIR

open Json

variable {limit room : Nat} {members : List (String × Json)}

namespace Lowering.Options

theorem encodes (o : Options) : Encodes limit decode o.encode o :=
  encodes_record (fun _ _ => rfl) (fun _ => rfl) (.only (encodes_bool _))

theorem depth_encode (o : Options) : o.encode.depth = 1 := rfl

theorem readsBack (o : Options) : ReadsBack decode encode o := by
  refine readsBack_of_encodes o.encodes ?_
  rw [depth_encode]
  decide

/-- The members of an object tell these options. -/
structure Told (room : Nat) (members : List (String × Json)) (o : Options) : Prop where
  checkCalls : Tells room members "insert_propagation_checks" decodeBool default.checkCalls
    o.checkCalls

theorem decode_iff_told (distinct : (members.map Prod.fst).Nodup) {o : Options} :
    decode (room + 1) (.object members) = some o ↔ Told room members o := by
  unfold decode
  rw [openRecord?_of_nodup distinct]
  simp only [List.map_cons, List.map_nil, Option.bind_eq_bind, Option.bind_some,
    Option.map_eq_some_iff, withDefault_slotOf_iff]
  constructor
  · intro read
    rcases read with ⟨_, checkCalls, same⟩
    subst same
    exact ⟨checkCalls⟩
  · intro told
    exact ⟨_, told.checkCalls, rfl⟩

/-- The option if it is given by name, and its default otherwise. -/
def only (members : List (String × Json)) (o : Options) : Options :=
  ⟨pick members "insert_propagation_checks" default.checkCalls o.checkCalls⟩

theorem told_only {o : Options} {all : List (String × Json)} (encoded : o.encode = .object all)
    (gives : Gives members all) : Told room members (o.only members) := by
  cases encoded
  have distinct : ["insert_propagation_checks"].Nodup := by decide
  exact ⟨gives.tells distinct (by simp) (encodes_bool _) (Nat.zero_le _)⟩

theorem takesDefaults :
    TakesDefaults decode encode (fun _ => True) (Told (nestingLimit - 1)) only :=
  takesDefaults_of_told (fun _ _ distinct => decode_iff_told distinct) fun _ _ _ _ => told_only

end Lowering.Options

namespace CompileResult

structure Fits (r : CompileResult) : Prop where
  program : ∀ p, r.program = some p → p.Fits
  errors : r.errors.Fits

theorem encodes {r : CompileResult} (fits : r.Fits) : Encodes limit decode r.encode r := by
  have program : Encodes limit (decodeOption Program.decode)
      (encodeOption Program.encode r.program) r.program :=
    encodes_option fun p present =>
      ⟨Program.encodes (fits.program p present), fun null => nomatch null⟩
  exact encodes_record (fun _ _ => rfl) (fun _ => rfl)
    (.field (encodes_bool _) (.optionalField program
      (.optionalField (encodes_optionalText _) (.field (Diagnostics.encodes fits.errors) .done))))

theorem readsBack {r : CompileResult} (fits : r.Fits) (shallow : r.encode.depth ≤ nestingLimit) :
    ReadsBack decode encode r :=
  readsBack_of_encodes (encodes fits) shallow

end CompileResult

/-! ### All codecs -/

/-- What is written as JSON is read back from both of its texts, field by field, if its numbers fit
and it is not nested too deeply, which only a program can be. From the text of any object that gives
some of its fields, in any order, a configuration is read with those and with its defaults for all
others. -/
theorem readsBack_and_takesDefaults :
    ((∀ c : SimConfig, c.Fits → ReadsBack SimConfig.decode SimConfig.encode c) ∧
      (∀ t : TraceFlags, ReadsBack TraceFlags.decode TraceFlags.encode t) ∧
      (∀ k : MemoryKind, k.Fits → ReadsBack MemoryKind.decode MemoryKind.encode k) ∧
      (∀ c : DriverConfig, c.Fits → ReadsBack DriverConfig.decode DriverConfig.encode c) ∧
      (∀ o : Lowering.Options, ReadsBack Lowering.Options.decode Lowering.Options.encode o) ∧
      (∀ i : Image, ReadsBack Image.decode Image.encode i) ∧
      (∀ s : RunSummary, s.Fits → ReadsBack RunSummary.decode RunSummary.encode s) ∧
      (∀ a : MemoryAccess, a.Fits → ReadsBack MemoryAccess.decode MemoryAccess.encode a) ∧
      (∀ d : Diagnostic, d.Fits → ReadsBack Diagnostic.decode Diagnostic.encode d) ∧
      (∀ ds : Diagnostics, ds.Fits → ReadsBack Diagnostics.decode Diagnostics.encode ds) ∧
      ∀ r : CompileResult, r.Fits → r.encode.depth ≤ nestingLimit →
        ReadsBack CompileResult.decode CompileResult.encode r) ∧
    TakesDefaults SimConfig.decode SimConfig.encode SimConfig.Fits
      (SimConfig.Told (nestingLimit - 1)) SimConfig.only ∧
    TakesDefaults TraceFlags.decode TraceFlags.encode (fun _ => True)
      (TraceFlags.Told (nestingLimit - 1)) TraceFlags.only ∧
    TakesDefaults DriverConfig.decode DriverConfig.encode DriverConfig.Fits
      (DriverConfig.Told (nestingLimit - 1)) DriverConfig.only ∧
    TakesDefaults Lowering.Options.decode Lowering.Options.encode (fun _ => True)
      (Lowering.Options.Told (nestingLimit - 1)) Lowering.Options.only := by
  refine ⟨⟨?_, ?_, ?_, ?_, ?_, ?_, ?_, ?_, ?_, ?_, ?_⟩, SimConfig.takesDefaults,
    TraceFlags.takesDefaults, DriverConfig.takesDefaults, Lowering.Options.takesDefaults⟩
  · exact fun _ => SimConfig.readsBack
  · exact TraceFlags.readsBack
  · exact fun _ => MemoryKind.readsBack
  · exact fun _ => DriverConfig.readsBack
  · exact Lowering.Options.readsBack
  · exact Image.readsBack
  · exact fun _ => RunSummary.readsBack
  · exact fun _ => MemoryAccess.readsBack
  · exact fun _ => Diagnostic.readsBack
  · exact fun _ => Diagnostics.readsBack
  · exact fun _ => CompileResult.readsBack

/-- A part of a configuration, some of it in part, and a member that no configuration has. -/
def partly : List (String × Json) :=
  [("max_call_depth", .int 7), ("other", .null), ("trace", .object [("print_reg", .bool true)])]

/-- Two fields of a configuration of the step loop, the last one first. -/
def swapped : List (String × Json) := [("pc_register", .text "zpc"), ("insn_limit", .int 0)]

/-- The largest capacity, a diagnostic at the ends of its ranges beside a program, and parts of two
configurations. -/
theorem readsBack_and_takesDefaults_extreme :
    ReadsBack SimConfig.decode SimConfig.encode
      ⟨.flat 18446744073709551615, ⟨true, false, true, false, true⟩, 0⟩ ∧
    ReadsBack CompileResult.decode CompileResult.encode
      ⟨true, some .extreme, none, ⟨[⟨"z", ⟨65535⟩, .generation, "\"", ⟨⟨4294967295, 0⟩, ⟨0, 1⟩⟩, ""⟩],
        18446744073709551615⟩⟩ ∧
    ofText? SimConfig.decode (Json.object partly).compact =
      some ⟨.sparse, ⟨false, true, false, false, false⟩, 7⟩ ∧
    ofText? DriverConfig.decode (Json.object swapped).indented =
      some ⟨"zstep", [], 100, 0, none, some "zpc"⟩ := by
  have codecs := readsBack_and_takesDefaults
  refine ⟨?_, ?_, ?_, ?_⟩
  · exact codecs.1.1 _ ⟨by simp [MemoryKind.Fits], by decide⟩
  · refine codecs.1.2.2.2.2.2.2.2.2.2.2 _ ⟨?_, ?_⟩ (by decide)
    · intro p present
      cases present
      exact Program.extreme_fits
    · refine ⟨fun d member => ?_, by decide⟩
      cases List.mem_singleton.mp member
      exact ⟨by decide, ⟨by decide, by decide, by decide, by decide⟩⟩
  · have exactly : (Json.object partly).IsExact := ⟨rfl, trivial, ⟨trivial, trivial⟩, trivial⟩
    have reads := codecs.2.1.reads _ partly (parse?_compact exactly) (by decide)
    exact (reads _).mpr ⟨rfl, rfl, rfl⟩
  · have exactly : (Json.object swapped).IsExact := ⟨trivial, rfl, trivial⟩
    have gives : Gives swapped
        [("step_function", .text "zrun"), ("tick_functions", .array [.text "ztick"]),
          ("insns_per_tick", .int 5), ("insn_limit", .int 0), ("done_register", .null),
          ("pc_register", .text "zpc")] := ⟨by decide, by simp [swapped]⟩
    exact codecs.2.2.2.1.fills _ swapped (parse?_indented exactly)
      ⟨"zrun", ["ztick"], 5, 0, none, some "zpc"⟩ _ ⟨by decide, by decide⟩ rfl gives

end JumpIR
