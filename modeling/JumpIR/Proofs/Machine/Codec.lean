import JumpIR.Machine.Codec
import JumpIR.Proofs.Json.Defaults

/-!
# Configurations and reports are read back

Every configuration, image, access and summary whose numbers have 64 bits is read back from its
texts. From an object that gives only some of its fields a configuration takes those, and its
defaults for all others.
-/

set_option autoImplicit false

namespace JumpIR

open Json

variable {limit room : Nat} {members : List (String × Json)}

/-! ### Memory -/

namespace MemoryKind

def Fits : MemoryKind → Prop
  | .flat capacity => capacity < UInt64.size
  | .sparse => True

theorem ofName?_flat (slot : Slot) :
    ofName? "flat" room (some slot) = (required decodeU64 room slot).map flat := by
  rw [ofName?, if_pos rfl, Option.map_eq_bind]
  rfl

/-- The member `kind` tells that `capacity` counts, which then is read like a field. -/
theorem decode_flat {value : Json} (readable : value.isReadable room = true) :
    decode (room + 1) (.object [("kind", .text "flat"), ("capacity", value)]) =
      (required decodeU64 room (.given value)).map flat := by
  have opens : decode (room + 1) (.object [("kind", .text "flat"), ("capacity", value)]) =
      (guard (membersReadable room [("capacity", value)]) : Option Unit).bind fun _ =>
        ofName? "flat" room (some (.given value)) := rfl
  rw [opens, membersReadable, readable, ofName?_flat]
  rfl

theorem encodes {k : MemoryKind} (fits : k.Fits) : Encodes limit decode k.encode k := by
  cases k with
  | flat capacity =>
      exact encodes_object (fun _ _ => decode_flat rfl) (.skip trivial (.only (encodes_u64 fits)))
  | sparse => exact encodes_object (fun _ _ => rfl) (.skip trivial .done)

theorem depth_encode (k : MemoryKind) : k.encode.depth = 1 := by
  cases k <;> rfl

theorem readsBack {k : MemoryKind} (fits : k.Fits) : ReadsBack decode encode k := by
  refine readsBack_of_encodes (encodes fits) ?_
  rw [depth_encode]
  decide

end MemoryKind

/-! ### Configurations -/

namespace TraceFlags

theorem encodes (t : TraceFlags) : Encodes limit decode t.encode t :=
  encodes_record (fun _ _ => rfl) (fun _ => rfl)
    (.defaultField (encodes_bool _) (.defaultField (encodes_bool _)
      (.defaultField (encodes_bool _) (.defaultField (encodes_bool _)
        (.defaultField (encodes_bool _) .done)))))

theorem depth_encode (t : TraceFlags) : t.encode.depth = 1 := rfl

theorem readsBack (t : TraceFlags) : ReadsBack decode encode t := by
  refine readsBack_of_encodes t.encodes ?_
  rw [depth_encode]
  decide

/-- The members of an object tell these flags. -/
structure Told (room : Nat) (members : List (String × Json)) (t : TraceFlags) : Prop where
  instructions : Tells room members "print_instr" decodeBool none.instructions t.instructions
  registers : Tells room members "print_reg" decodeBool none.registers t.registers
  memory : Tells room members "print_mem_access" decodeBool none.memory t.memory
  platform : Tells room members "print_platform" decodeBool none.platform t.platform
  echo : Tells room members "echo_output" decodeBool none.echo t.echo

theorem decode_iff_told (distinct : (members.map Prod.fst).Nodup) {t : TraceFlags} :
    decode (room + 1) (.object members) = some t ↔ Told room members t := by
  unfold decode
  rw [openRecord?_of_nodup distinct]
  simp only [fieldNames, List.map_cons, List.map_nil, Option.bind_eq_bind, Option.bind_some,
    Option.bind_eq_some_iff, withDefault_slotOf_iff, Option.some.injEq]
  constructor
  · intro read
    rcases read with ⟨_, instructions, _, registers, _, memory, _, platform, _, echo, same⟩
    subst same
    exact ⟨instructions, registers, memory, platform, echo⟩
  · intro told
    exact ⟨_, told.instructions, _, told.registers, _, told.memory, _, told.platform, _, told.echo,
      rfl⟩

/-- The flags that are given by name; the others have their defaults. -/
def only (members : List (String × Json)) (t : TraceFlags) : TraceFlags :=
  ⟨pick members "print_instr" none.instructions t.instructions,
    pick members "print_reg" none.registers t.registers,
    pick members "print_mem_access" none.memory t.memory,
    pick members "print_platform" none.platform t.platform,
    pick members "echo_output" none.echo t.echo⟩

theorem told_only {t : TraceFlags} {all : List (String × Json)} (encoded : t.encode = .object all)
    (gives : Gives members all) : Told room members (t.only members) := by
  cases encoded
  have distinct : fieldNames.Nodup := by decide
  have flag : ∀ {name : String} {default b : Bool}, (name, Json.bool b) ∈ _ →
      Tells room members name decodeBool default (pick members name default b) :=
    fun here => gives.tells distinct here (encodes_bool _) (Nat.zero_le _)
  constructor <;> exact flag (by simp)

theorem takesDefaults :
    TakesDefaults decode encode (fun _ => True) (Told (nestingLimit - 1)) only :=
  takesDefaults_of_told (fun _ _ distinct => decode_iff_told distinct) fun _ _ _ _ => told_only

end TraceFlags

namespace SimConfig

structure Fits (c : SimConfig) : Prop where
  memory : c.memory.Fits
  maxCallDepth : c.maxCallDepth < UInt64.size

theorem encodes {c : SimConfig} (fits : c.Fits) : Encodes limit decode c.encode c :=
  encodes_record (fun _ _ => rfl) (fun _ => rfl)
    (.defaultField (MemoryKind.encodes fits.memory) (.defaultField (TraceFlags.encodes _)
      (.defaultField (encodes_u64 fits.maxCallDepth) .done)))

theorem depth_encode (c : SimConfig) : c.encode.depth = 2 := by
  have memory := c.memory.depth_encode
  have trace := c.trace.depth_encode
  simp only [encode, depth, membersDepth, memory, trace]
  rfl

theorem readsBack {c : SimConfig} (fits : c.Fits) : ReadsBack decode encode c := by
  refine readsBack_of_encodes (encodes fits) ?_
  rw [depth_encode]
  decide

/-- The members of an object tell this configuration. -/
structure Told (room : Nat) (members : List (String × Json)) (c : SimConfig) : Prop where
  memory : Tells room members "memory" MemoryKind.decode default.memory c.memory
  trace : Tells room members "trace" TraceFlags.decode default.trace c.trace
  maxCallDepth :
    Tells room members "max_call_depth" decodeU64 default.maxCallDepth c.maxCallDepth

theorem decode_iff_told (distinct : (members.map Prod.fst).Nodup) {c : SimConfig} :
    decode (room + 1) (.object members) = some c ↔ Told room members c := by
  unfold decode
  rw [openRecord?_of_nodup distinct]
  simp only [List.map_cons, List.map_nil, Option.bind_eq_bind, Option.bind_some,
    Option.bind_eq_some_iff, withDefault_slotOf_iff, Option.some.injEq]
  constructor
  · intro read
    rcases read with ⟨_, memory, _, trace, _, maxCallDepth, same⟩
    subst same
    exact ⟨memory, trace, maxCallDepth⟩
  · intro told
    exact ⟨_, told.memory, _, told.trace, _, told.maxCallDepth, rfl⟩

/-- What is given of a configuration by name, with defaults for the rest. -/
def only (members : List (String × Json)) (c : SimConfig) : SimConfig :=
  ⟨pick members "memory" default.memory c.memory, pick members "trace" default.trace c.trace,
    pick members "max_call_depth" default.maxCallDepth c.maxCallDepth⟩

theorem told_only {c : SimConfig} {all : List (String × Json)} (fits : c.Fits)
    (encoded : c.encode = .object all) (gives : Gives members all) :
    Told (room + 1) members (c.only members) := by
  cases encoded
  have distinct : ["memory", "trace", "max_call_depth"].Nodup := by decide
  have memory : c.memory.encode.depth ≤ room + 1 := by
    rw [MemoryKind.depth_encode]
    exact Nat.le_add_left 1 room
  have trace : c.trace.encode.depth ≤ room + 1 := Nat.le_add_left 1 room
  constructor
  · exact gives.tells distinct (by simp) (MemoryKind.encodes fits.memory) memory
  · exact gives.tells distinct (by simp) c.trace.encodes trace
  · exact gives.tells distinct (by simp) (encodes_u64 fits.maxCallDepth) (Nat.zero_le _)

theorem takesDefaults : TakesDefaults decode encode Fits (Told (nestingLimit - 1)) only :=
  takesDefaults_of_told (fun _ _ distinct => decode_iff_told distinct) fun _ _ _ => told_only

end SimConfig

namespace DriverConfig

structure Fits (c : DriverConfig) : Prop where
  insnsPerTick : c.insnsPerTick < UInt64.size
  insnLimit : c.insnLimit < UInt64.size

theorem encodes {c : DriverConfig} (fits : c.Fits) : Encodes limit decode c.encode c :=
  encodes_record (fun _ _ => rfl) (fun _ => rfl)
    (.defaultField (encodes_text _) (.defaultField (encodes_texts _)
      (.defaultField (encodes_u64 fits.insnsPerTick) (.defaultField (encodes_u64 fits.insnLimit)
        (.defaultField (encodes_optionalText _) (.defaultField (encodes_optionalText _) .done))))))

theorem depth_encode (c : DriverConfig) : c.encode.depth ≤ 2 := by
  have functions := depth_texts c.tickFunctions
  have done := depth_optionalText c.doneRegister
  have counter := depth_optionalText c.counterRegister
  simp only [encode, depth, membersDepth]
  omega

theorem readsBack {c : DriverConfig} (fits : c.Fits) : ReadsBack decode encode c :=
  readsBack_of_encodes (encodes fits) (Nat.le_trans c.depth_encode (by decide))

/-- The members of an object tell this configuration. -/
structure Told (room : Nat) (members : List (String × Json)) (c : DriverConfig) : Prop where
  stepFunction : Tells room members "step_function" decodeText default.stepFunction c.stepFunction
  tickFunctions : Tells room members "tick_functions" (decodeList decodeText)
    default.tickFunctions c.tickFunctions
  insnsPerTick : Tells room members "insns_per_tick" decodeU64 default.insnsPerTick c.insnsPerTick
  insnLimit : Tells room members "insn_limit" decodeU64 default.insnLimit c.insnLimit
  doneRegister : Tells room members "done_register" (decodeOption decodeText)
    default.doneRegister c.doneRegister
  counterRegister : Tells room members "pc_register" (decodeOption decodeText)
    default.counterRegister c.counterRegister

theorem decode_iff_told (distinct : (members.map Prod.fst).Nodup) {c : DriverConfig} :
    decode (room + 1) (.object members) = some c ↔ Told room members c := by
  unfold decode
  rw [openRecord?_of_nodup distinct]
  simp only [fieldNames, List.map_cons, List.map_nil, Option.bind_eq_bind, Option.bind_some,
    Option.bind_eq_some_iff, withDefault_slotOf_iff, Option.some.injEq]
  constructor
  · intro read
    rcases read with ⟨_, step, _, ticks, _, perTick, _, insns, _, done, _, counter, same⟩
    subst same
    exact ⟨step, ticks, perTick, insns, done, counter⟩
  · intro told
    exact ⟨_, told.stepFunction, _, told.tickFunctions, _, told.insnsPerTick, _, told.insnLimit, _,
      told.doneRegister, _, told.counterRegister, rfl⟩

/-- What is given of a configuration by name, with defaults for the rest. -/
def only (members : List (String × Json)) (c : DriverConfig) : DriverConfig :=
  ⟨pick members "step_function" default.stepFunction c.stepFunction,
    pick members "tick_functions" default.tickFunctions c.tickFunctions,
    pick members "insns_per_tick" default.insnsPerTick c.insnsPerTick,
    pick members "insn_limit" default.insnLimit c.insnLimit,
    pick members "done_register" default.doneRegister c.doneRegister,
    pick members "pc_register" default.counterRegister c.counterRegister⟩

theorem told_only {c : DriverConfig} {all : List (String × Json)} (fits : c.Fits)
    (encoded : c.encode = .object all) (gives : Gives members all) :
    Told (room + 1) members (c.only members) := by
  cases encoded
  have distinct : fieldNames.Nodup := by decide
  have functions : (encodeList Json.text c.tickFunctions).depth ≤ room + 1 :=
    Nat.le_trans (depth_texts _) (Nat.le_add_left 1 room)
  have register : ∀ o, (encodeOption Json.text o).depth ≤ room + 1 := fun o =>
    Nat.le_trans (Nat.le_of_eq (depth_optionalText o)) (Nat.zero_le _)
  constructor
  · exact gives.tells distinct (by simp) (encodes_text _) (Nat.zero_le _)
  · exact gives.tells distinct (by simp) (encodes_texts _) functions
  · exact gives.tells distinct (by simp) (encodes_u64 fits.insnsPerTick) (Nat.zero_le _)
  · exact gives.tells distinct (by simp) (encodes_u64 fits.insnLimit) (Nat.zero_le _)
  · exact gives.tells distinct (by simp) (encodes_optionalText _) (register _)
  · exact gives.tells distinct (by simp) (encodes_optionalText _) (register _)

theorem takesDefaults : TakesDefaults decode encode Fits (Told (nestingLimit - 1)) only :=
  takesDefaults_of_told (fun _ _ distinct => decode_iff_told distinct) fun _ _ _ => told_only

end DriverConfig

/-! ### Reports -/

theorem StopReason.encodes (s : StopReason) : Encodes limit StopReason.decode s.encode s := by
  cases s <;> exact encodes_name fun _ => rfl

namespace RunSummary

structure Fits (s : RunSummary) : Prop where
  retired : s.retired < UInt64.size
  steps : s.steps < UInt64.size
  ticks : s.ticks < UInt64.size

theorem encodes {s : RunSummary} (fits : s.Fits) : Encodes limit decode s.encode s :=
  encodes_record (fun _ _ => rfl) (fun _ => rfl)
    (.field (encodes_u64 fits.retired) (.field (encodes_u64 fits.steps)
      (.field (encodes_u64 fits.ticks) (.field (StopReason.encodes _) .done))))

theorem readsBack {s : RunSummary} (fits : s.Fits) : ReadsBack decode encode s := by
  refine readsBack_of_encodes (encodes fits) ?_
  have shallow : s.encode.depth = 1 := by
    rcases s with ⟨_, _, _, stop⟩
    cases stop <;> rfl
  rw [shallow]
  decide

end RunSummary

theorem AccessKind.encodes (k : AccessKind) : Encodes limit AccessKind.decode k.encode k := by
  cases k <;> exact encodes_name fun _ => rfl

namespace MemoryAccess

def Fits (a : MemoryAccess) : Prop := a.width < UInt64.size

theorem encodes {a : MemoryAccess} (fits : a.Fits) : Encodes limit decode a.encode a :=
  encodes_record (fun _ _ => rfl) (fun _ => rfl)
    (.field (AccessKind.encodes _) (.field (encodes_word _)
      (.field (encodes_u64 fits) (.field (encodes_word _) .done))))

theorem readsBack {a : MemoryAccess} (fits : a.Fits) : ReadsBack decode encode a := by
  refine readsBack_of_encodes (encodes fits) ?_
  have shallow : a.encode.depth = 1 := by
    rcases a with ⟨kind, _, _, _⟩
    cases kind <;> rfl
  rw [shallow]
  decide

end MemoryAccess

/-! ### Images -/

namespace Section

theorem encodes (s : Section) : Encodes limit decode s.encode s :=
  encodes_record (fun _ _ => rfl) (fun _ => rfl)
    (.field (encodes_text _) (.field (encodes_word _)
      (.field (encodes_list fun byte _ => encodes_u8 byte) .done)))

theorem depth_encode (s : Section) : s.encode.depth ≤ 2 := by
  have data : (encodeList (fun byte : UInt8 => .int byte.toNat) s.data).depth ≤ 0 + 1 :=
    depth_encodeList fun _ _ => Nat.le_refl 0
  simp only [encode, depth, membersDepth]
  omega

end Section

namespace Image

theorem encodes (i : Image) : Encodes limit decode i.encode i :=
  encodes_record (fun _ _ => rfl) (fun _ => rfl)
    (.field (encodes_list fun s _ => s.encodes) (.field (encodes_word _) .done))

theorem depth_encode (i : Image) : i.encode.depth ≤ 4 := by
  have sections : (encodeList Section.encode i.sections).depth ≤ 2 + 1 :=
    depth_encodeList fun s _ => s.depth_encode
  simp only [encode, depth, membersDepth]
  omega

theorem readsBack (i : Image) : ReadsBack decode encode i :=
  readsBack_of_encodes i.encodes (Nat.le_trans i.depth_encode (by decide))

end Image

end JumpIR
