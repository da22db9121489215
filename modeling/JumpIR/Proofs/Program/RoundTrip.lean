import JumpIR.Program.Codec
import JumpIR.Proofs.Json.Decoding

/-!
# Programs are read back from their JSON text

A program fits if each of its numbers fits the integers that it is written as. A program that fits
is determined by either of its texts, and is read back from them unless it is nested too deeply.
-/

set_option autoImplicit false

namespace JumpIR

open Json

/-! ### Numbers that fit -/

/-- What is numbered in a program is numbered with 32 bits, and so are widths. -/
def FitsWord (n : Nat) : Prop := n < UInt32.size

mutual

def Ty.Fits : Ty → Prop
  | .unit | .bool | .int | .bit | .string => True
  | .bits width => FitsWord width
  | .tuple items => Ty.AllFit items
  | .enum id => FitsWord id.index
  | .union id => FitsWord id.index

def Ty.AllFit : List Ty → Prop
  | [] => True
  | type :: rest => type.Fits ∧ Ty.AllFit rest

end

def UnionDef.Fits (u : UnionDef) : Prop := ∀ v ∈ u.variants, v.payload.Fits

def SupportDef.Fits (d : SupportDef) : Prop := (∀ type ∈ d.params, type.Fits) ∧ d.result.Fits

def Const.Fits : Const → Prop
  | .unit | .bool _ | .int _ | .string _ => True
  | .bits width _ => FitsWord width
  | .enum id ordinal => FitsWord id.index ∧ FitsWord ordinal

mutual

def Operand.Fits : Operand → Prop
  | .const value => value.Fits
  | .localVar id => FitsWord id.index
  | .register id => FitsWord id.index
  | .exception _ => True
  | .prim _ args => Operand.AllFit args
  | .isVariant value union tag => value.Fits ∧ FitsWord union.index ∧ FitsWord tag
  | .asVariant value union tag => value.Fits ∧ FitsWord union.index ∧ FitsWord tag
  | .field value index => value.Fits ∧ FitsWord index
  | .tuple items => Operand.AllFit items
  | .construct union tag payload => FitsWord union.index ∧ FitsWord tag ∧ payload.Fits

def Operand.AllFit : List Operand → Prop
  | [] => True
  | operand :: rest => operand.Fits ∧ Operand.AllFit rest

end

def PlaceRoot.Fits : PlaceRoot → Prop
  | .localVar id => FitsWord id.index
  | .register id => FitsWord id.index
  | .result | .exception _ => True

def Place.Fits (p : Place) : Prop := p.root.Fits ∧ ∀ index ∈ p.path, FitsWord index

def Callee.Fits : Callee → Prop
  | .function id => FitsWord id.index
  | .support id => FitsWord id.index

def Op.Fits : Op → Prop
  | .declare id => FitsWord id.index
  | .assign dest value => dest.Fits ∧ value.Fits
  | .call dest callee args =>
      (∀ place, dest = some place → place.Fits) ∧ callee.Fits ∧ ∀ arg ∈ args, arg.Fits

def Terminator.Fits : Terminator → Prop
  | .goto target => FitsWord target.index
  | .branch cond thenBlock elseBlock =>
      cond.Fits ∧ FitsWord thenBlock.index ∧ FitsWord elseBlock.index
  | .ret | .arbitrary | .unreachable _ => True

/-- Statements are numbered with 64 bits. -/
def Block.Fits (b : Block) : Prop :=
  (∀ n, b.origin = some n → n < UInt64.size) ∧ (∀ op ∈ b.ops, op.Fits) ∧ b.terminator.Fits

structure FunctionDef.Fits (f : FunctionDef) : Prop where
  params : ∀ id ∈ f.params, FitsWord id.index
  locals : ∀ l ∈ f.locals, l.type.Fits
  result : f.result.Fits
  blocks : ∀ b ∈ f.blocks, b.Fits
  entry : FitsWord f.entry.index

structure Program.Fits (p : Program) : Prop where
  unions : ∀ u ∈ p.unions, u.Fits
  registers : ∀ r ∈ p.registers, r.type.Fits
  supports : ∀ d ∈ p.supports, d.Fits
  functions : ∀ f ∈ p.functions, f.Fits

variable {limit : Nat}

/-! ### Types -/

mutual

theorem Ty.encodesWithin : ∀ (type : Ty), type.Fits → ∀ levels,
    Encodes levels (Ty.decodeWithin levels) type.encode type
  | .unit, _ => encodes_levels fun _ => encodes_name fun _ => rfl
  | .bool, _ => encodes_levels fun _ => encodes_name fun _ => rfl
  | .int, _ => encodes_levels fun _ => encodes_name fun _ => rfl
  | .bit, _ => encodes_levels fun _ => encodes_name fun _ => rfl
  | .string, _ => encodes_levels fun _ => encodes_name fun _ => rfl
  | .bits _, fits => encodes_levels fun _ =>
      encodes_tagged ((encodes_u32 fits).map Ty.bits) fun _ _ => rfl
  | .tuple items, fits => encodes_levels fun levels =>
      encodes_tagged ((encodes_array (Ty.allEncodeWithin items fits levels)).map Ty.tuple)
        fun _ _ => rfl
  | .enum _, fits => encodes_levels fun _ =>
      encodes_tagged (((encodes_u32 fits).map EnumId.mk).map Ty.enum) fun _ _ => rfl
  | .union _, fits => encodes_levels fun _ =>
      encodes_tagged (((encodes_u32 fits).map UnionId.mk).map Ty.union) fun _ _ => rfl

theorem Ty.allEncodeWithin : ∀ (types : List Ty), Ty.AllFit types → ∀ levels,
    EncodesItems levels (Ty.decodeWithin levels) (Ty.encodeAll types) types
  | [], _, _ => .nil
  | type :: rest, fits, levels =>
      .cons (Ty.encodesWithin type fits.1 levels) (Ty.allEncodeWithin rest fits.2 levels)

end

theorem Ty.encodes {type : Ty} (fits : type.Fits) : Encodes limit Ty.decode type.encode type :=
  encodes_everywhere (Ty.encodesWithin type fits)

/-! ### Declared types, registers and support operations -/

theorem EnumDef.encodes (e : EnumDef) : Encodes limit EnumDef.decode e.encode e :=
  encodes_record (fun _ _ => rfl) (fun _ => rfl)
    (.field (encodes_text _) (.field (encodes_texts _) .done))

theorem VariantDef.encodes {v : VariantDef} (fits : v.payload.Fits) :
    Encodes limit VariantDef.decode v.encode v :=
  encodes_record (fun _ _ => rfl) (fun _ => rfl)
    (.field (encodes_text _) (.field (Ty.encodes fits) .done))

theorem UnionDef.encodes {u : UnionDef} (fits : u.Fits) :
    Encodes limit UnionDef.decode u.encode u :=
  encodes_record (fun _ _ => rfl) (fun _ => rfl)
    (.field (encodes_text _)
      (.field (encodes_list fun v member => VariantDef.encodes (fits v member)) .done))

theorem encodes_typed {name : String} {type : Ty} (fits : type.Fits) :
    Encodes limit decodeTyped (encodeTyped name type) (name, type) :=
  encodes_record (fun _ _ => rfl) (fun _ => rfl)
    (.field (encodes_text _) (.field (Ty.encodes fits) .done))

theorem RegisterDef.encodes {r : RegisterDef} (fits : r.type.Fits) :
    Encodes limit RegisterDef.decode r.encode r :=
  (encodes_typed fits).map fun typed => RegisterDef.mk typed.1 typed.2

theorem LocalDef.encodes {l : LocalDef} (fits : l.type.Fits) :
    Encodes limit LocalDef.decode l.encode l :=
  (encodes_typed fits).map fun typed => LocalDef.mk typed.1 typed.2

theorem SupportDef.encodes {d : SupportDef} (fits : d.Fits) :
    Encodes limit SupportDef.decode d.encode d :=
  encodes_record (fun _ _ => rfl) (fun _ => rfl)
    (.field (encodes_text _) (.field (encodes_text _)
      (.field (encodes_list fun type member => Ty.encodes (fits.1 type member))
        (.field (Ty.encodes fits.2) .done))))

/-! ### Operands and places -/

theorem PrimOp.encodes (op : PrimOp) : Encodes limit PrimOp.decode op.encode op := by
  cases op <;> exact encodes_name fun _ => rfl

theorem Const.encodes {c : Const} (fits : c.Fits) : Encodes limit Const.decode c.encode c := by
  apply Encodes.weaken
  cases c with
  | unit => exact encodes_name fun _ => rfl
  | bool b => exact encodes_tagged ((encodes_bool b).map Const.bool) fun _ _ => rfl
  | int n => exact encodes_tagged ((encodes_int64 n).map Const.int) fun _ _ => rfl
  | bits width value =>
      have content : Encodes limit Const.decodeBits
          (.object [("width", .int width), ("value", .int value.toNat)]) (.bits width value) :=
        encodes_record (fun _ _ => rfl) (fun _ => rfl)
          (.field (encodes_u32 fits) (.field (encodes_word value) .done))
      exact encodes_tagged content fun _ _ => rfl
  | string s => exact encodes_tagged ((encodes_text s).map Const.string) fun _ _ => rfl
  | enum id ordinal =>
      have content : Encodes limit Const.decodeEnum
          (.object [("enum_id", id.encode), ("ordinal", .int ordinal)]) (.enum id ordinal) :=
        encodes_record (fun _ _ => rfl) (fun _ => rfl)
          (.field ((encodes_u32 fits.1).map EnumId.mk) (.field (encodes_u32 fits.2) .done))
      exact encodes_tagged content fun _ _ => rfl

theorem encodes_variant {item : Decoder Operand} {value : Operand} {union : UnionId} {tag : Nat}
    (inner : Encodes limit item value.encode value) (unionFits : FitsWord union.index)
    (tagFits : FitsWord tag) :
    Encodes limit (Operand.decodeVariant item) (Operand.encodeVariant value.encode union tag)
      (value, union, tag) :=
  encodes_record (fun _ _ => rfl) (fun _ => rfl)
    (.field inner (.field ((encodes_u32 unionFits).map UnionId.mk)
      (.field (encodes_u32 tagFits) .done)))

theorem encodes_prim {item : Decoder Operand} {args : List Operand} (op : PrimOp)
    (inner : EncodesItems limit item (Operand.encodeAll args) args) :
    Encodes limit (Operand.decodePrim item)
      (.object [("op", op.encode), ("args", .array (Operand.encodeAll args))]) (.prim op args) :=
  encodes_record (fun _ _ => rfl) (fun _ => rfl)
    (.field op.encodes (.field (encodes_array inner) .done))

theorem encodes_field {item : Decoder Operand} {value : Operand} {index : Nat}
    (inner : Encodes limit item value.encode value) (indexFits : FitsWord index) :
    Encodes limit (Operand.decodeField item)
      (.object [("value", value.encode), ("index", .int index)]) (.field value index) :=
  encodes_record (fun _ _ => rfl) (fun _ => rfl) (.field inner (.field (encodes_u32 indexFits) .done))

theorem encodes_construct {item : Decoder Operand} {union : UnionId} {tag : Nat}
    {payload : Operand} (inner : Encodes limit item payload.encode payload)
    (unionFits : FitsWord union.index) (tagFits : FitsWord tag) :
    Encodes limit (Operand.decodeConstruct item)
      (.object [("union", union.encode), ("tag", .int tag), ("payload", payload.encode)])
      (.construct union tag payload) :=
  encodes_record (fun _ _ => rfl) (fun _ => rfl)
    (.field ((encodes_u32 unionFits).map UnionId.mk)
      (.field (encodes_u32 tagFits) (.field inner .done)))

mutual

theorem Operand.encodesWithin : ∀ (operand : Operand), operand.Fits → ∀ levels,
    Encodes levels (Operand.decodeWithin levels) operand.encode operand
  | .const _, fits => encodes_levels fun _ =>
      encodes_tagged ((Const.encodes fits).map Operand.const) fun _ _ => rfl
  | .localVar _, fits => encodes_levels fun _ =>
      encodes_tagged (((encodes_u32 fits).map LocalId.mk).map Operand.localVar) fun _ _ => rfl
  | .register _, fits => encodes_levels fun _ =>
      encodes_tagged (((encodes_u32 fits).map RegisterId.mk).map Operand.register) fun _ _ => rfl
  | .exception .pending, _ => encodes_levels fun _ => encodes_name fun _ => rfl
  | .exception .thrown, _ => encodes_levels fun _ => encodes_name fun _ => rfl
  | .exception .location, _ => encodes_levels fun _ => encodes_name fun _ => rfl
  | .prim op args, fits => encodes_levels fun levels =>
      encodes_tagged (encodes_prim op (Operand.allEncodeWithin args fits levels)) fun _ _ => rfl
  | .isVariant value _ _, fits => encodes_levels fun levels =>
      encodes_tagged ((encodes_variant (Operand.encodesWithin value fits.1 levels) fits.2.1
        fits.2.2).map fun parts => Operand.isVariant parts.1 parts.2.1 parts.2.2) fun _ _ => rfl
  | .asVariant value _ _, fits => encodes_levels fun levels =>
      encodes_tagged ((encodes_variant (Operand.encodesWithin value fits.1 levels) fits.2.1
        fits.2.2).map fun parts => Operand.asVariant parts.1 parts.2.1 parts.2.2) fun _ _ => rfl
  | .field value _, fits => encodes_levels fun levels =>
      encodes_tagged (encodes_field (Operand.encodesWithin value fits.1 levels) fits.2)
        fun _ _ => rfl
  | .tuple items, fits => encodes_levels fun levels =>
      encodes_tagged ((encodes_array (Operand.allEncodeWithin items fits levels)).map
        Operand.tuple) fun _ _ => rfl
  | .construct _ _ payload, fits => encodes_levels fun levels =>
      encodes_tagged (encodes_construct (Operand.encodesWithin payload fits.2.2 levels) fits.1
        fits.2.1) fun _ _ => rfl

theorem Operand.allEncodeWithin : ∀ (operands : List Operand), Operand.AllFit operands →
    ∀ levels, EncodesItems levels (Operand.decodeWithin levels) (Operand.encodeAll operands)
      operands
  | [], _, _ => .nil
  | operand :: rest, fits, levels =>
      .cons (Operand.encodesWithin operand fits.1 levels)
        (Operand.allEncodeWithin rest fits.2 levels)

end

theorem Operand.encodes {operand : Operand} (fits : operand.Fits) :
    Encodes limit Operand.decode operand.encode operand :=
  encodes_everywhere (Operand.encodesWithin operand fits)

theorem PlaceRoot.encodes {root : PlaceRoot} (fits : root.Fits) :
    Encodes limit PlaceRoot.decode root.encode root := by
  apply Encodes.weaken
  cases root with
  | localVar id =>
      exact encodes_tagged (((encodes_u32 fits).map LocalId.mk).map PlaceRoot.localVar)
        fun _ _ => rfl
  | register id =>
      exact encodes_tagged (((encodes_u32 fits).map RegisterId.mk).map PlaceRoot.register)
        fun _ _ => rfl
  | result => exact encodes_name fun _ => rfl
  | exception part => cases part <;> exact encodes_name fun _ => rfl

theorem Place.encodes {p : Place} (fits : p.Fits) : Encodes limit Place.decode p.encode p :=
  encodes_record (fun _ _ => rfl) (fun _ => rfl)
    (.field (PlaceRoot.encodes fits.1)
      (.field (encodes_list fun index member => encodes_u32 (fits.2 index member)) .done))

/-! ### Blocks -/

theorem Callee.encodes {callee : Callee} (fits : callee.Fits) :
    Encodes limit Callee.decode callee.encode callee := by
  apply Encodes.weaken
  cases callee with
  | function id =>
      exact encodes_tagged (((encodes_u32 fits).map FuncId.mk).map Callee.function) fun _ _ => rfl
  | support id =>
      exact encodes_tagged (((encodes_u32 fits).map SupportId.mk).map Callee.support) fun _ _ => rfl

theorem Op.encodes {op : Op} (fits : op.Fits) : Encodes limit Op.decode op.encode op := by
  apply Encodes.weaken
  cases op with
  | declare id =>
      have content : Encodes limit Op.decodeDeclare (.object [("local", id.encode)]) (.declare id) :=
        encodes_record (fun _ _ => rfl) (fun _ => rfl)
          (.only ((encodes_u32 fits).map LocalId.mk))
      exact encodes_tagged content fun _ _ => rfl
  | assign dest value =>
      have content : Encodes limit Op.decodeAssign
          (.object [("dest", dest.encode), ("value", value.encode)]) (.assign dest value) :=
        encodes_record (fun _ _ => rfl) (fun _ => rfl)
          (.field (Place.encodes fits.1) (.field (Operand.encodes fits.2) .done))
      exact encodes_tagged content fun _ _ => rfl
  | call dest callee args =>
      have place : Encodes limit (decodeOption Place.decode) (encodeOption Place.encode dest) dest :=
        encodes_option fun p present => ⟨Place.encodes (fits.1 p present), fun null => nomatch null⟩
      have content : Encodes limit Op.decodeCall
          (.object [("dest", encodeOption Place.encode dest), ("callee", callee.encode),
            ("args", encodeList Operand.encode args)]) (.call dest callee args) :=
        encodes_record (fun _ _ => rfl) (fun _ => rfl)
          (.optionalField place (.field (Callee.encodes fits.2.1)
            (.field (encodes_list fun arg member => Operand.encodes (fits.2.2 arg member)) .done)))
      exact encodes_tagged content fun _ _ => rfl

theorem Terminator.encodes {t : Terminator} (fits : t.Fits) :
    Encodes limit Terminator.decode t.encode t := by
  apply Encodes.weaken
  cases t with
  | goto target =>
      exact encodes_tagged (((encodes_u32 fits).map BlockId.mk).map Terminator.goto) fun _ _ => rfl
  | branch cond thenBlock elseBlock =>
      have content : Encodes limit Terminator.decodeBranch
          (.object [("cond", cond.encode), ("then_block", thenBlock.encode),
            ("else_block", elseBlock.encode)]) (.branch cond thenBlock elseBlock) :=
        encodes_record (fun _ _ => rfl) (fun _ => rfl)
          (.field (Operand.encodes fits.1) (.field ((encodes_u32 fits.2.1).map BlockId.mk)
            (.field ((encodes_u32 fits.2.2).map BlockId.mk) .done)))
      exact encodes_tagged content fun _ _ => rfl
  | ret => exact encodes_name fun _ => rfl
  | arbitrary => exact encodes_name fun _ => rfl
  | unreachable location =>
      have content : Encodes limit Terminator.decodeUnreachable
          (.object [("location", .text location)]) (.unreachable location) :=
        encodes_record (fun _ _ => rfl) (fun _ => rfl) (.only (encodes_text location))
      exact encodes_tagged content fun _ _ => rfl

theorem Block.encodes {b : Block} (fits : b.Fits) : Encodes limit Block.decode b.encode b := by
  have origin : Encodes limit (decodeOption decodeU64)
      (encodeOption (fun n : Nat => .int n) b.origin) b.origin :=
    encodes_option fun n present => ⟨encodes_u64 (fits.1 n present), fun null => nomatch null⟩
  exact encodes_record (fun _ _ => rfl) (fun _ => rfl)
    (.optionalField origin
      (.field (encodes_list fun op member => Op.encodes (fits.2.1 op member))
        (.field (Terminator.encodes fits.2.2) .done)))

/-! ### Functions and programs -/

theorem FunctionDef.encodes {f : FunctionDef} (fits : f.Fits) :
    Encodes limit FunctionDef.decode f.encode f :=
  encodes_record (fun _ _ => rfl) (fun _ => rfl)
    (.field (encodes_text _)
      (.field (encodes_list fun id member => (encodes_u32 (fits.params id member)).map LocalId.mk)
        (.field (encodes_list fun l member => LocalDef.encodes (fits.locals l member))
          (.field (Ty.encodes fits.result)
            (.field (encodes_list fun b member => Block.encodes (fits.blocks b member))
              (.field ((encodes_u32 fits.entry).map BlockId.mk)
                (.field (encodes_bool _) .done)))))))

namespace Program

theorem encodes {p : Program} (fits : p.Fits) : Encodes limit decode p.encode p :=
  encodes_record (fun _ _ => rfl) (fun _ => rfl)
    (.field (encodes_list fun e _ => e.encodes)
      (.field (encodes_list fun u member => UnionDef.encodes (fits.unions u member))
        (.field (encodes_list fun r member => RegisterDef.encodes (fits.registers r member))
          (.field (encodes_list fun d member => SupportDef.encodes (fits.supports d member))
            (.field (encodes_list fun f member => FunctionDef.encodes (fits.functions f member))
              .done)))))

theorem encode_isExact {p : Program} (fits : p.Fits) : p.encode.IsExact := by
  have encodes : Encodes 0 decode p.encode p := encodes fits
  exact encodes.exactly

theorem decode_encode {p : Program} (fits : p.Fits) {room : Nat} (deep : p.encode.depth ≤ room) :
    decode room p.encode = some p := by
  have encodes : Encodes (room + 1) decode p.encode p := encodes fits
  exact encodes.reads room (Nat.lt_succ_self room)
    (isReadable_of_depth p.encode room encodes.exactly deep)

/-- Nothing of a program is lost in its encoding, however deeply it is nested. -/
theorem encode_injective {p q : Program} (fits : p.Fits) (fitsToo : q.Fits)
    (same : p.encode = q.encode) : p = q := by
  have left := decode_encode fits (Nat.le_refl p.encode.depth)
  have right := decode_encode fitsToo (Nat.le_refl q.encode.depth)
  rw [← same] at right
  exact Option.some.inj (left.symm.trans right)

/-- A program is read back from both of its texts if they are not nested too deeply, and in either
layout no other program has the same text. -/
theorem ofJson?_printed {p : Program} (fits : p.Fits) :
    (p.encode.depth ≤ nestingLimit →
      ofJson? p.toJson = some p ∧ ofJson? p.toIndentedJson = some p) ∧
    ∀ q : Program, q.Fits → q ≠ p →
      q.toJson ≠ p.toJson ∧ q.toIndentedJson ≠ p.toIndentedJson := by
  have exactly := encode_isExact fits
  refine ⟨fun shallow => ⟨?_, ?_⟩, fun q fitsToo other => ⟨fun same => ?_, fun same => ?_⟩⟩
  · unfold ofJson? toJson
    rw [parse?_compact exactly]
    exact decode_encode fits shallow
  · unfold ofJson? toIndentedJson
    rw [parse?_indented exactly]
    exact decode_encode fits shallow
  · have read := parse?_compact (encode_isExact fitsToo)
    unfold toJson at same
    rw [same, parse?_compact exactly] at read
    exact other (encode_injective fits fitsToo (Option.some.inj read)).symm
  · have read := parse?_indented (encode_isExact fitsToo)
    unfold toIndentedJson at same
    rw [same, parse?_indented exactly] at read
    exact other (encode_injective fits fitsToo (Option.some.inj read)).symm

/-- Numbers at the ends of their ranges, characters that a text must escape, and operands inside
operands. -/
def extreme : Program where
  enums := [⟨"z\"\\\n\x01\x7f", ["", "λ"]⟩]
  unions := [⟨"zu", [⟨"za", .unit⟩, ⟨"zb", .tuple [.bits 4294967295, .tuple [], .enum ⟨0⟩]⟩]⟩]
  registers := [⟨"zr", .union ⟨4294967295⟩⟩]
  supports := [⟨"ze", "eq_int", [.int, .bit], .bool⟩]
  functions := [
    { name := "zf"
      params := [⟨0⟩]
      locals := [⟨"zx", .string⟩]
      result := .int
      blocks := [
        { origin := some 18446744073709551615
          ops := [
            .declare ⟨4294967295⟩,
            .assign ⟨.localVar ⟨0⟩, [0, 4294967295]⟩
              (.prim .eq [.const (.int (-9223372036854775808)), .const (.int 9223372036854775807)]),
            .call none (.support ⟨0⟩) [.const (.bits 64 18446744073709551615), .tuple []],
            .call (some ⟨.exception .location, []⟩) (.function ⟨0⟩)
              [.isVariant (.field (.asVariant (.localVar ⟨0⟩) ⟨0⟩ 1) 2) ⟨0⟩ 0,
                .construct ⟨0⟩ 0 (.const .unit), .exception .thrown, .const (.enum ⟨0⟩ 1)]]
          terminator := .branch (.const (.bool true)) ⟨0⟩ ⟨1⟩ },
        { origin := none, ops := [], terminator := .unreachable "\t/\\u0041" }]
      entry := ⟨0⟩
      mayRaise := true }]

theorem extreme_fits : extreme.Fits := by
  constructor
  · simp [extreme, UnionDef.Fits, Ty.Fits, Ty.AllFit, FitsWord]
  · simp [extreme, Ty.Fits, FitsWord]
  · simp [extreme, SupportDef.Fits, Ty.Fits]
  · intro f member
    cases List.mem_singleton.mp member
    constructor
    · simp [FitsWord]
    · simp [Ty.Fits]
    · trivial
    · simp [Block.Fits, Op.Fits, Operand.Fits, Operand.AllFit, Const.Fits, Place.Fits,
        PlaceRoot.Fits, Callee.Fits, Terminator.Fits, FitsWord, UInt32.size]
    · simp [FitsWord]

theorem ofJson?_printed_extreme :
    (ofJson? extreme.toJson = some extreme ∧ ofJson? extreme.toIndentedJson = some extreme) ∧
      empty.toJson ≠ extreme.toJson ∧ empty.toIndentedJson ≠ extreme.toIndentedJson := by
  have printed := ofJson?_printed extreme_fits
  have shallow : extreme.encode.depth ≤ nestingLimit := by decide
  have fits : empty.Fits := ⟨nofun, nofun, nofun, nofun⟩
  have other : empty ≠ extreme := fun same => nomatch congrArg Program.enums same
  exact ⟨printed.1 shallow, printed.2 empty fits other⟩

end Program

end JumpIR
