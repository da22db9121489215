import JumpIR.Program.Basic
import JumpIR.Text.Quoted
import JumpIR.Token

/-!
# Values

What locals, registers and arguments hold while a program runs. A bitvector of `width` bits has no
bit set at or above `width` when it is built by `Value.ofBits`. Equality of values is decided by
`Value.same`.
-/

set_option autoImplicit false

namespace JumpIR

inductive Value where
  | unit
  | bool (value : Bool)
  | int (value : Int64)
  | bits (width : Nat) (value : UInt64)
  | string (value : String)
  | enum (id : EnumId) (ordinal : Nat)
  | union (id : UnionId) (tag : Nat) (payload : Value)
  | tuple (items : List Value)
deriving Repr, Inhabited

inductive Shape where
  | unit
  | bool
  | int
  | bits
  | string
  | enum
  | union
  | tuple
deriving DecidableEq, Repr

def Shape.name : Shape → String
  | .unit => "unit"
  | .bool => "bool"
  | .int => "int"
  | .bits => "bits"
  | .string => "string"
  | .enum => "enum"
  | .union => "union"
  | .tuple => "tuple"

/-- The word whose low `width` bits are set; all of them are from width 64 on. -/
def widthMask (width : Nat) : UInt64 :=
  if 64 ≤ width then ~~~0 else ((1 : UInt64) <<< UInt64.ofNat width) - 1

namespace Value

/-- The bitvector of the low `width` bits of a word. -/
def ofBits (width : Nat) (value : UInt64) : Value := .bits width (value &&& widthMask width)

def ofConst : Const → Value
  | .unit => .unit
  | .bool b => .bool b
  | .int n => .int n
  | .bits width value => .ofBits width value
  | .string s => .string s
  | .enum id ordinal => .enum id ordinal

def shape : Value → Shape
  | .unit => .unit
  | .bool _ => .bool
  | .int _ => .int
  | .bits _ _ => .bits
  | .string _ => .string
  | .enum _ _ => .enum
  | .union _ _ _ => .union
  | .tuple _ => .tuple

/-! ### Equality -/

mutual

/-- Whether two values are alike in kind and content. -/
def same : Value → Value → Bool
  | .unit, .unit => true
  | .bool a, .bool b => a == b
  | .int a, .int b => a == b
  | .bits v a, .bits w b => v == w && a == b
  | .string a, .string b => a == b
  | .enum i a, .enum j b => i == j && a == b
  | .union i s a, .union j t b => i == j && s == t && same a b
  | .tuple as, .tuple bs => allSame as bs
  | _, _ => false

def allSame : List Value → List Value → Bool
  | [], [] => true
  | a :: as, b :: bs => same a b && allSame as bs
  | _, _ => false

end

mutual

theorem same_iff : ∀ a b : Value, same a b = true ↔ a = b
  | .unit, b => by cases b <;> simp [same]
  | .bool _, b => by cases b <;> simp [same]
  | .int _, b => by cases b <;> simp [same]
  | .bits _ _, b => by cases b <;> simp [same]
  | .string _, b => by cases b <;> simp [same]
  | .enum _ _, b => by cases b <;> simp [same]
  | .union _ _ a, b => by
      cases b with
      | union _ _ b => simp [same, same_iff a b, and_assoc]
      | _ => simp [same]
  | .tuple as, b => by
      cases b with
      | tuple bs => simp [same, allSame_iff as bs]
      | _ => simp [same]

theorem allSame_iff : ∀ as bs : List Value, allSame as bs = true ↔ as = bs
  | [], [] => by simp [allSame]
  | [], _ :: _ => by simp [allSame]
  | _ :: _, [] => by simp [allSame]
  | a :: as, b :: bs => by simp [allSame, same_iff a b, allSame_iff as bs]

end

instance : DecidableEq Value := fun a b => decidable_of_iff (same a b = true) (same_iff a b)

/-! ### Text -/

mutual

def display : Value → String
  | .unit => "()"
  | .bool b => if b then "true" else "false"
  | .int n => toString n.toInt
  | .bits width value => s!"{hexNumeral value.toNat}:bits{width}"
  | .string s => Text.quoted s
  | .enum id ordinal => s!"enum{id.index}#{ordinal}"
  | .union id tag payload => s!"union{id.index}[{tag}](" ++ display payload ++ ")"
  | .tuple items => "(" ++ ", ".intercalate (displays items) ++ ")"

def displays : List Value → List String
  | [] => []
  | v :: rest => display v :: displays rest

end

end Value

end JumpIR
