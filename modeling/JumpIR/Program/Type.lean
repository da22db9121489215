/-!
# Types of a program

Types as a program knows them: enums and unions are numbered, and every bitvector has a width.
Equality of types is decided by `Ty.same`.
-/

set_option autoImplicit false

namespace JumpIR

structure EnumId where
  index : Nat
deriving DecidableEq, Repr

structure UnionId where
  index : Nat
deriving DecidableEq, Repr

inductive Ty where
  | unit
  | bool
  | int
  | bit
  | bits (width : Nat)
  | string
  | tuple (items : List Ty)
  | enum (id : EnumId)
  | union (id : UnionId)
deriving Repr

namespace Ty

mutual

/-- Whether two types are written alike. -/
def same : Ty → Ty → Bool
  | .unit, .unit => true
  | .bool, .bool => true
  | .int, .int => true
  | .bit, .bit => true
  | .bits v, .bits w => v == w
  | .string, .string => true
  | .tuple as, .tuple bs => allSame as bs
  | .enum a, .enum b => a == b
  | .union a, .union b => a == b
  | _, _ => false

def allSame : List Ty → List Ty → Bool
  | [], [] => true
  | a :: as, b :: bs => same a b && allSame as bs
  | _, _ => false

end

mutual

theorem same_iff : ∀ a b : Ty, same a b = true ↔ a = b
  | .unit, b => by cases b <;> simp [same]
  | .bool, b => by cases b <;> simp [same]
  | .int, b => by cases b <;> simp [same]
  | .bit, b => by cases b <;> simp [same]
  | .bits _, b => by cases b <;> simp [same]
  | .string, b => by cases b <;> simp [same]
  | .tuple as, b => by
      cases b with
      | tuple bs => simp [same, allSame_iff as bs]
      | _ => simp [same]
  | .enum _, b => by cases b <;> simp [same]
  | .union _, b => by cases b <;> simp [same]

theorem allSame_iff : ∀ as bs : List Ty, allSame as bs = true ↔ as = bs
  | [], [] => by simp [allSame]
  | [], _ :: _ => by simp [allSame]
  | _ :: _, [] => by simp [allSame]
  | a :: as, b :: bs => by simp [allSame, same_iff a b, allSame_iff as bs]

end

instance : DecidableEq Ty := fun a b => decidable_of_iff (same a b = true) (same_iff a b)

end Ty

end JumpIR
