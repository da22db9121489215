/-!
# JSON values

The values that this library writes and reads. Its fields hold integers only, so a number with a
fraction or an exponent is known as such and keeps no digits: it may stand where it is skipped.
-/

set_option autoImplicit false

namespace JumpIR

inductive Json where
  | null
  | bool (value : Bool)
  /-- An integer of at most 64 bits, signed or unsigned. -/
  | int (value : Int)
  /-- Any other number: one with a fraction or an exponent, minus zero, or an integer of more
  than 64 bits. -/
  | real
  | text (value : String)
  | array (items : List Json)
  /-- Members in the order of the text; a name may occur more than once. -/
  | object (members : List (String × Json))
  /-- Well formed as text, but no value: an unpaired surrogate escape in a string or in a member's
  name, or a number past the range of doubles. It may stand only where it is skipped. -/
  | defect
deriving Repr, Inhabited

namespace Json

/-- Whether `n` fits a signed or an unsigned integer of 64 bits. -/
def fitsInteger (n : Int) : Bool := Int64.minValue.toInt ≤ n && n < UInt64.size

def member? (json : Json) (name : String) : Option Json :=
  match json with
  | .object members => members.lookup name
  | _ => none

mutual

/-- Whether a value can be read in full when `room` more nested arrays and objects may be opened:
it has no defect and does not nest deeper. -/
def isReadable : Nat → Json → Bool
  | _, .null => true
  | _, .bool _ => true
  | _, .int _ => true
  | _, .real => true
  | _, .text _ => true
  | room, .array items => 0 < room && areReadable (room - 1) items
  | room, .object members => 0 < room && membersReadable (room - 1) members
  | _, .defect => false

def areReadable : Nat → List Json → Bool
  | _, [] => true
  | room, item :: rest => isReadable room item && areReadable room rest

def membersReadable : Nat → List (String × Json) → Bool
  | _, [] => true
  | room, (_, value) :: rest => isReadable room value && membersReadable room rest

end

end Json

end JumpIR
