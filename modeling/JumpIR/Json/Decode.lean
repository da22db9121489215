import JumpIR.Integer
import JumpIR.Json.Basic

/-!
# Typed values from JSON

A record is read from an object, or from an array that lists its fields in order. Unknown members
are skipped and a known one may occur only once. A choice is read from the name of its alternative
or from an object whose only member has that name. Every decoder takes the `room` left for nested
arrays and objects; only those that it opens count, not those it skips.
-/

set_option autoImplicit false

namespace JumpIR.Json

/-- A reader of one type: the arrays and objects that may still be opened, then the value. -/
abbrev Decoder (α : Type) := Nat → Json → Option α

/-- How many arrays and objects may enclose a value that is read. -/
def nestingLimit : Nat := 127

/-! ### Plain values -/

def decodeBool : Decoder Bool
  | _, .bool b => some b
  | _, _ => none

def decodeText : Decoder String
  | _, .text s => some s
  | _, _ => none

def decodeNatBelow (bound : Nat) : Decoder Nat
  | _, .int n => if 0 ≤ n ∧ n < bound then some n.toNat else none
  | _, _ => none

def decodeU8 : Decoder UInt8 := fun room json => (decodeNatBelow UInt8.size room json).map UInt8.ofNat

def decodeU16 : Decoder Nat := decodeNatBelow UInt16.size

def decodeU32 : Decoder Nat := decodeNatBelow UInt32.size

def decodeU64 : Decoder Nat := decodeNatBelow UInt64.size

def decodeWord : Decoder UInt64 := fun room json => (decodeU64 room json).map UInt64.ofNat

def decodeInt64 : Decoder Int64
  | _, .int n => int64? n
  | _, _ => none

/-! ### Absence and repetition -/

/-- Null stands for an absent value. -/
def decodeOption {α : Type} (item : Decoder α) : Decoder (Option α)
  | _, .null => some none
  | room, json => (item room json).map some

def encodeOption {α : Type} (item : α → Json) : Option α → Json
  | none => .null
  | some a => item a

def decodeItems {α : Type} (item : Json → Option α) : List Json → Option (List α)
  | [] => some []
  | json :: rest => do
      let a ← item json
      let list ← decodeItems item rest
      some (a :: list)

def decodeList {α : Type} (item : Decoder α) : Decoder (List α)
  | room + 1, .array items => decodeItems (item room) items
  | _, _ => none

def encodeList {α : Type} (item : α → Json) (list : List α) : Json := .array (list.map item)

/-! ### Records -/

/-- What a record's text says about one field. -/
inductive Slot where
  | given (value : Json)
  /-- An object without a member of that name. -/
  | absent
  /-- An array that ended before the field. -/
  | cut
deriving Repr

def memberSlot? (members : List (String × Json)) (name : String) : Option Slot :=
  match members.filter (·.1 == name) with
  | [] => some .absent
  | [(_, value)] => some (.given value)
  | _ => none

def itemSlots? : List String → List Json → Option (List Slot)
  | [], [] => some []
  | [], _ :: _ => none
  | _ :: names, [] => (itemSlots? names []).map (.cut :: ·)
  | _ :: names, item :: items => (itemSlots? names items).map (.given item :: ·)

/-- The slots of a record's fields, in the order of their names, and the room inside it. -/
def openRecord? (names : List String) : Nat → Json → Option (Nat × List Slot)
  | room + 1, .object members => (names.mapM (memberSlot? members)).map (room, ·)
  | room + 1, .array items => (itemSlots? names items).map (room, ·)
  | _, _ => none

def required {α : Type} (decoder : Decoder α) (room : Nat) : Slot → Option α
  | .given value => decoder room value
  | _ => none

def optional {α : Type} (decoder : Decoder α) (room : Nat) : Slot → Option (Option α)
  | .given value => decodeOption decoder room value
  | .absent => some none
  | .cut => none

def withDefault {α : Type} (default : α) (decoder : Decoder α) (room : Nat) : Slot → Option α
  | .given value => decoder room value
  | _ => some default

/-! ### Choices -/

/-- The name of the alternative that a choice holds, and its content with the room for it. An
alternative that is only named has no content. -/
def openChoice? : Nat → Json → Option (String × Option (Nat × Json))
  | _, .text name => some (name, none)
  | room + 1, .object [(name, value)] => some (name, some (room, value))
  | _, _ => none

def noContent {α : Type} (value : α) : Option (Nat × Json) → Option α
  | none => some value
  | some (_, .null) => some value
  | _ => none

def content {α : Type} (decoder : Decoder α) : Option (Nat × Json) → Option α
  | none => none
  | some (room, value) => decoder room value

/-- An alternative that holds one value. -/
def tagged (name : String) (value : Json) : Json := .object [(name, value)]

end JumpIR.Json
