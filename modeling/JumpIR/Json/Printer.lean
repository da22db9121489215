import JumpIR.Json.Basic

/-!
# Writing JSON

Two layouts of one text: the compact one has no blanks; the indented one puts each item on a line
of its own, two blanks deeper than what encloses it, and keeps empty arrays and objects closed.
-/

set_option autoImplicit false

namespace JumpIR.Json

/-- The lowercase hexadecimal digit of `value`, which is below sixteen. -/
def hexDigit (value : Nat) : Char :=
  if value < 10 then Char.ofNat ('0'.toNat + value) else Char.ofNat ('a'.toNat + (value - 10))

def escapeChar (c : Char) : List Char :=
  if c = '"' then ['\\', '"']
  else if c = '\\' then ['\\', '\\']
  else if c = '\x08' then ['\\', 'b']
  else if c = '\x0c' then ['\\', 'f']
  else if c = '\n' then ['\\', 'n']
  else if c = '\r' then ['\\', 'r']
  else if c = '\t' then ['\\', 't']
  else if c.toNat < 32 then ['\\', 'u', '0', '0', hexDigit (c.toNat / 16), hexDigit (c.toNat % 16)]
  else [c]

def escapeChars : List Char → List Char
  | [] => []
  | c :: rest => escapeChar c ++ escapeChars rest

def quoteText (s : String) : List Char := '"' :: (escapeChars s.toList ++ ['"'])

def digits (n : Int) : List Char := (toString n).toList

/-- How items are set apart: what stands before an item at some depth of nesting, and between a
member's name and its value. -/
structure Layout where
  line : Nat → List Char
  afterColon : List Char

def compactLayout : Layout := ⟨fun _ => [], []⟩

def indentedLayout : Layout := ⟨fun depth => '\n' :: List.replicate (2 * depth) ' ', [' ']⟩

mutual

def chars (layout : Layout) : Nat → Json → List Char
  | _, .null => ['n', 'u', 'l', 'l']
  | _, .bool true => ['t', 'r', 'u', 'e']
  | _, .bool false => ['f', 'a', 'l', 's', 'e']
  | _, .int n => digits n
  | _, .real => ['0', '.', '0']
  | _, .text s => quoteText s
  | _, .array [] => ['[', ']']
  | depth, .array (item :: rest) =>
      '[' :: (layout.line (depth + 1) ++ chars layout (depth + 1) item ++
        itemChars layout (depth + 1) rest ++ layout.line depth ++ [']'])
  | _, .object [] => ['{', '}']
  | depth, .object (first :: rest) =>
      '{' :: (layout.line (depth + 1) ++ memberChars layout (depth + 1) first ++
        moreMemberChars layout (depth + 1) rest ++ layout.line depth ++ ['}'])
  | _, .defect => ['n', 'u', 'l', 'l']

/-- The items after the first one, each behind its comma. -/
def itemChars (layout : Layout) : Nat → List Json → List Char
  | _, [] => []
  | depth, item :: rest =>
      ',' :: (layout.line depth ++ chars layout depth item ++ itemChars layout depth rest)

def memberChars (layout : Layout) : Nat → String × Json → List Char
  | depth, (name, value) => quoteText name ++ ':' :: (layout.afterColon ++ chars layout depth value)

/-- The members after the first one, each behind its comma. -/
def moreMemberChars (layout : Layout) : Nat → List (String × Json) → List Char
  | _, [] => []
  | depth, entry :: rest =>
      ',' :: (layout.line depth ++ memberChars layout depth entry ++ moreMemberChars layout depth rest)

end

/-- The text without blanks. -/
def compact (json : Json) : String := String.ofList (chars compactLayout 0 json)

/-- The text with one item to a line. -/
def indented (json : Json) : String := String.ofList (chars indentedLayout 0 json)

end JumpIR.Json
