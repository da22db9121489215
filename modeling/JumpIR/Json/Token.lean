import JumpIR.Json.Number

/-!
# The words of a JSON text

A text is cut into brackets, commas, colons, strings and other scalars before it is put together.
Blanks are spaces, tabs and the two line ends. Main functions: `Token.split?` cuts a text, and
`scanText?` reads one string and returns what follows.
-/

set_option autoImplicit false

namespace JumpIR.Json

inductive Token where
  | openArray
  | closeArray
  | openObject
  | closeObject
  | comma
  | colon
  /-- A string, or none when a surrogate escape in it is unpaired. -/
  | text (value : Option String)
  | scalar (value : Json)
deriving Repr, Inhabited

/-! ### Strings -/

/-- What a string is made of: characters that stand for themselves or have a short escape, and
16-bit units that are given by number. -/
inductive Piece where
  | char (c : Char)
  | unit (n : Nat)
deriving Repr

def hexValue? (c : Char) : Option Nat :=
  if '0' ≤ c ∧ c ≤ '9' then some (c.toNat - '0'.toNat)
  else if 'a' ≤ c ∧ c ≤ 'f' then some (c.toNat - 'a'.toNat + 10)
  else if 'A' ≤ c ∧ c ≤ 'F' then some (c.toNat - 'A'.toNat + 10)
  else none

def unit? (a b c d : Char) : Option Nat := do
  let a ← hexValue? a
  let b ← hexValue? b
  let c ← hexValue? c
  let d ← hexValue? d
  some (((a * 16 + b) * 16 + c) * 16 + d)

def shortEscape? (c : Char) : Option Char :=
  if c = '"' then some '"'
  else if c = '\\' then some '\\'
  else if c = '/' then some '/'
  else if c = 'b' then some '\x08'
  else if c = 'f' then some '\x0c'
  else if c = 'n' then some '\n'
  else if c = 'r' then some '\r'
  else if c = 't' then some '\t'
  else none

/-- The pieces up to the closing quote, and what follows it. A control character must be
escaped. -/
def scanPieces? : List Char → Option (List Piece × List Char)
  | [] => none
  | '"' :: rest => some ([], rest)
  | '\\' :: 'u' :: a :: b :: c :: d :: rest => do
      let n ← unit? a b c d
      let (pieces, rest) ← scanPieces? rest
      some (.unit n :: pieces, rest)
  | '\\' :: e :: rest => do
      let c ← shortEscape? e
      let (pieces, rest) ← scanPieces? rest
      some (.char c :: pieces, rest)
  | c :: rest =>
      if c.toNat < 32 ∨ c = '\\' then none
      else do
        let (pieces, rest) ← scanPieces? rest
        some (.char c :: pieces, rest)

def isHighSurrogate (n : Nat) : Bool := 0xD800 ≤ n && n < 0xDC00

def isLowSurrogate (n : Nat) : Bool := 0xDC00 ≤ n && n < 0xE000

/-- The characters of a list of pieces; a high surrogate joins the low one right behind it, and a
surrogate that stands alone is no character. -/
def joinPieces? : List Piece → Option (List Char)
  | [] => some []
  | .char c :: rest => (joinPieces? rest).map (c :: ·)
  | .unit high :: .unit low :: rest =>
      if isHighSurrogate high then
        if isLowSurrogate low then
          (joinPieces? rest).map
            (Char.ofNat (0x10000 + (high - 0xD800) * 0x400 + (low - 0xDC00)) :: ·)
        else none
      else if isLowSurrogate high then none
      else (joinPieces? (.unit low :: rest)).map (Char.ofNat high :: ·)
  | .unit n :: rest =>
      if isHighSurrogate n || isLowSurrogate n then none
      else (joinPieces? rest).map (Char.ofNat n :: ·)

/-- The string whose opening quote has been read, and what follows its closing quote. -/
def scanText? (input : List Char) : Option (Option String × List Char) := do
  let (pieces, rest) ← scanPieces? input
  some ((joinPieces? pieces).map String.ofList, rest)

/-! ### Words -/

def isBlank (c : Char) : Bool := c = ' ' || c = '\n' || c = '\t' || c = '\r'

def scanWord? (c : Char) (rest : List Char) : Option (Token × List Char) :=
  if c = '[' then some (.openArray, rest)
  else if c = ']' then some (.closeArray, rest)
  else if c = '{' then some (.openObject, rest)
  else if c = '}' then some (.closeObject, rest)
  else if c = ',' then some (.comma, rest)
  else if c = ':' then some (.colon, rest)
  else if c = '"' then (scanText? rest).map fun (value, rest) => (.text value, rest)
  else if c = '-' then (scanNumber? true rest).map fun (value, rest) => (.scalar value, rest)
  else if isDigit c then
    (scanNumber? false (c :: rest)).map fun (value, rest) => (.scalar value, rest)
  else
    match c, rest with
    | 'n', 'u' :: 'l' :: 'l' :: rest => some (.scalar .null, rest)
    | 't', 'r' :: 'u' :: 'e' :: rest => some (.scalar (.bool true), rest)
    | 'f', 'a' :: 'l' :: 's' :: 'e' :: rest => some (.scalar (.bool false), rest)
    | _, _ => none

/-- The words of at most `budget` characters of text. Each word takes at least one of them. -/
def Token.splitWithin? : Nat → List Char → Option (List Token)
  | _, [] => some []
  | 0, _ :: _ => none
  | budget + 1, c :: rest =>
      if isBlank c then splitWithin? budget rest
      else do
        let (word, rest) ← scanWord? c rest
        let words ← splitWithin? budget rest
        some (word :: words)

def Token.split? (input : List Char) : Option (List Token) := splitWithin? input.length input

end JumpIR.Json
