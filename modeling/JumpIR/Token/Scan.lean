import JumpIR.Integer
import JumpIR.Token
import JumpIR.Diagnostic

/-!
# Scanning tokens

A text is read once, from left to right. Blanks and line comments are skipped. Faults are reported
and passed over, until as many have been reported as a compilation keeps: then the token list ends
where the scanner stands. Main function: `tokensOf`, whose list always ends with `endOfFile`.
-/

set_option autoImplicit false

namespace JumpIR

/-- What may be wrong with the characters of a token. A fault that concerns one byte of a
character holds the character of that number. -/
inductive LexFault where
  | unexpectedByte (byte : Char)
  | unterminatedString
  | invalidEscape (byte : Char)
  | bitsWidth
  | integerRange (numeral : String)
deriving DecidableEq, Repr

/-- The widest bitvector. -/
def maxBitsWidth : Nat := 64

instance : Cause LexFault where
  code
    | .unexpectedByte _ => Code.unexpectedToken
    | .unterminatedString => Code.unterminatedString
    | .invalidEscape _ => Code.invalidLiteral
    | .bitsWidth => Code.invalidLiteral
    | .integerRange _ => Code.invalidLiteral
  message
    | .unexpectedByte b => s!"unexpected character '{b}'"
    | .unterminatedString => "unterminated string literal"
    | .invalidEscape b => s!"invalid escape sequence '\\{b}'"
    | .bitsWidth => s!"bitvector literal must have 1 to {maxBitsWidth} bits"
    | .integerRange numeral => s!"integer literal '{numeral}' does not fit in 64 bits"

/-- Faults in the order in which they were met. -/
abbrev LexReports := List (Report LexFault)

/-- Whether so many faults were met that scanning stops. -/
def LexReports.isFull (reports : LexReports) : Bool := reports.length ≥ Diagnostics.limit

namespace Scan

/-! ### Blanks and comments -/

def isBlank (c : Char) : Bool := c = ' ' || c = '\t' || c = '\r' || c = '\n'

/-- Skips blanks and comments; `inComment` says that a comment has been opened, which the next
newline ends. -/
def skipTrivia : (inComment : Bool) → Position → List Char → Position × List Char
  | _, p, [] => (p, [])
  | true, p, c :: rest =>
      if c = '\n' then skipTrivia false (p.after c) rest else skipTrivia true (p.after c) rest
  | false, p, c :: rest =>
      if isBlank c then skipTrivia false (p.after c) rest
      else if c = '/' ∧ rest.head? = some '/' then skipTrivia true (p.after c) rest
      else (p, c :: rest)

/-! ### Strings -/

/-- The character whose number is the first byte of `c` in UTF-8. -/
def firstByte (c : Char) : Char :=
  match String.utf8EncodeChar c with
  | [] => c
  | byte :: _ => Char.ofNat byte.toNat

def escaped? (c : Char) : Option Char :=
  if c = 'n' then some '\n'
  else if c = 't' then some '\t'
  else if c = '"' then some '"'
  else if c = '\\' then some '\\'
  else none

/-- The outcome of scanning a string: its characters, the faults met, the end of its region, and
where scanning goes on. -/
structure Text where
  chars : List Char
  reports : LexReports
  span : Span
  next : Position
  rest : List Char

/-- Scans a string that began at `start`, behind its opening quote. An escape that is none stands
for its first byte. A string ends at its line's end, which is a fault. -/
def text (start : Position) : Position → List Char → Text
  | p, [] => ⟨[], [⟨.unterminatedString, .read start p⟩], .read start p, p, []⟩
  | p, '\\' :: [] =>
      let p := p.after '\\'
      ⟨[], [⟨.unterminatedString, .read start p⟩], .read start p, p, []⟩
  | p, '\\' :: e :: rest =>
      let q := (p.after '\\').after e
      let tail := text start q rest
      match escaped? e with
      | some c => { tail with chars := c :: tail.chars }
      | none =>
          let behindByte := if e = '\n' then q else (p.after '\\').shift 1
          { tail with
            chars := firstByte e :: tail.chars
            reports := ⟨.invalidEscape (firstByte e), .read start behindByte⟩ :: tail.reports }
  | p, c :: rest =>
      if c = '\n' then
        ⟨[], [⟨.unterminatedString, .read start p⟩], .read start p, p, c :: rest⟩
      else if c = '"' then ⟨[], [], .read start (p.after c), p.after c, rest⟩
      else
        let tail := text start (p.after c) rest
        { tail with chars := c :: tail.chars }

/-! ### Numbers -/

inductive Radix where
  | binary
  | hexadecimal
deriving DecidableEq, Repr

def Radix.bitsPerDigit : Radix → Nat
  | .binary => 1
  | .hexadecimal => 4

def Radix.base : Radix → Nat
  | .binary => 2
  | .hexadecimal => 16

def Radix.digit? : Radix → Char → Option Nat
  | .binary, c => if c = '0' then some 0 else if c = '1' then some 1 else none
  | .hexadecimal, c =>
      if '0' ≤ c ∧ c ≤ '9' then some (c.toNat - '0'.toNat)
      else if 'a' ≤ c ∧ c ≤ 'f' then some (c.toNat - 'a'.toNat + 10)
      else if 'A' ≤ c ∧ c ≤ 'F' then some (c.toNat - 'A'.toNat + 10)
      else none

/-- The longest run of digits at the front of a text, as values, and what follows it. -/
def digitRun (digit? : Char → Option Nat) : List Char → List Nat × List Char
  | [] => ([], [])
  | c :: rest =>
      match digit? c with
      | some d => let (ds, rest) := digitRun digit? rest; (d :: ds, rest)
      | none => ([], c :: rest)

/-- The number that a list of digits writes, the first one weighing most. -/
def numeralValue (base : Nat) (ds : List Nat) : Nat := ds.foldl (fun n d => n * base + d) 0

def decimalDigit? (c : Char) : Option Nat :=
  if '0' ≤ c ∧ c ≤ '9' then some (c.toNat - '0'.toNat) else none

/-- The bitvector whose digits are `ds`, unless it has no bits or too many. -/
def bitsKind? (radix : Radix) (ds : List Nat) : Option TokenKind :=
  let width := ds.length * radix.bitsPerDigit
  if 1 ≤ width ∧ width ≤ maxBitsWidth then
    some (.bits width (UInt64.ofNat (numeralValue radix.base ds)))
  else none

/-- The integer whose digits are `ds`, unless it needs more than 64 bits. -/
def intKind? (negative : Bool) (ds : List Nat) : Option TokenKind :=
  let n : Int := if negative then -(numeralValue 10 ds) else numeralValue 10 ds
  (int64? n).map .int

/-! ### One token -/

structure Step where
  token : Option Token
  reports : LexReports
  next : Position
  rest : List Char

/-- A token that is spelt with the characters between `start` and `next`. -/
def Step.plain (kind : TokenKind) (start next : Position) (rest : List Char) : Step :=
  ⟨some ⟨kind, .read start next⟩, [], next, rest⟩

/-- A bitvector whose first two characters, behind `start`, have been read. -/
def bits (radix : Radix) (start p : Position) (input : List Char) : Step :=
  let (ds, rest) := digitRun radix.digit? input
  let next := p.shift ds.length
  match bitsKind? radix ds with
  | some kind => .plain kind start next rest
  | none => ⟨some ⟨.bits 0 0, .read start next⟩, [⟨.bitsWidth, .read start next⟩], next, rest⟩

/-- A decimal integer whose sign, if any, has been read. -/
def int (negative : Bool) (start p : Position) (input : List Char) : Step :=
  let (ds, rest) := digitRun decimalDigit? input
  let next := p.shift ds.length
  match intKind? negative ds with
  | some kind => .plain kind start next rest
  | none =>
      let numeral := (if negative then ['-'] else []) ++ input.take ds.length
      ⟨some ⟨.int 0, .read start next⟩,
       [⟨.integerRange (String.ofList numeral), .read start next⟩], next, rest⟩

/-- A number whose first character is the digit `c`. -/
def number (c : Char) (p : Position) (rest : List Char) : Step :=
  match c, rest with
  | '0', 'b' :: rest => bits .binary p (p.shift 2) rest
  | '0', 'x' :: rest => bits .hexadecimal p (p.shift 2) rest
  | c, rest => int false p p (c :: rest)

def isLetter (c : Char) : Bool := ('a' ≤ c && c ≤ 'z') || ('A' ≤ c && c ≤ 'Z') || c = '_'

def isDigit (c : Char) : Bool := '0' ≤ c && c ≤ '9'

def wordKind (name : String) : TokenKind :=
  match Keyword.ofWord? name with
  | some k => .keyword k
  | none => .ident name

def word (c : Char) (p : Position) (rest : List Char) : Step :=
  let tail := rest.takeWhile fun c => isLetter c || isDigit c
  .plain (wordKind (String.ofList (c :: tail))) p (p.shift (tail.length + 1))
    (rest.dropWhile fun c => isLetter c || isDigit c)

def mark? (c : Char) : Option Mark :=
  if c = '\x7b' then some .openBrace
  else if c = '\x7d' then some .closeBrace
  else if c = '(' then some .openParen
  else if c = ')' then some .closeParen
  else if c = ',' then some .comma
  else if c = ':' then some .colon
  else if c = ';' then some .semicolon
  else if c = '=' then some .equals
  else if c = '.' then some .dot
  else if c = '@' then some .atSign
  else if c = '%' then some .percent
  else if c = '\x60' then some .backtick
  else none

/-- Reports the bytes of a character that begins no token, one by one, as long as the list of
faults is not full; `met` faults were met before. The second part is where the scanner stands. -/
def rejectBytes (met : Nat) (p : Position) : List UInt8 → LexReports × Position
  | [] => ([], p)
  | byte :: bytes =>
      if met ≥ Diagnostics.limit then ([], p)
      else
        let next := p.shift 1
        let (reports, stop) := rejectBytes (met + 1) next bytes
        (⟨.unexpectedByte (Char.ofNat byte.toNat), .read p next⟩ :: reports, stop)

/-- Reads the token that begins with `c` at `p`, when `met` faults were met before. -/
def step (met : Nat) (p : Position) (c : Char) (rest : List Char) : Step :=
  if c = '"' then
    let body := text p (p.shift 1) rest
    ⟨some ⟨.text (String.ofList body.chars), body.span⟩, body.reports, body.next, body.rest⟩
  else if isDigit c then number c p rest
  else if c = '-' ∧ rest.head?.any isDigit then int true p (p.shift 1) rest
  else if isLetter c then word c p rest
  else if c = '-' ∧ rest.head? = some '>' then
    .plain (.mark .arrow) p (p.shift 2) rest.tail
  else
    match mark? c with
    | some m => .plain (.mark m) p (p.shift 1) rest
    | none =>
        let (reports, next) := rejectBytes met p (String.utf8EncodeChar c)
        ⟨none, reports, next, rest⟩

/-- Reads tokens until the text or the room for faults is used up. Each step takes at least one
character, so a budget of the text's length is enough. -/
def tokens : (budget : Nat) → LexReports → Position → List Char → List Token × LexReports
  | 0, reports, p, _ => ([⟨.endOfFile, .point p⟩], reports)
  | budget + 1, reports, p, input =>
      if reports.isFull then ([⟨.endOfFile, .point p⟩], reports)
      else
        match skipTrivia false p input with
        | (p, []) => ([⟨.endOfFile, .point p⟩], reports)
        | (p, c :: rest) =>
            let s := step reports.length p c rest
            let (list, all) := tokens budget (reports ++ s.reports) s.next s.rest
            (s.token.toList ++ list, all)

end Scan

/-- The tokens of a text, the last of which is `endOfFile`, and the faults met in it. -/
def tokensOf (chars : List Char) : List Token × LexReports :=
  Scan.tokens (chars.length + 1) [] .origin chars

end JumpIR
