import JumpIR.Json.Basic

/-!
# Numbers in a JSON text

A number is an integer of at most 64 bits, or it is only known to be within the range of a double.
The range is that of a quick reading: the first digits, as many as fit a word, and a power of ten
are each rounded to a double before they are multiplied. Of the digits that no longer fit, those in
front of the decimal point count by their place. So a number close to the largest double may be
within the range or past it depending on how it is written. Main function: `scanNumber?` reads one
number and returns what follows.
-/

set_option autoImplicit false

namespace JumpIR.Json

/-! ### Digits -/

def isDigit (c : Char) : Bool := '0' ≤ c && c ≤ '9'

def digitValue (c : Char) : Nat := c.toNat - '0'.toNat

def decimalValue (ds : List Char) : Nat := ds.foldl (fun n c => n * 10 + digitValue c) 0

/-- Appends digits to a significand as long as it fits a word, and returns the digits that are
left. -/
def takeDigits : Nat → List Char → Nat × List Char
  | significand, [] => (significand, [])
  | significand, c :: rest =>
      let longer := significand * 10 + digitValue c
      if longer < UInt64.size then takeDigits longer rest else (significand, c :: rest)

/-! ### The range of doubles -/

/-- A natural number rounded to the 53 bits of a double: to the nearest of its multiples of the
last bit's weight, and from the middle between two of them to the even one. -/
def roundToDouble (n : Nat) : Nat :=
  let weight := 1 <<< (n.log2 - 52)
  let count := n / weight
  let excess := 2 * (n % weight)
  if excess < weight ∨ (excess = weight ∧ count % 2 = 0) then count * weight
  else (count + 1) * weight

/-- The least magnitude that no longer rounds to a finite double. -/
def doubleLimit : Nat := (1 <<< 1024) - (1 <<< 970)

/-- The greatest exponent whose power of ten is a finite double. -/
def maxExponent : Nat := 308

/-- Whether a significand times a power of ten is past the largest double. No significand is so
large that it is past it by itself. -/
def exceedsDouble (significand : Nat) (exponent : Int) : Bool :=
  if significand = 0 ∨ exponent < 0 then false
  else if maxExponent < exponent then true
  else doubleLimit ≤ roundToDouble significand * roundToDouble (Nat.pow 10 exponent.toNat)

/-! ### Scanning -/

/-- One or more digits and what follows them; a zero is not followed by another digit. -/
def scanWhole? (input : List Char) : Option (List Char × List Char) :=
  match input.takeWhile isDigit, input.dropWhile isDigit with
  | [], _ => none
  | ['0'], rest => some (['0'], rest)
  | '0' :: _, _ => none
  | ds, rest => some (ds, rest)

def scanFraction? (input : List Char) : Option (Option (List Char) × List Char) :=
  match input with
  | '.' :: rest =>
      match rest.takeWhile isDigit with
      | [] => none
      | ds => some (some ds, rest.dropWhile isDigit)
  | _ => some (none, input)

def scanExponent? (input : List Char) : Option (Option Int × List Char) :=
  match input with
  | c :: rest =>
      if c = 'e' ∨ c = 'E' then
        let (down, rest) := match rest with
          | '-' :: rest => (true, rest)
          | '+' :: rest => (false, rest)
          | rest => (false, rest)
        match rest.takeWhile isDigit with
        | [] => none
        | ds =>
            let value : Int := decimalValue ds
            some (some (if down then -value else value), rest.dropWhile isDigit)
      else some (none, input)
  | [] => some (none, [])

/-- The integer of a sign and digits, unless it is minus zero or takes more than 64 bits. -/
def integer? (negative : Bool) (whole : List Char) : Option Int :=
  let magnitude := decimalValue whole
  let n : Int := if negative then -magnitude else magnitude
  if negative && magnitude = 0 then none
  else if fitsInteger n then some n
  else none

/-- A number that is no integer, or none of 64 bits. -/
def wideValue (whole fraction : List Char) (exponent : Int) : Json :=
  let (front, dropped) := takeDigits 0 whole
  let (significand, cut) := takeDigits front fraction
  let behind := fraction.length - cut.length
  if exceedsDouble significand (dropped.length - behind + exponent) then .defect else .real

def numberValue (negative : Bool) (whole : List Char) (fraction : Option (List Char))
    (exponent : Option Int) : Json :=
  let wide := wideValue whole (fraction.getD []) (exponent.getD 0)
  match fraction, exponent with
  | none, none => ((integer? negative whole).map .int).getD wide
  | _, _ => wide

/-- A number after its sign, and what follows it. -/
def scanNumber? (negative : Bool) (input : List Char) : Option (Json × List Char) := do
  let (whole, rest) ← scanWhole? input
  let (fraction, rest) ← scanFraction? rest
  let (exponent, rest) ← scanExponent? rest
  some (numberValue negative whole fraction exponent, rest)

end JumpIR.Json
