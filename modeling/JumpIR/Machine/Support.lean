import JumpIR.Integer
import JumpIR.Machine.State

/-!
# The support library

The operations that a value of a module may be bound to by their symbol. Each has a fixed number of
arguments and is given the machine; most only compute. Main functions: `Support.library`,
`Support.find?` and `Support.Operation.call`.
-/

set_option autoImplicit false

namespace JumpIR.Support

abbrev Outcome := Except RunFault Value × Machine

structure Operation where
  symbol : String
  arity : Nat
  /-- Refuses any other number of arguments. -/
  call : List Value → Machine → Outcome

namespace Operation

def unary (symbol : String) (f : Value → Machine → Outcome) : Operation where
  symbol := symbol
  arity := 1
  call := fun args m =>
    match args with
    | [a] => f a m
    | _ => (.error (.arityMismatch symbol 1 args.length), m)

def binary (symbol : String) (f : Value → Value → Machine → Outcome) : Operation where
  symbol := symbol
  arity := 2
  call := fun args m =>
    match args with
    | [a, b] => f a b m
    | _ => (.error (.arityMismatch symbol 2 args.length), m)

def ternary (symbol : String) (f : Value → Value → Value → Machine → Outcome) : Operation where
  symbol := symbol
  arity := 3
  call := fun args m =>
    match args with
    | [a, b, c] => f a b c m
    | _ => (.error (.arityMismatch symbol 3 args.length), m)

/-- An operation on four arguments, the first two of which it passes over. -/
def access (symbol : String) (f : Value → Value → Machine → Outcome) : Operation where
  symbol := symbol
  arity := 4
  call := fun args m =>
    match args with
    | [_, _, address, count] => f address count m
    | _ => (.error (.arityMismatch symbol 4 args.length), m)

/-- An operation on five arguments, the first two of which it passes over. -/
def accessWith (symbol : String) (f : Value → Value → Value → Machine → Outcome) :
    Operation where
  symbol := symbol
  arity := 5
  call := fun args m =>
    match args with
    | [_, _, address, count, data] => f address count data m
    | _ => (.error (.arityMismatch symbol 5 args.length), m)

def compute1 (symbol : String) (f : Value → Except RunFault Value) : Operation :=
  unary symbol fun a m => (f a, m)

def compute2 (symbol : String) (f : Value → Value → Except RunFault Value) : Operation :=
  binary symbol fun a b m => (f a b, m)

def compute3 (symbol : String) (f : Value → Value → Value → Except RunFault Value) : Operation :=
  ternary symbol fun a b c m => (f a b c, m)

end Operation

/-! ### Arguments -/

def trap {α : Type} (cause : Trap) : Except RunFault α := .error (.arithmeticTrap cause)

/-- The bits of two bitvectors, and the width that both have. -/
def sameWidth (a b : Value) : Except RunFault (Nat × UInt64 × UInt64) := do
  let (v, x) ← a.asBits
  let (w, y) ← b.asBits
  if v = w then .ok (v, x, y) else .error (.typeMismatch (.widths v w))

/-- A width from one to 64. -/
def widthArg (a : Value) : Except RunFault Nat := do
  let n ← a.asInt
  if 1 ≤ n.toInt ∧ n.toInt ≤ 64 then .ok n.toInt.toNat else trap (.width n)

/-- A distance of at most 32 bits that is not negative. -/
def shiftArg (a : Value) : Except RunFault Nat := do
  let n ← a.asInt
  if 0 ≤ n.toInt ∧ n.toInt < UInt32.size then .ok n.toInt.toNat else trap (.shift n)

/-- An address: a bitvector or an integer that is not negative. -/
def addressArg : Value → Except RunFault UInt64
  | .bits _ value => .ok value
  | .int n => if 0 ≤ n.toInt then .ok (UInt64.ofNat n.toInt.toNat) else trap (.negativeAddress n)
  | other => .error (.typeMismatch (.expectedAddress other.shape))

def countArg (a : Value) : Except RunFault Nat := do
  let n ← a.asInt
  if 0 ≤ n.toInt then .ok n.toInt.toNat else trap (.accessSize n)

/-! ### Truth values and comparison -/

def notBool (a : Value) : Except RunFault Value := do
  let a ← a.asBool
  .ok (.bool !a)

/-- The second operand is looked at only if the first one is true. -/
def andBool (a b : Value) : Except RunFault Value := do
  let a ← a.asBool
  if a then
    let b ← b.asBool
    .ok (.bool b)
  else .ok (.bool false)

/-- The second operand is looked at only if the first one is false. -/
def orBool (a b : Value) : Except RunFault Value := do
  let a ← a.asBool
  if a then .ok (.bool true)
  else
    let b ← b.asBool
    .ok (.bool b)

def equal (a b : Value) : Except RunFault Value := .ok (.bool (a.same b))

/-- A comparison of two integers. -/
def compareInt (test : Int → Int → Bool) (a b : Value) : Except RunFault Value := do
  let a ← a.asInt
  let b ← b.asInt
  .ok (.bool (test a.toInt b.toInt))

def compareBits (test : UInt64 → UInt64 → Bool) (a b : Value) : Except RunFault Value := do
  let (_, x, y) ← sameWidth a b
  .ok (.bool (test x y))

def equalString (a b : Value) : Except RunFault Value := do
  let a ← a.asString
  let b ← b.asString
  .ok (.bool (a == b))

/-! ### Integers -/

/-- The exact result of an operation on two integers, which must need no more than 64 bits. -/
def exactInt (sign : String) (f : Int → Int → Int) (a b : Value) : Except RunFault Value := do
  let a ← a.asInt
  let b ← b.asInt
  match int64? (f a.toInt b.toInt) with
  | some n => .ok (.int n)
  | none => trap (.overflow a sign b)

/-! ### Bitvectors -/

/-- An operation on the bits of two bitvectors of one width; the result keeps that width. -/
def combineBits (f : UInt64 → UInt64 → UInt64) (a b : Value) : Except RunFault Value := do
  let (width, x, y) ← sameWidth a b
  .ok (.ofBits width (f x y))

def notBits (a : Value) : Except RunFault Value := do
  let (width, x) ← a.asBits
  .ok (.ofBits width (~~~x))

/-- Adds an integer, which wraps around within the width. -/
def addBitsInt (a b : Value) : Except RunFault Value := do
  let (width, x) ← a.asBits
  let n ← b.asInt
  .ok (.ofBits width (x + n.toUInt64))

/-- A word moved by `n` bits, all of which leave it from 64 on. -/
def shiftWord (f : UInt64 → UInt64 → UInt64) (x : UInt64) (n : Nat) : UInt64 :=
  if n < 64 then f x (UInt64.ofNat n) else 0

def shiftLeft (a b : Value) : Except RunFault Value := do
  let (width, x) ← a.asBits
  let n ← shiftArg b
  .ok (.ofBits width (shiftWord (· <<< ·) x n))

def shiftRight (a b : Value) : Except RunFault Value := do
  let (width, x) ← a.asBits
  let n ← shiftArg b
  .ok (.ofBits width (shiftWord (· >>> ·) x n))

/-- The two's complement value of the low `width` bits of a word. -/
def signedWord (width : Nat) (x : UInt64) : UInt64 :=
  if 64 ≤ width then x
  else
    let sign := (1 : UInt64) <<< UInt64.ofNat (width - 1)
    (x ^^^ sign) - sign

def zeroExtend (a b : Value) : Except RunFault Value := do
  let (width, x) ← a.asBits
  let target ← widthArg b
  if target < width then trap (.zeroExtend width target) else .ok (.ofBits target x)

def signExtend (a b : Value) : Except RunFault Value := do
  let (width, x) ← a.asBits
  let target ← widthArg b
  if target < width then trap (.signExtend width target)
  else .ok (.ofBits target (signedWord width x))

/-- The `length` bits from bit `start` on. -/
def slice (a b c : Value) : Except RunFault Value := do
  let (width, x) ← a.asBits
  let start ← shiftArg b
  let length ← widthArg c
  if width < start + length then trap (.slice start length width)
  else .ok (.ofBits length (x >>> UInt64.ofNat start))

def unsigned (a : Value) : Except RunFault Value := do
  let (_, x) ← a.asBits
  match int64? x.toNat with
  | some n => .ok (.int n)
  | none => trap (.unsignedRange x)

def signed (a : Value) : Except RunFault Value := do
  let (width, x) ← a.asBits
  .ok (.int (signedWord width x).toInt64)

/-! ### Strings and output -/

def concat (a b : Value) : Except RunFault Value := do
  let a ← a.asString
  let b ← b.asString
  .ok (.string (a ++ b))

/-- A numeral with zeros in front up to `count` digits. -/
def padded (count : Nat) (digits : List Char) : String :=
  String.ofList (List.replicate (count - digits.length) '0' ++ digits)

/-- A bitvector as output shows it: in hexadecimal if its width is a number of whole digits, else
in binary. -/
def bitsNumeral (width : Nat) (x : UInt64) : String :=
  if width % 4 = 0 then
    "0x" ++ padded (width / 4) ((Nat.toDigits 16 x.toNat).map Char.toUpper)
  else "0b" ++ padded width (Nat.toDigits 2 x.toNat)

/-- Prints a line, unless it has none to print. -/
def printLine (line : Except RunFault String) (m : Machine) : Outcome :=
  match line with
  | .ok line => (.ok .unit, m.print line)
  | .error fault => (.error fault, m)

def intLine (text n : Value) : Except RunFault String := do
  let text ← text.asString
  let n ← n.asInt
  .ok (text ++ toString n.toInt)

def bitsLine (text bits : Value) : Except RunFault String := do
  let text ← text.asString
  let (width, x) ← bits.asBits
  .ok (text ++ bitsNumeral width x)

def printPlatform (a : Value) (m : Machine) : Outcome :=
  match a.asString with
  | .ok message => (.ok .unit, (m.notePlatform message).print message)
  | .error fault => (.error fault, m)

/-! ### Memory -/

def readAt (address : Except RunFault UInt64) (count : Except RunFault Nat) (m : Machine) :
    Outcome :=
  match address, count with
  | .error fault, _ => (.error fault, m)
  | .ok _, .error fault => (.error fault, m)
  | .ok address, .ok count =>
      match m.readMemory address count with
      | (.ok value, m) => (.ok (.ofBits (8 * count) value), m)
      | (.error fault, m) => (.error fault, m)

def writeAt (address : Except RunFault UInt64) (count : Except RunFault Nat)
    (data : Except RunFault (Nat × UInt64)) (m : Machine) : Outcome :=
  match address, count, data with
  | .error fault, _, _ => (.error fault, m)
  | .ok _, .error fault, _ => (.error fault, m)
  | .ok _, .ok _, .error fault => (.error fault, m)
  | .ok address, .ok count, .ok (_, value) =>
      match m.writeMemory address count value with
      | (.ok (), m) => (.ok (.bool true), m)
      | (.error fault, m) => (.error fault, m)

/-! ### Flags and reservations -/

def flag (symbol : String) (f : TraceFlags → Bool) : Operation :=
  .unary symbol fun _ m => (.ok (.bool (f m.trace)), m)

def reserve (a : Value) (m : Machine) : Outcome :=
  match addressArg a with
  | .ok address => (.ok .unit, { m with reservation := some address })
  | .error fault => (.error fault, m)

def isReserved (a : Value) (m : Machine) : Outcome :=
  match addressArg a with
  | .ok address => (.ok (.bool (m.reservation == some address)), m)
  | .error fault => (.error fault, m)

def release (_ : Value) (m : Machine) : Outcome := (.ok .unit, { m with reservation := none })

/-! ### The library -/

def logic : List Operation :=
  [.compute1 "not" notBool,
   .compute2 "and_bool" andBool,
   .compute2 "or_bool" orBool,
   .compute2 "eq_bool" equal]

def integers : List Operation :=
  [.compute2 "eq_int" (compareInt (· == ·)),
   .compute2 "lt_int" (compareInt (· < ·)),
   .compute2 "gt_int" (compareInt (· > ·)),
   .compute2 "lteq_int" (compareInt (· ≤ ·)),
   .compute2 "gteq_int" (compareInt (· ≥ ·)),
   .compute2 "add_int" (exactInt "+" (· + ·)),
   .compute2 "sub_int" (exactInt "-" (· - ·)),
   .compute2 "mult_int" (exactInt "*" (· * ·))]

def bitvectors : List Operation :=
  [.compute2 "eq_bits" (compareBits (· == ·)),
   .compute2 "neq_bits" (compareBits (· != ·)),
   .compute2 "add_bits" (combineBits (· + ·)),
   .compute2 "sub_bits" (combineBits (· - ·)),
   .compute2 "add_bits_int" addBitsInt,
   .compute2 "and_bits" (combineBits (· &&& ·)),
   .compute2 "or_bits" (combineBits (· ||| ·)),
   .compute2 "xor_bits" (combineBits (· ^^^ ·)),
   .compute1 "not_bits" notBits,
   .compute2 "shiftl" shiftLeft,
   .compute2 "shiftr" shiftRight,
   .compute2 "zero_extend" zeroExtend,
   .compute2 "sign_extend" signExtend,
   .compute3 "slice" slice,
   .compute1 "sail_unsigned" unsigned,
   .compute1 "sail_signed" signed]

def strings : List Operation :=
  [.compute2 "eq_string" equalString,
   .compute2 "concat_str" concat,
   .compute2 "eq_anything" equal]

def printers : List Operation :=
  [.unary "print_endline" fun a => printLine a.asString,
   .binary "print_int" fun a b => printLine (intLine a b),
   .binary "print_bits" fun a b => printLine (bitsLine a b)]

def accesses : List Operation :=
  [.unary "read_mem" fun address => readAt (addressArg address) (.ok 1),
   .binary "write_mem" fun address data => writeAt (addressArg address) (.ok 1) data.asBits,
   .access "platform_read_mem" fun address count => readAt (addressArg address) (countArg count),
   .accessWith "platform_write_mem" fun address count data =>
     writeAt (addressArg address) (countArg count) data.asBits]

def tracing : List Operation :=
  [flag "get_config_print_instr" (·.instructions),
   flag "get_config_print_reg" (·.registers),
   flag "get_config_print_mem" (·.memory),
   flag "get_config_print_platform" (·.platform),
   .unary "print_instr" fun a => printLine a.asString,
   .unary "print_reg" fun a => printLine a.asString,
   .unary "print_mem_access" fun a => printLine a.asString,
   .unary "print_platform" printPlatform]

def reservations : List Operation :=
  [.unary "load_reservation" reserve,
   .unary "match_reservation" isReserved,
   .unary "cancel_reservation" release]

def undefinedValues : List Operation :=
  [.compute1 "undefined_bool" fun _ => .ok (.bool false),
   .compute1 "undefined_int" fun _ => .ok (.int 0),
   .compute1 "undefined_unit" fun _ => .ok .unit]

/-- Every operation of the library. -/
def library : List Operation :=
  logic ++ integers ++ bitvectors ++ strings ++ printers ++ accesses ++ tracing ++ reservations
    ++ undefinedValues

def find? (symbol : String) : Option Operation := library.find? fun op => op.symbol == symbol

end JumpIR.Support
