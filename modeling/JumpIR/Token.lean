import JumpIR.Text.Span

/-!
# Tokens

The words of the textual IR: integers, bitvectors, strings, identifiers, reserved words and marks.
A reserved word never stands for an identifier.
-/

set_option autoImplicit false

namespace JumpIR

inductive Keyword where
  | enumDecl
  | unionDecl
  | valDecl
  | fnDecl
  | registerDecl
  | jump
  | goto
  | finish
  | arbitrary
  | unreachable
  | result
  | isNot
  | project
  | true
  | false
  | haveException
  | currentException
  | throwLocation
deriving DecidableEq, Repr

namespace Keyword

def all : List Keyword :=
  [.enumDecl, .unionDecl, .valDecl, .fnDecl, .registerDecl,
   .jump, .goto, .finish, .arbitrary, .unreachable, .result,
   .isNot, .project, .true, .false,
   .haveException, .currentException, .throwLocation]

def word : Keyword → String
  | .enumDecl => "enum"
  | .unionDecl => "union"
  | .valDecl => "val"
  | .fnDecl => "fn"
  | .registerDecl => "register"
  | .jump => "jump"
  | .goto => "goto"
  | .finish => "end"
  | .arbitrary => "arbitrary"
  | .unreachable => "unreachable"
  | .result => "return"
  | .isNot => "is"
  | .project => "as"
  | .true => "true"
  | .false => "false"
  | .haveException => "have_exception"
  | .currentException => "current_exception"
  | .throwLocation => "throw_location"

def ofWord? (s : String) : Option Keyword := all.find? fun k => k.word == s

/-- Whether a declaration may begin with the word. -/
def startsDecl : Keyword → Bool
  | .enumDecl | .unionDecl | .valDecl | .fnDecl | .registerDecl => Bool.true
  | _ => Bool.false

end Keyword

inductive Mark where
  | openBrace
  | closeBrace
  | openParen
  | closeParen
  | comma
  | colon
  | semicolon
  | equals
  | dot
  | arrow
  | atSign
  | percent
  | backtick
deriving DecidableEq, Repr

def Mark.word : Mark → String
  | .openBrace => "\x7b"
  | .closeBrace => "\x7d"
  | .openParen => "("
  | .closeParen => ")"
  | .comma => ","
  | .colon => ":"
  | .semicolon => ";"
  | .equals => "="
  | .dot => "."
  | .arrow => "->"
  | .atSign => "@"
  | .percent => "%"
  | .backtick => "\x60"

/-- What a token is, apart from where it stands. -/
inductive TokenKind where
  | int (value : Int64)
  /-- A bitvector, as wide as its digits say. -/
  | bits (width : Nat) (value : UInt64)
  /-- The decoded contents of a string. -/
  | text (value : String)
  | ident (name : String)
  | keyword (word : Keyword)
  | mark (mark : Mark)
  | endOfFile
deriving DecidableEq, Repr

/-- Lowercase hexadecimal digits behind `0x`. -/
def hexNumeral (n : Nat) : String := "0x" ++ String.ofList (Nat.toDigits 16 n)

namespace TokenKind

/-- A token kind as messages name it. -/
def display : TokenKind → String
  | .int n => toString n.toInt
  | .bits width value => s!"bits({width}, {hexNumeral value.toNat})"
  | .text s => "\"" ++ s ++ "\""
  | .ident name => name
  | .keyword k => k.word
  | .mark m => m.word
  | .endOfFile => "end of file"

def startsDecl : TokenKind → Bool
  | .keyword k => k.startsDecl
  | _ => false

end TokenKind

structure Token where
  kind : TokenKind
  span : Span
deriving DecidableEq, Repr

end JumpIR
