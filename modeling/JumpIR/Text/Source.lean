/-!
# Source text by lines

A text is cut at its newline characters, so it has one more line than it has newlines. Carriage
returns at the end of a line belong to its terminator and are left out.
-/

set_option autoImplicit false

namespace JumpIR

structure SourceText where
  name : String
  chars : List Char
deriving Repr

namespace SourceText

def ofString (name text : String) : SourceText := ⟨name, text.toList⟩

/-- The offsets just after each newline of a text that itself begins at `offset`. -/
def startsAfter (offset : Nat) : List Char → List Nat
  | [] => []
  | c :: rest =>
      if c = '\n' then (offset + 1) :: startsAfter (offset + 1) rest
      else startsAfter (offset + 1) rest

/-- The offset of the first character of each line. -/
def lineStarts (source : SourceText) : List Nat := 0 :: startsAfter 0 source.chars

def lineCount (source : SourceText) : Nat := source.lineStarts.length

/-- A line without the carriage returns that stand at its end. -/
def trimReturns (line : List Char) : List Char :=
  (line.reverse.dropWhile (· = '\r')).reverse

/-- The offsets between which line `number`, counted from one, stands without its newline. -/
def lineBounds? (source : SourceText) (number : Nat) : Option (Nat × Nat) :=
  match number with
  | 0 => none
  | index + 1 =>
      let starts := source.lineStarts
      match starts[index]? with
      | none => none
      | some start =>
          match starts[index + 1]? with
          | some next => some (start, next - 1)
          | none => some (start, source.chars.length)

/-- The text of line `number`, counted from one, without its terminator. -/
def line? (source : SourceText) (number : Nat) : Option String :=
  (source.lineBounds? number).map fun (start, stop) =>
    String.ofList (trimReturns ((source.chars.drop start).take (stop - start)))

end SourceText

end JumpIR
