/-!
# Positions and regions of source text

Lines and columns count from one. A column counts bytes of the UTF-8 text, so that a reader who
cuts a line by bytes finds the place. The end of a region is inclusive.
-/

set_option autoImplicit false

namespace JumpIR

structure Position where
  line : Nat
  column : Nat
deriving DecidableEq, Repr

namespace Position

def origin : Position := ⟨1, 1⟩

/-- Reading order: first by line, then by column. -/
def precedes (a b : Position) : Bool :=
  a.line < b.line || (a.line == b.line && a.column ≤ b.column)

/-- The place after reading `c` here: a newline opens the next line, and any other character
moves on by the number of its bytes. -/
def after (p : Position) (c : Char) : Position :=
  if c = '\n' then ⟨p.line + 1, 1⟩ else ⟨p.line, p.column + c.utf8Size⟩

/-- The place `count` bytes further on the same line. -/
def shift (p : Position) (count : Nat) : Position := ⟨p.line, p.column + count⟩

end Position

/-- A region of source text, from its first position to its last one. -/
structure Span where
  start : Position
  stop : Position
deriving DecidableEq, Repr

namespace Span

/-- The region that holds one position only. -/
def point (p : Position) : Span := ⟨p, p⟩

/-- The region read between `start` and a scanner that now stands at `next`: it ends just before
`next`, or in the first column when `next` opens a line. -/
def read (start next : Position) : Span := ⟨start, ⟨next.line, max (next.column - 1) 1⟩⟩

/-- The least region that starts where the earlier of two regions starts and ends where the later
one ends. -/
def cover (a b : Span) : Span :=
  ⟨if a.start.precedes b.start then a.start else b.start,
   if a.stop.precedes b.stop then b.stop else a.stop⟩

/-- A region is named in messages by the place where it starts. -/
def display (s : Span) : String := s!"{s.start.line}:{s.start.column}"

end Span

end JumpIR
