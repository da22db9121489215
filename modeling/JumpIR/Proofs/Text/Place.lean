import JumpIR.Text.Span

/-!
# Places of bytes

Reading a text moves a position on by its bytes. `bytesFrom` lists the bytes of a text with the
places where they stand; they come in reading order, and the bytes of a text without a newline
stand side by side on one line.
-/

set_option autoImplicit false

namespace JumpIR

/-- How many bytes a text takes. -/
def byteCount : List Char → Nat
  | [] => 0
  | c :: rest => c.utf8Size + byteCount rest

/-- A text of one-byte characters takes as many bytes as it has characters. -/
theorem byteCount_eq_length {text : List Char} (short : ∀ c ∈ text, c.utf8Size = 1) :
    byteCount text = text.length := by
  induction text with
  | nil => rfl
  | cons c rest ih =>
      rw [byteCount, short c List.mem_cons_self, List.length_cons, Nat.add_comm,
        ih fun d member => short d (List.mem_cons_of_mem c member)]

namespace Position

/-- The place after reading a text here. -/
def advance (p : Position) (text : List Char) : Position := text.foldl after p

variable {p q r : Position}

@[simp] theorem advance_cons (p : Position) (c : Char) (rest : List Char) :
    p.advance (c :: rest) = (p.after c).advance rest := rfl

theorem advance_append (p : Position) (left right : List Char) :
    p.advance (left ++ right) = (p.advance left).advance right := List.foldl_append

theorem shift_shift (p : Position) (first second : Nat) :
    (p.shift first).shift second = p.shift (first + second) := by
  unfold shift
  rw [Nat.add_assoc]

theorem after_of_ne {c : Char} (apart : c ≠ '\n') (p : Position) :
    p.after c = p.shift c.utf8Size := if_neg apart

/-- A text without a newline moves along its line. -/
theorem advance_line {text : List Char} (line : '\n' ∉ text) (p : Position) :
    p.advance text = p.shift (byteCount text) := by
  induction text generalizing p with
  | nil => rfl
  | cons c rest ih =>
      rw [advance_cons, after_of_ne (fun same => line (same ▸ List.mem_cons_self)),
        ih (fun member => line (List.mem_cons_of_mem c member)), shift_shift, byteCount]

/-! ### Reading order -/

/-- Strictly earlier in reading order. -/
def Before (p q : Position) : Prop := p.line < q.line ∨ (p.line = q.line ∧ p.column < q.column)

theorem precedes_iff : p.precedes q = true ↔
    p.line < q.line ∨ (p.line = q.line ∧ p.column ≤ q.column) := by
  simp [precedes]

theorem precedes_refl (p : Position) : p.precedes p = true :=
  precedes_iff.mpr (.inr ⟨rfl, Nat.le_refl _⟩)

end Position

/-! ### Bytes -/

/-- The bytes of a character that begins at `p`. A newline is one byte at the end of its line. -/
def charBytes (p : Position) (c : Char) : List (Position × UInt8) :=
  (String.utf8EncodeChar c).mapIdx fun index byte => (p.shift index, byte)

/-- The bytes of a text that begins at `p`, each with its place. -/
def bytesFrom (p : Position) : List Char → List (Position × UInt8)
  | [] => []
  | c :: rest => charBytes p c ++ bytesFrom (p.after c) rest

/-- The bytes of a text, without their places. -/
def utf8Bytes (text : List Char) : List UInt8 := text.flatMap String.utf8EncodeChar

variable {p q : Position} {byte : UInt8}

theorem length_utf8Bytes (text : List Char) : (utf8Bytes text).length = byteCount text := by
  induction text with
  | nil => rfl
  | cons c rest ih =>
      unfold utf8Bytes at ih ⊢
      rw [List.flatMap_cons, List.length_append, String.length_utf8EncodeChar, ih, byteCount]

namespace Span

/-- Whether a place is inside a region. -/
def Holds (s : Span) (q : Position) : Prop :=
  s.start.precedes q = true ∧ q.precedes s.stop = true

instance (s : Span) (q : Position) : Decidable (s.Holds q) := inferInstanceAs (Decidable (_ ∧ _))

/-- The bytes of a text that stand inside a region. -/
def bytesOf (s : Span) (text : List Char) : List UInt8 :=
  ((bytesFrom .origin text).filter fun place => s.Holds place.1).map Prod.snd

end Span

end JumpIR
