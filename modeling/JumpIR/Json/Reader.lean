import JumpIR.Json.Token

/-!
# Reading JSON

The words of a text are read from left to right with a stack of the arrays and objects that are
still open, so no text is nested too deeply to be read. `Json.parse?` reads a whole text, which
holds one value and nothing else.
-/

set_option autoImplicit false

namespace JumpIR.Json

/-- An array or object whose end has not been read; its items stand in reverse. A member's name
is none when a surrogate escape in it is unpaired. -/
inductive Frame where
  | items (before : List Json)
  | members (before : List (Option String × Json)) (name : Option String)
deriving Repr

/-- What may come next. -/
inductive Reading where
  /-- A value, or the closing bracket where `first` says that an array was just opened. -/
  | value (first : Bool) (stack : List Frame)
  /-- A member's name, or the closing brace where `first` says that an object was just opened. -/
  | name (first : Bool) (before : List (Option String × Json)) (stack : List Frame)
  | colon (before : List (Option String × Json)) (name : Option String) (stack : List Frame)
  | after (value : Json) (stack : List Frame)
deriving Repr

/-- An object of these members in reverse, which is a defect if a name is unreadable. -/
def closeMembers (reversed : List (Option String × Json)) : Json :=
  match reversed.reverse.mapM fun (name, value) => name.map (·, value) with
  | some members => .object members
  | none => .defect

def Reading.next? : Reading → Token → Option Reading
  | .value _ stack, .openArray => some (.value true (.items [] :: stack))
  | .value _ stack, .openObject => some (.name true [] stack)
  | .value _ stack, .text (some s) => some (.after (.text s) stack)
  | .value _ stack, .text none => some (.after .defect stack)
  | .value _ stack, .scalar v => some (.after v stack)
  | .value true (.items [] :: stack), .closeArray => some (.after (.array []) stack)
  | .name _ before stack, .text key => some (.colon before key stack)
  | .name true [] stack, .closeObject => some (.after (.object []) stack)
  | .colon before key stack, .colon => some (.value false (.members before key :: stack))
  | .after v (.items before :: stack), .comma => some (.value false (.items (v :: before) :: stack))
  | .after v (.items before :: stack), .closeArray =>
      some (.after (.array (v :: before).reverse) stack)
  | .after v (.members before key :: stack), .comma =>
      some (.name false ((key, v) :: before) stack)
  | .after v (.members before key :: stack), .closeObject =>
      some (.after (closeMembers ((key, v) :: before)) stack)
  | _, _ => none

def Reading.run? : Reading → List Token → Option Reading
  | reading, [] => some reading
  | reading, word :: rest => (reading.next? word).bind (·.run? rest)

def parseChars? (input : List Char) : Option Json := do
  let words ← Token.split? input
  match ← (Reading.value false []).run? words with
  | .after value [] => some value
  | _ => none

def parse? (input : String) : Option Json := parseChars? input.toList

end JumpIR.Json
