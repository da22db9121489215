import JumpIR.Json.Reader
import JumpIR.Proofs.Json.Word

/-!
# Printed values are read back

A value is exact if it holds nothing but what a text can say of it. Its text, in a layout that sets
items apart by blanks, is read back as the same value, however deeply it is nested.
-/

set_option autoImplicit false

namespace JumpIR.Json

/-! ### Exact values -/

mutual

/-- Every number is an integer of at most 64 bits, and there is no defect. -/
def IsExact : Json → Prop
  | .null | .bool _ | .text _ => True
  | .int n => fitsInteger n = true
  | .real | .defect => False
  | .array items => AreExact items
  | .object members => MembersExact members

def AreExact : List Json → Prop
  | [] => True
  | item :: rest => IsExact item ∧ AreExact rest

def MembersExact : List (String × Json) → Prop
  | [] => True
  | (_, value) :: rest => IsExact value ∧ MembersExact rest

end

/-! ### The words of a value -/

mutual

/-- The words that a value is printed in. -/
def words : Json → List Token
  | .null => [.scalar .null]
  | .bool b => [.scalar (.bool b)]
  | .int n => [.scalar (.int n)]
  | .real => [.scalar .real]
  | .text s => [.text (some s)]
  | .array [] => [.openArray, .closeArray]
  | .array (item :: rest) => .openArray :: (words item ++ (itemWords rest ++ [.closeArray]))
  | .object [] => [.openObject, .closeObject]
  | .object (first :: rest) =>
      .openObject :: (memberWords first ++ (moreMemberWords rest ++ [.closeObject]))
  | .defect => [.scalar .null]

def itemWords : List Json → List Token
  | [] => []
  | item :: rest => .comma :: (words item ++ itemWords rest)

def memberWords : String × Json → List Token
  | (name, value) => .text (some name) :: .colon :: words value

def moreMemberWords : List (String × Json) → List Token
  | [] => []
  | entry :: rest => .comma :: (memberWords entry ++ moreMemberWords rest)

end

/-! ### A text is cut into its words -/

/-- Items are set apart by blanks. -/
structure Layout.IsBlank (layout : Layout) : Prop where
  line : ∀ depth, ∀ c ∈ layout.line depth, isBlank c = true
  afterColon : ∀ c ∈ layout.afterColon, isBlank c = true

theorem compactLayout_isBlank : compactLayout.IsBlank :=
  ⟨fun _ _ member => (nomatch member), fun _ member => (nomatch member)⟩

theorem indentedLayout_isBlank : indentedLayout.IsBlank := by
  refine ⟨fun depth c member => ?_, fun c member => List.mem_singleton.mp member ▸ rfl⟩
  rcases List.mem_cons.mp member with newline | space
  · exact newline ▸ rfl
  · exact (List.mem_replicate.mp space).2 ▸ rfl

theorem ended_cons {c : Char} {rest : List Char}
    (apart : isDigit c = false ∧ c ≠ '.' ∧ c ≠ 'e' ∧ c ≠ 'E') : Ended (c :: rest) := by
  intro d first
  cases first
  exact apart

theorem ended_blanks {gap rest : List Char} (blank : ∀ c ∈ gap, isBlank c = true)
    (ended : Ended rest) : Ended (gap ++ rest) := by
  cases gap with
  | nil => exact ended
  | cons c gap =>
      rcases blank_cases (blank c List.mem_cons_self) with same | same | same | same
      all_goals
        subst same
        exact ended_cons (by decide)

/-- A bracket, comma or colon, whatever follows it. -/
def IsMark (c : Char) (word : Token) : Prop :=
  isBlank c = false ∧ ∀ rest, scanWord? c rest = some (word, rest)

theorem cuts_mark {c : Char} {word : Token} (mark : IsMark c word) (rest : List Char) :
    Cuts [c] [word] rest := cuts_word mark.1 (mark.2 rest)

theorem cuts_opened {c : Char} {word : Token} {gap left right rest : List Char}
    {first second : List Token} (mark : IsMark c word) (blank : ∀ c ∈ gap, isBlank c = true)
    (cutLeft : Cuts left first (right ++ rest)) (cutRight : Cuts right second rest) :
    Cuts (c :: (gap ++ left ++ right)) (word :: (first ++ second)) rest := by
  have opened := (cuts_mark mark _).append
    ((cuts_blanks blank _).append (cutLeft.append cutRight))
  rw [List.append_assoc]
  exact opened

theorem cuts_closed {c : Char} {word : Token} {gap inside rest : List Char} {first : List Token}
    (mark : IsMark c word) (blank : ∀ c ∈ gap, isBlank c = true)
    (cut : Cuts inside first (gap ++ [c] ++ rest)) :
    Cuts (inside ++ (gap ++ [c])) (first ++ [word]) rest :=
  cut.append ((cuts_blanks blank _).append (cuts_mark mark rest))

section Cut

variable {layout : Layout}

theorem ended_itemChars (layout : Layout) (depth : Nat) (items : List Json) {rest : List Char}
    (ended : Ended rest) : Ended (itemChars layout depth items ++ rest) := by
  cases items with
  | nil => exact ended
  | cons item items =>
      rw [itemChars]
      exact ended_cons (by decide)

theorem ended_moreMemberChars (layout : Layout) (depth : Nat) (members : List (String × Json))
    {rest : List Char} (ended : Ended rest) :
    Ended (moreMemberChars layout depth members ++ rest) := by
  cases members with
  | nil => exact ended
  | cons entry members =>
      rw [moreMemberChars]
      exact ended_cons (by decide)

/-- A number stands in front of what closes its array or object. -/
theorem ended_close (blank : layout.IsBlank) (depth : Nat) {c : Char} (rest : List Char)
    (apart : isDigit c = false ∧ c ≠ '.' ∧ c ≠ 'e' ∧ c ≠ 'E') :
    Ended (layout.line depth ++ [c] ++ rest) := by
  rw [List.append_assoc]
  exact ended_blanks (blank.line depth) (ended_cons apart)

mutual

theorem cuts_chars (blank : layout.IsBlank) :
    ∀ (json : Json) (depth : Nat) (rest : List Char), json.IsExact → Ended rest →
      Cuts (chars layout depth json) (words json) rest
  | .null, depth, rest, _, _ => cuts_word rfl rfl
  | .bool true, depth, rest, _, _ => cuts_word rfl rfl
  | .bool false, depth, rest, _, _ => cuts_word rfl rfl
  | .int n, depth, rest, fits, ended => cuts_int fits ended
  | .text s, depth, rest, _, _ => cuts_text s rest
  | .array [], depth, rest, _, _ =>
      (cuts_mark (c := '[') ⟨rfl, fun _ => rfl⟩ _).append (cuts_mark (c := ']') ⟨rfl, fun _ => rfl⟩ _)
  | .array (item :: items), depth, rest, exactly, _ => by
      have closes := ended_close blank depth (c := ']') rest (by decide)
      have inside := cuts_closed ⟨rfl, fun _ => rfl⟩ (blank.line depth)
        (cuts_itemChars blank items (depth + 1) _ exactly.2 closes)
      have first := ended_itemChars layout (depth + 1) items closes
      rw [← List.append_assoc] at first
      have all := cuts_opened (c := '[') ⟨rfl, fun _ => rfl⟩ (blank.line (depth + 1))
        (cuts_chars blank item (depth + 1) _ exactly.1 first) inside
      rw [chars, words]
      rw [← List.append_assoc, ← List.append_assoc] at all
      exact all
  | .object [], depth, rest, _, _ =>
      (cuts_mark (c := '{') ⟨rfl, fun _ => rfl⟩ _).append (cuts_mark (c := '}') ⟨rfl, fun _ => rfl⟩ _)
  | .object (entry :: members), depth, rest, exactly, _ => by
      have closes := ended_close blank depth (c := '}') rest (by decide)
      have inside := cuts_closed ⟨rfl, fun _ => rfl⟩ (blank.line depth)
        (cuts_moreMemberChars blank members (depth + 1) _ exactly.2 closes)
      have first := ended_moreMemberChars layout (depth + 1) members closes
      rw [← List.append_assoc] at first
      have all := cuts_opened (c := '{') ⟨rfl, fun _ => rfl⟩ (blank.line (depth + 1))
        (cuts_memberChars blank entry (depth + 1) _ exactly.1 first) inside
      rw [chars, words]
      rw [← List.append_assoc, ← List.append_assoc] at all
      exact all

theorem cuts_itemChars (blank : layout.IsBlank) :
    ∀ (items : List Json) (depth : Nat) (rest : List Char), AreExact items → Ended rest →
      Cuts (itemChars layout depth items) (itemWords items) rest
  | [], depth, rest, _, _ => cuts_nil rest
  | item :: items, depth, rest, exactly, ended => by
      rw [itemChars, itemWords]
      exact cuts_opened ⟨rfl, fun _ => rfl⟩ (blank.line depth)
        (cuts_chars blank item depth _ exactly.1 (ended_itemChars layout depth items ended))
        (cuts_itemChars blank items depth rest exactly.2 ended)

theorem cuts_memberChars (blank : layout.IsBlank) :
    ∀ (entry : String × Json) (depth : Nat) (rest : List Char), entry.2.IsExact → Ended rest →
      Cuts (memberChars layout depth entry) (memberWords entry) rest
  | (name, value), depth, rest, exactly, ended => by
      rw [memberChars, memberWords]
      exact (cuts_text name _).append ((cuts_mark (c := ':') ⟨rfl, fun _ => rfl⟩ _).append
        ((cuts_blanks blank.afterColon _).append (cuts_chars blank value depth rest exactly ended)))

theorem cuts_moreMemberChars (blank : layout.IsBlank) :
    ∀ (members : List (String × Json)) (depth : Nat) (rest : List Char), MembersExact members →
      Ended rest → Cuts (moreMemberChars layout depth members) (moreMemberWords members) rest
  | [], depth, rest, _, _ => cuts_nil rest
  | entry :: members, depth, rest, exactly, ended => by
      rw [moreMemberChars, moreMemberWords]
      exact cuts_opened ⟨rfl, fun _ => rfl⟩ (blank.line depth)
        (cuts_memberChars blank entry depth _ exactly.1 (ended_moreMemberChars layout depth members ended))
        (cuts_moreMemberChars blank members depth rest exactly.2 ended)

end

/-- A printed value is cut into its words. -/
theorem split?_chars (blank : layout.IsBlank) {json : Json} (exactly : json.IsExact) :
    Token.split? (chars layout 0 json) = some (words json) := by
  have cut := cuts_chars blank json 0 [] exactly ended_nil
  rcases cut (chars layout 0 json).length (Nat.le_of_eq (by rw [List.append_nil]))
    with ⟨left, _, whole⟩
  rw [List.append_nil] at whole
  unfold Token.split?
  rw [whole]
  cases left with
  | zero => exact congrArg some (List.append_nil _)
  | succ left => exact congrArg some (List.append_nil _)

end Cut

/-! ### The words are put together -/

/-- A member whose name could be read. -/
def named (entry : String × Json) : Option String × Json := (some entry.1, entry.2)

theorem mapM_named {name? : Option String × Json → Option (String × Json)}
    (known : ∀ entry, name? (named entry) = some entry) (members : List (String × Json)) :
    (members.map named).mapM name? = some members := by
  induction members with
  | nil => rfl
  | cons entry members ih =>
      rw [List.map_cons, List.mapM_cons, known, ih]
      rfl

theorem closeMembers_named (members : List (String × Json)) :
    closeMembers (members.map named) = .object members.reverse := by
  unfold closeMembers
  rw [← List.map_reverse, mapM_named fun _ => rfl]

mutual

theorem run?_words : ∀ (json : Json) (first : Bool) (stack : List Frame) (rest : List Token),
    json.IsExact →
      (Reading.value first stack).run? (words json ++ rest) = (Reading.after json stack).run? rest
  | .null, _, _, _, _ => rfl
  | .bool _, _, _, _, _ => rfl
  | .int _, _, _, _, _ => rfl
  | .text _, _, _, _, _ => rfl
  | .array [], _, _, _, _ => rfl
  | .array (item :: items), first, stack, rest, exactly => by
      have opened := run?_words item true (.items [] :: stack)
        (itemWords items ++ .closeArray :: rest) exactly.1
      have inside := run?_itemWords items item [] stack rest exactly.2
      rw [words]
      simp only [List.cons_append, List.append_assoc, List.nil_append]
      exact opened.trans inside
  | .object [], _, _, _, _ => rfl
  | .object ((name, value) :: members), first, stack, rest, exactly => by
      have opened := run?_words value false (.members [] (some name) :: stack)
        (moreMemberWords members ++ .closeObject :: rest) exactly.1
      have inside := run?_moreMemberWords members name value [] stack rest exactly.2
      rw [words, memberWords]
      simp only [List.cons_append, List.append_assoc, List.nil_append]
      exact opened.trans inside

/-- Items are collected until their array is closed. -/
theorem run?_itemWords : ∀ (items : List Json) (last : Json) (before : List Json)
    (stack : List Frame) (rest : List Token), AreExact items →
      (Reading.after last (.items before :: stack)).run? (itemWords items ++ .closeArray :: rest) =
        (Reading.after (.array (before.reverse ++ last :: items)) stack).run? rest
  | [], last, before, stack, rest, _ => by
      have closed : (last :: before).reverse = before.reverse ++ [last] := List.reverse_cons
      rw [← closed]
      rfl
  | item :: items, last, before, stack, rest, exactly => by
      have next := run?_words item false (.items (last :: before) :: stack)
        (itemWords items ++ .closeArray :: rest) exactly.1
      have later := run?_itemWords items item (last :: before) stack rest exactly.2
      rw [List.reverse_cons, List.append_assoc] at later
      rw [itemWords, List.cons_append, List.append_assoc]
      exact next.trans later

/-- Members are collected until their object is closed. -/
theorem run?_moreMemberWords : ∀ (members : List (String × Json)) (name : String) (value : Json)
    (before : List (String × Json)) (stack : List Frame) (rest : List Token),
      MembersExact members →
      (Reading.after value (.members (before.map named) (some name) :: stack)).run?
          (moreMemberWords members ++ .closeObject :: rest) =
        (Reading.after (.object (before.reverse ++ (name, value) :: members)) stack).run? rest
  | [], name, value, before, stack, rest, _ => by
      have closed := closeMembers_named ((name, value) :: before)
      rw [List.reverse_cons] at closed
      rw [← closed]
      rfl
  | (nextName, nextValue) :: members, name, value, before, stack, rest, exactly => by
      have next := run?_words nextValue false
        (.members (((name, value) :: before).map named) (some nextName) :: stack)
        (moreMemberWords members ++ .closeObject :: rest) exactly.1
      have later := run?_moreMemberWords members nextName nextValue ((name, value) :: before) stack
        rest exactly.2
      rw [List.reverse_cons, List.append_assoc] at later
      rw [moreMemberWords, memberWords, List.cons_append, List.append_assoc]
      exact next.trans later

end

/-- A value that is printed in a layout with blanks is read back. -/
theorem parseChars?_chars {layout : Layout} (blank : layout.IsBlank) {json : Json}
    (exactly : json.IsExact) : parseChars? (chars layout 0 json) = some json := by
  have ran := run?_words json false [] [] exactly
  rw [List.append_nil] at ran
  unfold parseChars?
  rw [split?_chars blank exactly]
  dsimp only [Option.bind_eq_bind, Option.bind_some]
  rw [ran]
  rfl

theorem parse?_compact {json : Json} (exactly : json.IsExact) :
    parse? json.compact = some json := by
  unfold parse? compact
  rw [String.toList_ofList]
  exact parseChars?_chars compactLayout_isBlank exactly

theorem parse?_indented {json : Json} (exactly : json.IsExact) :
    parse? json.indented = some json := by
  unfold parse? indented
  rw [String.toList_ofList]
  exact parseChars?_chars indentedLayout_isBlank exactly

end JumpIR.Json
