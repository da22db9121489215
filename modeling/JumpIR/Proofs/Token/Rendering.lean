import Mathlib.Algebra.Group.Nat.Defs
import JumpIR.Proofs.Text.Numeral
import JumpIR.Proofs.Token.Spelling

/-!
# Rendered tokens

`render` writes a token down: every kind but the end has a text, and a bitvector has one for each
style of digits. A text of rendered tokens with blanks between them is scanned back to the tokens.
-/

set_option autoImplicit false

namespace JumpIR.Scan

/-! ### Rendering -/

/-- How the digits of a bitvector are written, if it has as many bits as its digits make. -/
inductive BitsStyle where
  | binary
  | lowerHexadecimal
  | upperHexadecimal
deriving DecidableEq, Repr

/-- Hexadecimal digits make four bits each, so other bitvectors are written in binary. -/
def BitsStyle.radix (style : BitsStyle) (width : Nat) : Radix :=
  match style with
  | .binary => .binary
  | .lowerHexadecimal | .upperHexadecimal => if width % 4 = 0 then .hexadecimal else .binary

def BitsStyle.digit : BitsStyle → Nat → Char
  | .binary, d | .lowerHexadecimal, d => d.digitChar
  | .upperHexadecimal, d => d.digitChar.toUpper

/-- The last digits of a number, as many as `count`. -/
def fixedDigits (base : Nat) (digit : Nat → Char) : (count : Nat) → Nat → List Char
  | 0, _ => []
  | count + 1, n => fixedDigits base digit count (n / base) ++ [digit (n % base)]

def escape : Char → List Char
  | '\n' => ['\\', 'n']
  | '\t' => ['\\', 't']
  | '"' => ['\\', '"']
  | '\\' => ['\\', '\\']
  | c => [c]

/-- The text of a token. -/
def render (style : BitsStyle) : TokenKind → List Char
  | .int n => (toString n.toInt).toList
  | .bits width value =>
      let radix := style.radix width
      '0' :: radix.letter ::
        fixedDigits radix.base style.digit (width / radix.bitsPerDigit) value.toNat
  | .text contents => '"' :: (contents.toList.flatMap escape ++ ['"'])
  | .ident name => name.toList
  | .keyword k => k.word.toList
  | .mark m => m.word.toList
  | .endOfFile => []

/-- The tokens in order, with a space between any two. -/
def renderAll (items : List (BitsStyle × TokenKind)) : List Char :=
  [' '].intercalate (items.map fun item => render item.1 item.2)

/-- A word that is not reserved. -/
def IsName (name : String) : Prop :=
  name.toList.head?.any isLetter = true ∧ name.toList.all isWordChar = true ∧
    ∀ k ∈ Keyword.all, k.word ≠ name

instance (name : String) : Decidable (IsName name) := inferInstanceAs (Decidable (_ ∧ _ ∧ _))

/-- Whether a token can be written down: an identifier is a name, and the value of a bitvector has
no more bits than it. -/
def IsPrintable : TokenKind → Prop
  | .ident name => IsName name
  | .bits width value => 1 ≤ width ∧ width ≤ 64 ∧ value.toNat < 2 ^ width
  | .endOfFile => False
  | .int _ | .text _ | .keyword _ | .mark _ => True

instance : DecidablePred IsPrintable
  | .ident name => inferInstanceAs (Decidable (IsName name))
  | .bits _ _ => inferInstanceAs (Decidable (_ ∧ _ ∧ _))
  | .endOfFile => inferInstanceAs (Decidable False)
  | .int _ | .text _ | .keyword _ | .mark _ => inferInstanceAs (Decidable True)

/-! ### Digits -/

variable {digit? : Char → Option Nat}

theorem digits_snoc {ds : List Char} {values : List Nat} {c : Char} {d : Nat}
    (digits : Digits digit? ds values) (last : digit? c = some d) :
    Digits digit? (ds ++ [c]) (values ++ [d]) :=
  List.rel_append digits (.cons last .nil)

theorem numeralValue_snoc (base : Nat) (values : List Nat) (d : Nat) :
    numeralValue base (values ++ [d]) = numeralValue base values * base + d :=
  List.foldl_append

theorem fixedDigits_read {base : Nat} {digit : Nat → Char} (positive : 0 < base)
    (reads : ∀ d < base, digit? (digit d) = some d) (count : Nat) :
    ∀ n < base ^ count, ∃ values, Digits digit? (fixedDigits base digit count n) values ∧
      values.length = count ∧ numeralValue base values = n := by
  induction count with
  | zero =>
      intro n small
      exact ⟨[], .nil, rfl, (Nat.lt_one_iff.mp small).symm⟩
  | succ count ih =>
      intro n small
      have front : n / base < base ^ count :=
        Nat.div_lt_of_lt_mul (by rwa [Nat.mul_comm, ← Nat.pow_succ])
      rcases ih (n / base) front with ⟨values, digits, size, value⟩
      refine ⟨values ++ [n % base], digits_snoc digits (reads _ (Nat.mod_lt n positive)), ?_, ?_⟩
      · rw [List.length_append, size]
        rfl
      · rw [numeralValue_snoc, value, Nat.mul_comm, Nat.div_add_mod]

theorem decimalDigit?_digitChar : ∀ d < 10, decimalDigit? d.digitChar = some d := by decide

theorem toDigits_read (n : Nat) :
    ∃ values, Digits decimalDigit? (Nat.toDigits 10 n) values ∧ numeralValue 10 values = n := by
  induction n using Nat.strongRecOn with
  | ind n ih =>
      rw [Nat.toDigits_eq_if (by decide)]
      by_cases small : n < 10
      · rw [if_pos small]
        exact ⟨[n], .cons (decimalDigit?_digitChar n small) .nil, by simp [numeralValue]⟩
      · rw [if_neg small]
        have last := decimalDigit?_digitChar (n % 10) (Nat.mod_lt n (by decide))
        rcases ih (n / 10) (by omega) with ⟨values, digits, value⟩
        refine ⟨values ++ [n % 10], digits_snoc digits last, ?_⟩
        rw [numeralValue_snoc, value, Nat.mul_comm, Nat.div_add_mod]

/-! ### One token -/

theorem spells_int (n : Int64) : Spells (toString n.toInt).toList (.int n) := by
  rcases toDigits_read n.toInt.natAbs with ⟨values, digits, value⟩
  have fits : int64? n.toInt = some n := (int64?_eq_some_iff _ _).mpr rfl
  rw [toList_toString]
  cases shape : Nat.toDigits 10 n.toInt.natAbs with
  | nil => exact absurd shape Nat.toDigits_ne_nil
  | cons c ds =>
      rw [shape] at digits
      by_cases negative : n.toInt < 0
      · rw [if_pos negative]
        refine .negative digits ?_
        have number : -(numeralValue 10 values : Int) = n.toInt := by omega
        unfold intKind?
        dsimp only
        rw [if_pos rfl, number, fits]
        rfl
      · rw [if_neg negative]
        refine .natural digits ?_
        have number : (numeralValue 10 values : Int) = n.toInt := by omega
        unfold intKind?
        dsimp only
        rw [if_neg (by decide), number, fits]
        rfl

theorem digit?_digit (style : BitsStyle) (width : Nat) :
    ∀ d < (style.radix width).base, (style.radix width).digit? (style.digit d) = some d := by
  have readable : ∀ radix : Radix, ∀ d < radix.base,
      radix.digit? d.digitChar = some d ∧ radix.digit? d.digitChar.toUpper = some d := by
    intro radix
    cases radix with
    | binary => decide
    | hexadecimal => decide
  intro d small
  cases style with
  | binary => exact (readable _ d small).1
  | lowerHexadecimal => exact (readable _ d small).1
  | upperHexadecimal => exact (readable _ d small).2

/-- The digits of a bitvector make all of its bits. -/
theorem width_radix (style : BitsStyle) (width : Nat) :
    width / (style.radix width).bitsPerDigit * (style.radix width).bitsPerDigit = width := by
  have binary : width / Radix.binary.bitsPerDigit * Radix.binary.bitsPerDigit = width := by
    rw [Radix.bitsPerDigit, Nat.div_one, Nat.mul_one]
  have hexadecimal : width % 4 = 0 →
      width / Radix.hexadecimal.bitsPerDigit * Radix.hexadecimal.bitsPerDigit = width := by
    intro whole
    exact Nat.div_mul_cancel (Nat.dvd_of_mod_eq_zero whole)
  unfold BitsStyle.radix
  cases style with
  | binary => exact binary
  | lowerHexadecimal | upperHexadecimal =>
      dsimp only
      by_cases whole : width % 4 = 0
      · rw [if_pos whole]
        exact hexadecimal whole
      · rw [if_neg whole]
        exact binary

theorem base_eq_pow (radix : Radix) : radix.base = 2 ^ radix.bitsPerDigit := by
  cases radix with
  | binary => rfl
  | hexadecimal => rfl

theorem spells_bits (style : BitsStyle) {width : Nat} {value : UInt64}
    (printable : IsPrintable (.bits width value)) :
    Spells (render style (.bits width value)) (.bits width value) := by
  rcases printable with ⟨low, high, small⟩
  have whole := width_radix style width
  have reads := digit?_digit style width
  unfold render
  dsimp only
  generalize style.radix width = radix at whole reads ⊢
  have below : value.toNat < radix.base ^ (width / radix.bitsPerDigit) := by
    rw [base_eq_pow, ← Nat.pow_mul, Nat.mul_comm, whole]
    exact small
  have positive : 0 < radix.base := by
    rw [base_eq_pow]
    exact Nat.pow_pos (by decide)
  rcases fixedDigits_read positive reads _ _ below with ⟨values, digits, size, number⟩
  refine .bits digits ?_
  unfold bitsKind?
  dsimp only
  rw [size, whole, number, if_pos ⟨low, high⟩, UInt64.ofNat_toNat]

theorem quotes_escape (contents : List Char) : Quotes (contents.flatMap escape) contents := by
  induction contents with
  | nil => exact .nil
  | cons c contents ih =>
      rw [List.flatMap_cons]
      unfold escape
      split
      · exact .escape rfl ih
      · exact .escape rfl ih
      · exact .escape rfl ih
      · exact .escape rfl ih
      · rename_i line tab quote backslash
        exact .plain line quote backslash ih

theorem spells_text (contents : String) :
    Spells ('"' :: (contents.toList.flatMap escape ++ ['"'])) (.text contents) := by
  have spells := Spells.text (quotes_escape contents.toList)
  rwa [String.ofList_toList] at spells

theorem spells_word {name : String} (first : name.toList.head?.any isLetter = true)
    (chars : name.toList.all isWordChar = true) : Spells name.toList (wordKind name) := by
  cases shape : name.toList with
  | nil =>
      rw [shape] at first
      cases first
  | cons c tail =>
      rw [shape] at first chars
      have spells := Spells.word first fun d member =>
        List.all_eq_true.mp chars d (List.mem_cons_of_mem c member)
      rwa [← shape, String.ofList_toList, shape] at spells

theorem wordKind_of_isName {name : String} (isName : IsName name) :
    wordKind name = .ident name := by
  have none' : Keyword.ofWord? name = none := by
    apply List.find?_eq_none.mpr
    intro k known same
    exact isName.2.2 k known (beq_iff_eq.mp same)
  unfold wordKind
  rw [none']

theorem spells_keyword (k : Keyword) : Spells k.word.toList (.keyword k) := by
  have chars : k.word.toList.head?.any isLetter = true ∧
      k.word.toList.all isWordChar = true := by
    cases k <;> decide
  have reserved : wordKind k.word = .keyword k := by cases k <;> rfl
  exact reserved ▸ spells_word chars.1 chars.2

theorem spells_render (style : BitsStyle) {kind : TokenKind} (printable : IsPrintable kind) :
    Spells (render style kind) kind := by
  cases kind with
  | int n => exact spells_int n
  | bits width value => exact spells_bits style printable
  | text contents => exact spells_text contents
  | ident name =>
      have spells := spells_word printable.1 printable.2.1
      rwa [wordKind_of_isName printable] at spells
  | keyword k => exact spells_keyword k
  | mark m => exact .mark m
  | endOfFile => exact absurd printable id

/-! ### Lists of tokens -/

/-- Spellings with a space between any two are scanned to the tokens that they spell. The space in
front of a later spelling is the gap that the induction starts from. -/
theorem kinds_of_spells (rest : List (List Char × TokenKind)) :
    ∀ first gap budget p, Spells first.1 first.2 → (∀ x ∈ rest, Spells x.1 x.2) →
      (∀ c ∈ gap, isBlank c = true) → rest.length < budget →
      (tokens budget [] p (gap ++ [' '].intercalate ((first :: rest).map Prod.fst))).1.map
          Token.kind = (first :: rest).map Prod.snd ++ [.endOfFile] ∧
        (tokens budget [] p (gap ++ [' '].intercalate ((first :: rest).map Prod.fst))).2 = [] := by
  induction rest with
  | nil =>
      intro first gap budget p spells _others blank enough
      cases budget with
      | zero => cases enough
      | succ budget =>
          have text : [' '].intercalate ([first].map Prod.fst) = first.1 ++ [] := rfl
          rw [text, tokens_of_spells blank spells ended_nil]
          dsimp only
          rw [tokens_nil]
          exact ⟨rfl, rfl⟩
  | cons second rest ih =>
      intro first gap budget p spells others blank enough
      cases budget with
      | zero => cases enough
      | succ budget =>
          have text : [' '].intercalate ((first :: second :: rest).map Prod.fst) =
              first.1 ++ ([' '] ++ [' '].intercalate ((second :: rest).map Prod.fst)) := rfl
          have ended : Ended ([' '] ++ [' '].intercalate ((second :: rest).map Prod.fst)) := by
            intro c front
            cases front
            rfl
          have space : ∀ c ∈ [' '], isBlank c = true :=
            fun c member => List.mem_singleton.mp member ▸ rfl
          rw [text, tokens_of_spells blank spells ended]
          dsimp only
          have later := ih second [' '] budget ((p.advance gap).advance first.1)
            (others second List.mem_cons_self)
            (fun x member => others x (List.mem_cons_of_mem second member)) space
            (Nat.lt_of_succ_lt_succ enough)
          refine ⟨?_, later.2⟩
          rw [List.map_cons, later.1]
          rfl

theorem length_le_spaced (rest : List (List Char)) :
    ∀ first, rest.length ≤ ([' '].intercalate (first :: rest)).length := by
  induction rest with
  | nil => exact fun first => Nat.zero_le _
  | cons second rest ih =>
      intro first
      have text : [' '].intercalate (first :: second :: rest) =
          first ++ ([' '] ++ [' '].intercalate (second :: rest)) := rfl
      have later := ih second
      rw [text, List.length_append, List.length_append, List.length_cons, List.length_singleton]
      omega

/-- Tokens that are written down with a space between any two are scanned back without a fault. -/
theorem kinds_of_renderAll {items : List (BitsStyle × TokenKind)}
    (printable : ∀ item ∈ items, IsPrintable item.2) :
    (tokensOf (renderAll items)).1.map Token.kind = items.map Prod.snd ++ [.endOfFile] ∧
      (tokensOf (renderAll items)).2 = [] := by
  cases items with
  | nil => exact ⟨rfl, rfl⟩
  | cons first rest =>
      let spelling := fun item : BitsStyle × TokenKind => (render item.1 item.2, item.2)
      have spells : ∀ item ∈ first :: rest, Spells (spelling item).1 (spelling item).2 :=
        fun item member => spells_render item.1 (printable item member)
      have others : ∀ x ∈ rest.map spelling, Spells x.1 x.2 := by
        intro x member
        rcases List.mem_map.mp member with ⟨item, inRest, same⟩
        exact same ▸ spells item (List.mem_cons_of_mem first inRest)
      have enough := length_le_spaced (rest.map fun item => render item.1 item.2)
        (render first.1 first.2)
      have kinds := kinds_of_spells (rest.map spelling) (spelling first) []
        ((renderAll (first :: rest)).length + 1) .origin (spells first List.mem_cons_self) others
        (fun c inGap => nomatch inGap)
        (by rw [List.length_map] at enough ⊢; exact Nat.lt_succ_of_le enough)
      rw [← List.map_cons, List.map_map, List.map_map, List.nil_append] at kinds
      exact kinds

/-- The least integer, the widest bitvectors, every escape, and a name that begins with a reserved
word. -/
def extremes : List (BitsStyle × TokenKind) :=
  [(.binary, .int (-9223372036854775808)), (.upperHexadecimal, .bits 64 18446744073709551615),
    (.lowerHexadecimal, .bits 63 4611686018427387905), (.lowerHexadecimal, .bits 8 10),
    (.binary, .text "λ \"\\n\n\t\r//"), (.binary, .ident "fn_0"), (.binary, .keyword .fnDecl),
    (.binary, .mark .arrow), (.binary, .int 9223372036854775807)]

theorem kinds_of_renderAll_extremes :
    (∀ item ∈ extremes, IsPrintable item.2) ∧
      (tokensOf (renderAll extremes)).1.map Token.kind = extremes.map Prod.snd ++ [.endOfFile] ∧
      (tokensOf (renderAll extremes)).2 = [] := by
  have printable : ∀ item ∈ extremes, IsPrintable item.2 := by decide +kernel
  exact ⟨printable, kinds_of_renderAll printable⟩

end JumpIR.Scan
