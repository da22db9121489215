import Mathlib.Data.List.Forall2
import JumpIR.Proofs.Text.Place
import JumpIR.Token.Scan

/-!
# Spellings of tokens

`Spells` says which characters spell a token of which kind, without a scanner. A scanner that finds
no fault takes a spelling from the front of its text (`takes_step`), and it takes a spelling whole
where a blank or the end of the text follows (`step_of_spells`, `tokens_of_spells`).
-/

set_option autoImplicit false

namespace JumpIR.Scan

/-! ### Spellings -/

/-- Characters that are read as those digits, one by one. -/
abbrev Digits (digit? : Char → Option Nat) : List Char → List Nat → Prop :=
  List.Forall₂ fun c d => digit? c = some d

/-- Characters between the quotes of a string, and the characters that they stand for. -/
inductive Quotes : List Char → List Char → Prop where
  | nil : Quotes [] []
  | escape {e c : Char} {body contents : List Char} (known : escaped? e = some c)
      (rest : Quotes body contents) : Quotes ('\\' :: e :: body) (c :: contents)
  | plain {c : Char} {body contents : List Char} (line : c ≠ '\n') (open' : c ≠ '"')
      (direct : c ≠ '\\') (rest : Quotes body contents) : Quotes (c :: body) (c :: contents)

/-- The letter behind the zero of a bitvector. -/
def Radix.letter : Radix → Char
  | .binary => 'b'
  | .hexadecimal => 'x'

def isWordChar (c : Char) : Bool := isLetter c || isDigit c

/-- Characters that spell a token of that kind. -/
inductive Spells : List Char → TokenKind → Prop where
  | text {body contents : List Char} (quotes : Quotes body contents) :
      Spells ('"' :: (body ++ ['"'])) (.text (String.ofList contents))
  | bits {radix : Radix} {ds : List Char} {values : List Nat} {kind : TokenKind}
      (digits : Digits radix.digit? ds values) (fits : bitsKind? radix values = some kind) :
      Spells ('0' :: radix.letter :: ds) kind
  | natural {c : Char} {ds : List Char} {values : List Nat} {kind : TokenKind}
      (digits : Digits decimalDigit? (c :: ds) values) (fits : intKind? false values = some kind) :
      Spells (c :: ds) kind
  | negative {c : Char} {ds : List Char} {values : List Nat} {kind : TokenKind}
      (digits : Digits decimalDigit? (c :: ds) values) (fits : intKind? true values = some kind) :
      Spells ('-' :: c :: ds) kind
  | word {c : Char} {tail : List Char} (letter : isLetter c = true)
      (chars : ∀ d ∈ tail, isWordChar d = true) :
      Spells (c :: tail) (wordKind (String.ofList (c :: tail)))
  | mark (m : Mark) : Spells m.word.toList (.mark m)

/-- Nothing follows, or a blank. -/
def Ended (rest : List Char) : Prop := ∀ c ∈ rest.head?, isBlank c = true

theorem ended_nil : Ended [] := fun _ first => nomatch first

/-! ### Characters -/

theorem isDigit_of_decimalDigit? {c : Char} {d : Nat} (digit : decimalDigit? c = some d) :
    isDigit c = true := by
  unfold decimalDigit? at digit
  split at digit
  · rename_i bounds
    simpa [isDigit] using bounds
  · cases digit

theorem blank_cases {c : Char} (blank : isBlank c = true) :
    c = ' ' ∨ c = '\t' ∨ c = '\r' ∨ c = '\n' := by
  simpa [isBlank, or_assoc] using blank

/-- A blank is no part of a word and no digit. -/
theorem blank_apart {c : Char} (blank : isBlank c = true) :
    isWordChar c = false ∧ decimalDigit? c = none ∧ ∀ radix : Radix, radix.digit? c = none := by
  rcases blank_cases blank with same | same | same | same
  all_goals
    subst same
    exact ⟨by decide, by decide, fun radix => by cases radix <;> decide⟩

/-- A character of one byte that is no blank. -/
def IsPlain (c : Char) : Prop := ' ' < c ∧ c ≤ '~'

instance (c : Char) : Decidable (IsPlain c) := inferInstanceAs (Decidable (_ ∧ _))

theorem plain_between {low high c : Char} (bounds : low ≤ c ∧ c ≤ high) (left : ' ' < low)
    (right : high ≤ '~') : IsPlain c :=
  ⟨UInt32.lt_of_lt_of_le left bounds.1, Char.le_trans bounds.2 right⟩

theorem plain_of_isDigit {c : Char} (digit : isDigit c = true) : IsPlain c := by
  simp only [isDigit, Bool.and_eq_true, decide_eq_true_eq] at digit
  exact plain_between digit (by decide) (by decide)

theorem plain_of_isWordChar {c : Char} (inWord : isWordChar c = true) : IsPlain c := by
  simp only [isWordChar, isLetter, Bool.or_eq_true, Bool.and_eq_true, decide_eq_true_eq] at inWord
  rcases inWord with ((lower | upper) | same) | digit
  · exact plain_between lower (by decide) (by decide)
  · exact plain_between upper (by decide) (by decide)
  · exact same ▸ ⟨by decide, by decide⟩
  · exact plain_of_isDigit digit

theorem plain_of_digit? {radix : Radix} {c : Char} {d : Nat} (digit : radix.digit? c = some d) :
    IsPlain c := by
  cases radix with
  | binary =>
      rw [Radix.digit?] at digit
      split at digit
      · rename_i same
        exact same ▸ ⟨by decide, by decide⟩
      · split at digit
        · rename_i same
          exact same ▸ ⟨by decide, by decide⟩
        · cases digit
  | hexadecimal =>
      rw [Radix.digit?] at digit
      split at digit
      · rename_i bounds
        exact plain_between bounds (by decide) (by decide)
      · split at digit
        · rename_i bounds
          exact plain_between bounds (by decide) (by decide)
        · split at digit
          · rename_i bounds
            exact plain_between bounds (by decide) (by decide)
          · cases digit

theorem plain_line {text : List Char} (plain : ∀ c ∈ text, IsPlain c) : '\n' ∉ text := by
  intro member
  exact absurd (plain '\n' member).1 (by decide)

theorem advance_plain {text : List Char} (plain : ∀ c ∈ text, IsPlain c) (p : Position) :
    p.advance text = p.shift text.length := by
  rw [Position.advance_line (plain_line plain), byteCount_eq_length]
  intro c member
  rw [Char.utf8Size_eq_one_iff]
  exact UInt32.le_trans (plain c member).2 (by decide)

/-! ### Runs of digits -/

variable {digit? : Char → Option Nat} {input rest ds : List Char} {values : List Nat}

theorem digitRun_append (digits : Digits digit? ds values)
    (stop : ∀ c ∈ rest.head?, digit? c = none) : digitRun digit? (ds ++ rest) = (values, rest) := by
  induction digits with
  | nil =>
      cases rest with
      | nil => rfl
      | cons c rest =>
          rw [List.nil_append, digitRun, stop c rfl]
  | @cons c d ds values digit _digits ih => rw [List.cons_append, digitRun, digit, ih]

/-- The run takes every digit at the front of a text. -/
theorem digits_of_digitRun (digit? : Char → Option Nat) (input : List Char) :
    ∃ ds values rest, input = ds ++ rest ∧ Digits digit? ds values ∧
      ∀ c ∈ rest.head?, digit? c = none := by
  induction input with
  | nil => exact ⟨[], [], [], rfl, .nil, fun c first => nomatch first⟩
  | cons c input ih =>
      cases digit : digit? c with
      | none =>
          refine ⟨[], [], c :: input, rfl, .nil, ?_⟩
          intro d first
          cases first
          exact digit
      | some d =>
          rcases ih with ⟨ds, values, rest, split, digits, stop⟩
          exact ⟨c :: ds, d :: values, rest, by rw [split]; rfl, .cons digit digits, stop⟩

theorem Digits.forall {P : Char → Prop} (digits : Digits digit? ds values)
    (each : ∀ c d, digit? c = some d → P c) : ∀ c ∈ ds, P c := by
  induction digits with
  | nil => exact fun c member => nomatch member
  | @cons c d ds values digit _digits ih =>
      intro x member
      rcases List.mem_cons.mp member with same | later
      · exact same ▸ each c d digit
      · exact ih x later

/-! ### Strings -/

theorem text_of_quotes {body contents : List Char} (quotes : Quotes body contents)
    (start : Position) (rest : List Char) : ∀ p : Position,
    text start p (body ++ '"' :: rest) =
      ⟨contents, [], .read start ((p.advance body).after '"'), (p.advance body).after '"', rest⟩ := by
  induction quotes with
  | nil => exact fun p => rfl
  | @escape e c body contents known inner ih =>
      intro p
      rw [List.cons_append, List.cons_append, text, ih]
      dsimp only
      rw [known]
      rfl
  | @plain c body contents line open' direct inner ih =>
      intro p
      rw [List.cons_append, text, if_neg line, if_neg open', ih]
      · rfl
      · intro same
        exact absurd same direct
      · intro e others same
        exact absurd same direct

theorem quotes_of_text (start : Position) (input : List Char) (p : Position)
    (quiet : (text start p input).reports = []) :
    ∃ body contents rest, input = body ++ '"' :: rest ∧ Quotes body contents := by
  fun_induction text start p input with
  | case1 => cases quiet
  | case2 => cases quiet
  | case3 p e rest q tail c known ih =>
      rcases ih quiet with ⟨body, contents, rest', split, quotes⟩
      exact ⟨'\\' :: e :: body, c :: contents, rest', by rw [split]; rfl, .escape known quotes⟩
  | case4 => cases quiet
  | case5 => cases quiet
  | case6 p rest => exact ⟨[], [], rest, rfl, .nil⟩
  | case7 p c rest alone followed line open' tail ih =>
      rcases ih quiet with ⟨body, contents, rest', split, quotes⟩
      refine ⟨c :: body, c :: contents, rest', by rw [split]; rfl, .plain line open' ?_ quotes⟩
      intro same
      cases rest with
      | nil => exact alone same rfl
      | cons e others => exact followed e others same rfl

/-! ### One token -/

theorem plain_bits {radix : Radix} (digits : Digits radix.digit? ds values) :
    ∀ c ∈ '0' :: radix.letter :: ds, IsPlain c := by
  intro c member
  rcases List.mem_cons.mp member with zero | later
  · exact zero ▸ ⟨by decide, by decide⟩
  · rcases List.mem_cons.mp later with letter | inside
    · subst letter
      cases radix with
      | binary => exact ⟨by decide, by decide⟩
      | hexadecimal => exact ⟨by decide, by decide⟩
    · exact digits.forall (fun _ _ => plain_of_digit?) c inside

theorem bits_eq {radix : Radix} {kind : TokenKind} (digits : Digits radix.digit? ds values)
    (fits : bitsKind? radix values = some kind) (stop : ∀ c ∈ rest.head?, radix.digit? c = none)
    (p : Position) :
    bits radix p (p.shift 2) (ds ++ rest) =
      .plain kind p (p.advance ('0' :: radix.letter :: ds)) rest := by
  unfold bits
  rw [digitRun_append digits stop]
  dsimp only
  rw [fits, advance_plain (plain_bits digits), Position.shift_shift, ← digits.length_eq]
  dsimp only
  rw [List.length_cons, List.length_cons, Nat.add_comm 2]

theorem plain_decimal (digits : Digits decimalDigit? ds values) : ∀ c ∈ ds, IsPlain c :=
  digits.forall fun _ _ digit => plain_of_isDigit (isDigit_of_decimalDigit? digit)

/-- The characters of an integer are its sign and its digits. -/
theorem int_eq {negative : Bool} {kind : TokenKind} (digits : Digits decimalDigit? ds values)
    (fits : intKind? negative values = some kind)
    (stop : ∀ c ∈ rest.head?, decimalDigit? c = none) (start p : Position) :
    int negative start p (ds ++ rest) = .plain kind start (p.advance ds) rest := by
  unfold int
  rw [digitRun_append digits stop]
  dsimp only
  rw [fits, advance_plain (plain_decimal digits), ← digits.length_eq]

theorem word_eq {c : Char} {tail : List Char} (letter : isLetter c = true)
    (chars : ∀ d ∈ tail, isWordChar d = true) (stop : ∀ d ∈ rest.head?, isWordChar d = false)
    (p : Position) :
    word c p (tail ++ rest) =
      .plain (wordKind (String.ofList (c :: tail))) p (p.advance (c :: tail)) rest := by
  have plain : ∀ d ∈ c :: tail, IsPlain d := by
    intro d member
    rcases List.mem_cons.mp member with same | later
    · exact plain_of_isWordChar (by rw [same, isWordChar, letter, Bool.true_or])
    · exact plain_of_isWordChar (chars d later)
  have none' : rest.takeWhile isWordChar = [] ∧ rest.dropWhile isWordChar = rest := by
    cases rest with
    | nil => exact ⟨rfl, rfl⟩
    | cons d rest =>
        have out := stop d rfl
        simp [out]
  have taken : (tail ++ rest).takeWhile isWordChar = tail := by
    rw [List.takeWhile_append_of_pos chars, none'.1, List.append_nil]
  have dropped : (tail ++ rest).dropWhile isWordChar = rest := by
    rw [List.dropWhile_append_of_pos chars, none'.2]
  unfold word
  change Step.plain (wordKind (String.ofList (c :: (tail ++ rest).takeWhile isWordChar))) p
    (p.shift (((tail ++ rest).takeWhile isWordChar).length + 1))
    ((tail ++ rest).dropWhile isWordChar) = _
  rw [taken, dropped, advance_plain plain, List.length_cons]

theorem not_isLetter_of_isDigit {c : Char} (digit : isDigit c = true) : isLetter c = false := by
  simp only [isDigit, Bool.and_eq_true, decide_eq_true_eq] at digit
  have low : ¬ 'a' ≤ c := fun above =>
    absurd (Char.le_trans above digit.2) (by decide)
  have high : ¬ 'A' ≤ c := fun above =>
    absurd (Char.le_trans above digit.2) (by decide)
  have mark : c ≠ '_' := fun same => absurd (same ▸ digit.2) (by decide)
  simp [isLetter, low, high, mark]

theorem step_digit {c : Char} (digit : isDigit c = true) (met : Nat) (p : Position)
    (input : List Char) : step met p c input = number c p input := by
  unfold step
  rw [if_neg, if_pos digit]
  intro same
  exact absurd (same ▸ digit) (by decide)

theorem step_minus {d : Char} (digit : isDigit d = true) (met : Nat) (p : Position)
    (input : List Char) :
    step met p '-' (d :: input) = int true p (p.shift 1) (d :: input) := by
  unfold step
  rw [if_neg (by decide), if_neg (by decide), if_pos ⟨rfl, digit⟩]

theorem step_letter {c : Char} (letter : isLetter c = true) (met : Nat) (p : Position)
    (input : List Char) : step met p c input = word c p input := by
  have notDigit : ¬ isDigit c = true := by
    intro digit
    rw [not_isLetter_of_isDigit digit] at letter
    cases letter
  unfold step
  rw [if_neg, if_neg notDigit, if_neg, if_pos letter]
  · intro both
    exact absurd (both.1 ▸ letter) (by decide)
  · intro same
    exact absurd (same ▸ letter) (by decide)

/-- A number is a bitvector only where a letter of one follows its zero. -/
theorem number_eq_int {c : Char} (apart : ∀ radix : Radix, input.head? ≠ some radix.letter)
    (p : Position) : number c p input = int false p p (c :: input) := by
  unfold number
  split
  · exact absurd rfl (apart .binary)
  · exact absurd rfl (apart .hexadecimal)
  · rfl

theorem number_eq_bits (radix : Radix) (p : Position) (input : List Char) :
    number '0' p (radix.letter :: input) = bits radix p (p.shift 2) input := by
  cases radix with
  | binary => rfl
  | hexadecimal => rfl

theorem step_of_spells {lexeme : List Char} {kind : TokenKind} (spells : Spells lexeme kind)
    (ended : Ended rest) (met : Nat) (p : Position) :
    ∃ c tail, lexeme = c :: tail ∧
      step met p c (tail ++ rest) = .plain kind p (p.advance lexeme) rest := by
  have noDigit : ∀ c ∈ rest.head?, decimalDigit? c = none := fun c first =>
    (blank_apart (ended c first)).2.1
  cases spells with
  | @text body contents quotes =>
      refine ⟨'"', _, rfl, ?_⟩
      unfold step
      rw [if_pos rfl, List.append_assoc, List.singleton_append, text_of_quotes quotes,
        Position.advance_cons, Position.advance_append]
      rfl
  | @bits radix ds values kind digits fits =>
      refine ⟨'0', _, rfl, ?_⟩
      rw [step_digit (by decide), List.cons_append, number_eq_bits]
      exact bits_eq digits fits (fun c first => (blank_apart (ended c first)).2.2 radix) p
  | @natural c ds values kind digits fits =>
      refine ⟨c, ds, rfl, ?_⟩
      have inside := digits.forall (P := fun c => isDigit c = true) fun _ _ => isDigit_of_decimalDigit?
      rw [step_digit (inside c List.mem_cons_self), number_eq_int, ← List.cons_append]
      · exact int_eq digits fits noDigit p p
      · intro radix first
        cases ds with
        | nil =>
            have blank := ended _ first
            cases radix <;> cases blank
        | cons d ds =>
            have digit := inside d (List.mem_cons_of_mem c List.mem_cons_self)
            cases first
            cases radix <;> cases digit
  | @negative c ds values kind digits fits =>
      refine ⟨'-', _, rfl, ?_⟩
      have inside := digits.forall (P := fun c => isDigit c = true) fun _ _ => isDigit_of_decimalDigit?
      rw [List.cons_append, step_minus (inside c List.mem_cons_self), ← List.cons_append]
      exact int_eq digits fits noDigit p (p.shift 1)
  | @word c tail letter chars =>
      refine ⟨c, tail, rfl, ?_⟩
      rw [step_letter letter]
      exact word_eq letter chars (fun d first => (blank_apart (ended d first)).1) p
  | mark m => cases m <;> exact ⟨_, _, rfl, rfl⟩

/-! ### What is taken without a fault -/

/-- A spelling stands at the front of a text, and the step takes it and reports nothing. -/
def TakesSpelling (s : Step) (start : Position) (input : List Char) : Prop :=
  ∃ lexeme kind rest, input = lexeme ++ rest ∧ Spells lexeme kind ∧
    s = .plain kind start (start.advance lexeme) rest

theorem takes_bits (radix : Radix) (p : Position)
    (quiet : (bits radix p (p.shift 2) input).reports = []) :
    TakesSpelling (bits radix p (p.shift 2) input) p ('0' :: radix.letter :: input) := by
  rcases digits_of_digitRun radix.digit? input with ⟨ds, values, rest, split, digits, stop⟩
  subst split
  cases fits : bitsKind? radix values with
  | some kind => exact ⟨_, kind, rest, rfl, .bits digits fits, bits_eq digits fits stop p⟩
  | none =>
      unfold bits at quiet
      rw [digitRun_append digits stop] at quiet
      dsimp only at quiet
      rw [fits] at quiet
      cases quiet

theorem takes_int {d : Char} {negative : Bool} {start p : Position} (lead : List Char)
    (digit : isDigit d = true) (moved : p = start.advance lead)
    (spells : ∀ {ds values kind}, Digits decimalDigit? (d :: ds) values →
      intKind? negative values = some kind → Spells (lead ++ d :: ds) kind)
    (quiet : (int negative start p (d :: input)).reports = []) :
    TakesSpelling (int negative start p (d :: input)) start (lead ++ d :: input) := by
  rcases digits_of_digitRun decimalDigit? (d :: input) with ⟨ds, values, rest, split, digits, stop⟩
  cases ds with
  | nil =>
      rw [List.nil_append] at split
      have none' := stop d (by rw [← split]; rfl)
      simp only [isDigit, Bool.and_eq_true, decide_eq_true_eq] at digit
      unfold decimalDigit? at none'
      rw [if_pos digit] at none'
      cases none'
  | cons first ds =>
      have parts := List.cons.inj split
      cases parts.1
      cases fits : intKind? negative values with
      | some kind =>
          refine ⟨lead ++ d :: ds, kind, rest, ?_, spells digits fits, ?_⟩
          · rw [split, List.append_assoc]
          · rw [split, int_eq digits fits stop, moved, Position.advance_append]
      | none =>
          rw [split] at quiet
          unfold int at quiet
          rw [digitRun_append digits stop] at quiet
          dsimp only at quiet
          rw [fits] at quiet
          cases quiet

theorem takes_number {c : Char} (digit : isDigit c = true) (p : Position)
    (quiet : (number c p input).reports = []) :
    TakesSpelling (number c p input) p (c :: input) := by
  unfold number at quiet ⊢
  split at quiet
  · exact takes_bits .binary p quiet
  · exact takes_bits .hexadecimal p quiet
  · exact takes_int [] digit rfl (fun digits fits => .natural digits fits) quiet

theorem takes_word {c : Char} (letter : isLetter c = true) (p : Position) :
    TakesSpelling (word c p input) p (c :: input) := by
  have chars : ∀ d ∈ input.takeWhile isWordChar, isWordChar d = true :=
    List.all_eq_true.mp List.all_takeWhile
  have stop : ∀ d ∈ (input.dropWhile isWordChar).head?, isWordChar d = false := by
    intro d first
    have out := List.head?_dropWhile_not isWordChar input
    rw [first] at out
    simpa using out
  have taken := word_eq letter chars stop p
  rw [List.takeWhile_append_dropWhile] at taken
  refine ⟨c :: input.takeWhile isWordChar, _, input.dropWhile isWordChar, ?_,
    .word letter chars, taken⟩
  rw [List.cons_append, List.takeWhile_append_dropWhile]

theorem plain_mark (m : Mark) : ∀ c ∈ m.word.toList, IsPlain c := by
  have plain : m.word.toList.all (fun c => decide (IsPlain c)) = true := by cases m <;> decide
  intro c member
  exact of_decide_eq_true (List.all_eq_true.mp plain c member)

/-- One more character and its mark, in front of a choice of others. -/
theorem word_of_ite {c d : Char} {m : Mark} {others : Option Mark} (spelt : m.word.toList = [d])
    (later : ∀ n, others = some n → n.word.toList = [c]) :
    ∀ n, (if c = d then some m else others) = some n → n.word.toList = [c] := by
  intro n found
  by_cases same : c = d
  · rw [if_pos same] at found
    cases found
    rw [spelt, same]
  · rw [if_neg same] at found
    exact later n found

theorem word_of_mark? (c : Char) : ∀ m, mark? c = some m → m.word.toList = [c] := by
  unfold mark?
  iterate 12 refine word_of_ite rfl ?_
  exact nofun

theorem takes_step {met : Nat} (room : met < Diagnostics.limit) (c : Char) (p : Position)
    (quiet : (step met p c input).reports = []) :
    TakesSpelling (step met p c input) p (c :: input) := by
  by_cases quote : c = '"'
  · subst quote
    have isText : step met p '"' input =
        ⟨some ⟨.text (String.ofList (text p (p.shift 1) input).chars), (text p (p.shift 1) input).span⟩,
          (text p (p.shift 1) input).reports, (text p (p.shift 1) input).next,
          (text p (p.shift 1) input).rest⟩ := if_pos rfl
    rw [isText] at quiet ⊢
    rcases quotes_of_text p input (p.shift 1) quiet with ⟨body, contents, rest, split, quotes⟩
    refine ⟨'"' :: (body ++ ['"']), _, rest, ?_, .text quotes, ?_⟩
    · rw [split, List.cons_append, List.append_assoc]
      rfl
    · rw [split, text_of_quotes quotes, Position.advance_cons, Position.advance_append]
      rfl
  by_cases digit : isDigit c = true
  · rw [step_digit digit] at quiet ⊢
    exact takes_number digit p quiet
  by_cases minus : c = '-' ∧ input.head?.any isDigit = true
  · cases input with
    | nil => cases minus.2
    | cons d input =>
        cases minus.1
        have digit : isDigit d = true := minus.2
        rw [step_minus digit] at quiet ⊢
        exact takes_int ['-'] digit rfl (fun digits fits => .negative digits fits) quiet
  by_cases letter : isLetter c = true
  · rw [step_letter letter]
    exact takes_word letter p
  unfold step at quiet ⊢
  rw [if_neg quote, if_neg digit, if_neg minus, if_neg letter] at quiet ⊢
  by_cases arrow : c = '-' ∧ input.head? = some '>'
  · cases input with
    | nil => cases arrow.2
    | cons d input =>
        cases arrow.1
        cases arrow.2
        exact ⟨['-', '>'], _, input, rfl, .mark .arrow, rfl⟩
  · rw [if_neg arrow] at quiet ⊢
    cases found : mark? c with
    | some m =>
        have spelt := word_of_mark? c m found
        refine ⟨m.word.toList, _, input, by rw [spelt]; rfl, .mark m, ?_⟩
        rw [advance_plain (plain_mark m), spelt]
        rfl
    | none =>
        rw [found] at quiet
        cases bytes : String.utf8EncodeChar c with
        | nil => exact absurd bytes String.utf8EncodeChar_ne_nil
        | cons byte more =>
            rw [bytes] at quiet
            unfold rejectBytes at quiet
            rw [if_neg (Nat.not_le_of_lt room)] at quiet
            cases quiet

/-! ### What is known of a spelling -/

theorem isWordChar_apart {c : Char} (inWord : isWordChar c = true) :
    isBlank c = false ∧ c ≠ '/' := by
  constructor
  · apply Bool.eq_false_iff.mpr
    intro blank
    rw [(blank_apart blank).1] at inWord
    cases inWord
  · intro same
    exact absurd (same ▸ inWord) (by decide)

/-- A spelling begins with no blank and with no comment. -/
theorem starts_spelling {lexeme : List Char} {kind : TokenKind} (spells : Spells lexeme kind) :
    ∃ c tail, lexeme = c :: tail ∧ isBlank c = false ∧ c ≠ '/' := by
  cases spells with
  | text quotes => exact ⟨'"', _, rfl, by decide, by decide⟩
  | bits digits fits => exact ⟨'0', _, rfl, by decide, by decide⟩
  | @natural c ds values kind digits fits =>
      have digit := digits.forall (fun _ _ => isDigit_of_decimalDigit?) c List.mem_cons_self
      exact ⟨c, ds, rfl, isWordChar_apart (by rw [isWordChar, digit, Bool.or_true])⟩
  | negative digits fits => exact ⟨'-', _, rfl, by decide, by decide⟩
  | @word c tail letter chars =>
      exact ⟨c, tail, rfl, isWordChar_apart (by rw [isWordChar, letter, Bool.true_or])⟩
  | mark m => cases m <;> exact ⟨_, _, rfl, by decide, by decide⟩

theorem kind_of_spells {lexeme : List Char} {kind : TokenKind} (spells : Spells lexeme kind) :
    kind ≠ .endOfFile := by
  intro same
  cases spells with
  | text quotes => cases same
  | bits digits fits =>
      unfold bitsKind? at fits
      dsimp only at fits
      split at fits
      · cases fits
        cases same
      · cases fits
  | natural digits fits =>
      rcases Option.map_eq_some_iff.mp fits with ⟨n, _, made⟩
      cases made.trans same
  | negative digits fits =>
      rcases Option.map_eq_some_iff.mp fits with ⟨n, _, made⟩
      cases made.trans same
  | word letter chars =>
      unfold wordKind at same
      split at same
      · cases same
      · cases same
  | mark m => cases same

/-! ### A spelling between blanks -/

theorem skipTrivia_blanks {gap : List Char} (blank : ∀ c ∈ gap, isBlank c = true) (p : Position)
    (rest : List Char) :
    skipTrivia false p (gap ++ rest) = skipTrivia false (p.advance gap) rest := by
  induction gap generalizing p with
  | nil => rfl
  | cons c gap ih =>
      rw [List.cons_append, skipTrivia, if_pos (blank c List.mem_cons_self),
        ih (fun d member => blank d (List.mem_cons_of_mem c member)), Position.advance_cons]

theorem tokens_nil (budget : Nat) (p : Position) :
    tokens budget [] p [] = ([⟨.endOfFile, .point p⟩], []) := by
  cases budget with
  | zero => rfl
  | succ budget => rfl

theorem tokens_of_spells {gap lexeme rest : List Char} {kind : TokenKind}
    (blank : ∀ c ∈ gap, isBlank c = true) (spells : Spells lexeme kind) (ended : Ended rest)
    (budget : Nat) (p : Position) :
    tokens (budget + 1) [] p (gap ++ (lexeme ++ rest)) =
      let q := p.advance gap
      let later := tokens budget [] (q.advance lexeme) rest
      (⟨kind, .read q (q.advance lexeme)⟩ :: later.1, later.2) := by
  rcases starts_spelling spells with ⟨c, tail, front, solid, noSlash⟩
  rcases step_of_spells spells ended 0 (p.advance gap) with ⟨d, others, front', taken⟩
  have same := List.cons.inj (front.symm.trans front')
  cases same.1
  cases same.2
  have stays : skipTrivia false (p.advance gap) (lexeme ++ rest) =
      (p.advance gap, c :: (tail ++ rest)) := by
    rw [front, List.cons_append, skipTrivia, if_neg (Bool.eq_false_iff.mp solid),
      if_neg fun comment => noSlash comment.1]
  have room : ¬ LexReports.isFull [] = true := by decide
  rw [tokens, if_neg room, skipTrivia_blanks blank, stays]
  dsimp only [List.length_nil]
  rw [taken]
  rfl

end JumpIR.Scan
