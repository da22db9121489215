import Mathlib.Data.List.Forall2
import JumpIR.Json.Printer
import JumpIR.Json.Token
import JumpIR.Proofs.Text.Numeral

/-!
# Words of a printed JSON text

A printed text is cut back into the words that it was printed from. `Cuts` says so of the front of a
text, whatever follows it, so that texts and words can be put together side by side.
-/

set_option autoImplicit false

namespace JumpIR.Json

/-! ### Strings -/

/-- A way to write a character in a string. -/
inductive Escapes (c : Char) : List Char → Prop where
  | short {e : Char} (known : shortEscape? e = some c) : Escapes c ['\\', e]
  | unit (control : c.toNat < 32) :
      Escapes c ['\\', 'u', '0', '0', hexDigit (c.toNat / 16), hexDigit (c.toNat % 16)]
  | plain (quote : c ≠ '"') (backslash : c ≠ '\\') (direct : ¬ c.toNat < 32) : Escapes c [c]

theorem escapes_escapeChar (c : Char) : Escapes c (escapeChar c) := by
  unfold escapeChar
  refine iteInduction (fun same => .short (by rw [same]; rfl)) fun quote => ?_
  refine iteInduction (fun same => .short (by rw [same]; rfl)) fun backslash => ?_
  iterate 5 refine iteInduction (fun same => .short (by rw [same]; rfl)) fun _ => ?_
  exact iteInduction .unit (.plain quote backslash)

/-- What a character in a string is read as. -/
inductive StandsFor : Piece → Char → Prop where
  | char (c : Char) : StandsFor (.char c) c
  | unit {c : Char} (control : c.toNat < 32) : StandsFor (.unit c.toNat) c

theorem unit?_hexDigit :
    ∀ n < 32, unit? '0' '0' (hexDigit (n / 16)) (hexDigit (n % 16)) = some n := by decide

theorem scanPieces?_escape {c : Char} {text : List Char} (escapes : Escapes c text) :
    ∃ piece, StandsFor piece c ∧ ∀ tail pieces rest, scanPieces? tail = some (pieces, rest) →
      scanPieces? (text ++ tail) = some (piece :: pieces, rest) := by
  cases escapes with
  | @short e known =>
      refine ⟨.char c, .char c, fun tail pieces rest scanned => ?_⟩
      rw [List.cons_append, List.singleton_append, scanPieces?, known, scanned]
      · rfl
      · intro x y z w others same
        cases same
        cases known
  | unit control =>
      refine ⟨.unit c.toNat, .unit control, fun tail pieces rest scanned => ?_⟩
      have digits := unit?_hexDigit c.toNat control
      simp only [List.cons_append, List.nil_append]
      rw [scanPieces?, digits, scanned]
      rfl
  | plain quote backslash direct =>
      refine ⟨.char c, .char c, fun tail pieces rest scanned => ?_⟩
      have free : ¬ (c.toNat < 32 ∨ c = '\\') := fun either => either.elim direct backslash
      rw [List.singleton_append, scanPieces?, if_neg free, scanned]
      · rfl
      · exact quote
      · intro x y z w others same
        exact absurd same backslash
      · intro e others same
        exact absurd same backslash

theorem scanPieces?_escapeChars (cs rest : List Char) :
    ∃ pieces, List.Forall₂ StandsFor pieces cs ∧
      scanPieces? (escapeChars cs ++ '"' :: rest) = some (pieces, rest) := by
  induction cs with
  | nil => exact ⟨[], .nil, rfl⟩
  | cons c cs ih =>
      rcases ih with ⟨pieces, stand, scanned⟩
      rcases scanPieces?_escape (escapes_escapeChar c) with ⟨piece, stands, scan⟩
      refine ⟨piece :: pieces, .cons stands stand, ?_⟩
      rw [escapeChars, List.append_assoc]
      exact scan _ _ _ scanned

/-- No control character is a surrogate. -/
theorem not_surrogate {n : Nat} (control : n < 32) :
    isHighSurrogate n = false ∧ isLowSurrogate n = false := by
  have low : ¬ 0xD800 ≤ n := by omega
  have lower : ¬ 0xDC00 ≤ n := by omega
  simp [isHighSurrogate, isLowSurrogate, low, lower]

theorem joinPieces?_cons {piece : Piece} {c : Char} (stands : StandsFor piece c)
    (rest : List Piece) : joinPieces? (piece :: rest) = (joinPieces? rest).map (c :: ·) := by
  cases stands with
  | char c => rfl
  | unit control =>
      have apart := not_surrogate control
      have alone : ¬ (isHighSurrogate c.toNat || isLowSurrogate c.toNat) = true := by
        rw [apart.1, apart.2]
        decide
      -- A unit is read together with a unit right behind it, but only a surrogate joins it.
      cases rest with
      | nil =>
          conv_lhs => rw [joinPieces?.eq_def]
          dsimp only
          rw [if_neg alone, Char.ofNat_toNat]
      | cons next rest =>
          cases next with
          | char d =>
              conv_lhs => rw [joinPieces?.eq_def]
              dsimp only
              rw [if_neg alone, Char.ofNat_toNat]
          | unit n =>
              rw [joinPieces?, if_neg (Bool.eq_false_iff.mp apart.1),
                if_neg (Bool.eq_false_iff.mp apart.2), Char.ofNat_toNat]

theorem joinPieces?_of_standsFor {pieces : List Piece} {cs : List Char}
    (stand : List.Forall₂ StandsFor pieces cs) : joinPieces? pieces = some cs := by
  induction stand with
  | nil => rfl
  | cons stands _stand ih => rw [joinPieces?_cons stands, ih]; rfl

/-- A string that was printed is read back, whatever its characters are. -/
theorem scanText?_escapeChars (s : String) (rest : List Char) :
    scanText? (escapeChars s.toList ++ '"' :: rest) = some (some s, rest) := by
  rcases scanPieces?_escapeChars s.toList rest with ⟨pieces, stand, scanned⟩
  unfold scanText?
  rw [scanned]
  dsimp only [Option.bind_eq_bind, Option.bind_some]
  rw [joinPieces?_of_standsFor stand, Option.map_some, String.ofList_toList]

/-! ### Numbers -/

/-- What may follow a number: nothing, or a character that cannot belong to it. -/
def Ended (rest : List Char) : Prop :=
  ∀ c ∈ rest.head?, isDigit c = false ∧ c ≠ '.' ∧ c ≠ 'e' ∧ c ≠ 'E'

theorem ended_nil : Ended [] := fun _ first => nomatch first

theorem isDigit_of_mem_toDigits {n : Nat} {c : Char} (member : c ∈ Nat.toDigits 10 n) :
    isDigit c = true := by
  have digit := Nat.isDigit_of_mem_toDigits (by decide) (by decide) member
  rw [Char.isDigit, Bool.and_eq_true, decide_eq_true_eq, decide_eq_true_eq] at digit
  rw [isDigit, Bool.and_eq_true, decide_eq_true_eq, decide_eq_true_eq]
  exact digit

theorem decimalValue_toDigits (n : Nat) : decimalValue (Nat.toDigits 10 n) = n := by
  have value := Nat.ofDigitChars_ten_toDigits (n := n)
  rw [Nat.ofDigitChars_eq_foldl] at value
  unfold decimalValue
  simp only [Nat.mul_comm _ 10]
  exact value

theorem takeWhile_toDigits {rest : List Char} (ended : Ended rest) (n : Nat) :
    (Nat.toDigits 10 n ++ rest).takeWhile isDigit = Nat.toDigits 10 n ∧
      (Nat.toDigits 10 n ++ rest).dropWhile isDigit = rest := by
  have digits : ∀ c ∈ Nat.toDigits 10 n, isDigit c = true := fun _ => isDigit_of_mem_toDigits
  have stops : rest.takeWhile isDigit = [] ∧ rest.dropWhile isDigit = rest := by
    cases rest with
    | nil => exact ⟨rfl, rfl⟩
    | cons c rest => simp [(ended c rfl).1]
  rw [List.takeWhile_append_of_pos digits, List.dropWhile_append_of_pos digits, stops.1, stops.2,
    List.append_nil]
  exact ⟨rfl, rfl⟩

theorem scanWhole?_toDigits {rest : List Char} (ended : Ended rest) (n : Nat) :
    scanWhole? (Nat.toDigits 10 n ++ rest) = some (Nat.toDigits 10 n, rest) := by
  have cut := takeWhile_toDigits ended n
  unfold scanWhole?
  rw [cut.1, cut.2]
  cases n with
  | zero =>
      rw [Nat.toDigits_zero]
      rfl
  | succ n =>
      rcases toDigits_first (Nat.succ_pos n) with ⟨c, tail, shape, first⟩
      rw [shape]
      split
      · rename_i empty
        cases empty
      · rename_i zero
        exact absurd (List.cons.inj zero).1 first
      · rename_i zero
        exact absurd (List.cons.inj zero).1 first
      · rfl

theorem scanNumber?_toDigits {rest : List Char} (ended : Ended rest) {negative : Bool} {n : Nat}
    {value : Int} (same : value = if negative then -(n : Int) else n)
    (plain : negative = true → n ≠ 0) (fits : fitsInteger value = true) :
    scanNumber? negative (Nat.toDigits 10 n ++ rest) = some (.int value, rest) := by
  have noFraction : scanFraction? rest = some (none, rest) := by
    unfold scanFraction?
    split
    · exact absurd rfl (ended _ rfl).2.1
    · rfl
  have noExponent : scanExponent? rest = some (none, rest) := by
    cases rest with
    | nil => rfl
    | cons c rest =>
        have apart := (ended c rfl).2.2
        exact if_neg fun either => either.elim apart.1 apart.2
  have whole : integer? negative (Nat.toDigits 10 n) = some value := by
    unfold integer?
    rw [decimalValue_toDigits]
    dsimp only
    rw [← same, if_pos fits, if_neg]
    intro minusZero
    rw [Bool.and_eq_true, decide_eq_true_eq] at minusZero
    exact plain minusZero.1 minusZero.2
  unfold scanNumber?
  rw [scanWhole?_toDigits ended]
  dsimp only [Option.bind_eq_bind, Option.bind_some]
  rw [noFraction]
  dsimp only [Option.bind_some]
  rw [noExponent]
  dsimp only [Option.bind_some]
  unfold numberValue
  dsimp only
  rw [whole]
  rfl

/-! ### Words side by side -/

theorem blank_cases {c : Char} (blank : isBlank c = true) :
    c = ' ' ∨ c = '\n' ∨ c = '\t' ∨ c = '\r' := by
  simpa [isBlank, or_assoc] using blank

/-- In front of `rest` the text is cut into those words, and nothing of `rest` belongs to them. -/
def Cuts (text : List Char) (words : List Token) (rest : List Char) : Prop :=
  ∀ budget, (text ++ rest).length ≤ budget → ∃ left, rest.length ≤ left ∧
    Token.splitWithin? budget (text ++ rest) = (Token.splitWithin? left rest).map (words ++ ·)

variable {text left right rest : List Char} {words more : List Token}

theorem Cuts.append (first : Cuts left words (right ++ rest)) (second : Cuts right more rest) :
    Cuts (left ++ right) (words ++ more) rest := by
  intro budget enough
  rw [List.append_assoc] at enough ⊢
  rcases first budget enough with ⟨between, room, cutFirst⟩
  rcases second between room with ⟨last, roomLast, cutSecond⟩
  refine ⟨last, roomLast, ?_⟩
  rw [cutFirst, cutSecond, Option.map_map]
  congr 1
  funext others
  exact (List.append_assoc words more others).symm

theorem cuts_nil (rest : List Char) : Cuts [] [] rest := by
  intro budget enough
  exact ⟨budget, enough, Option.map_id_apply.symm⟩

theorem cuts_blanks {gap : List Char} (blank : ∀ c ∈ gap, isBlank c = true) (rest : List Char) :
    Cuts gap [] rest := by
  induction gap with
  | nil => exact cuts_nil rest
  | cons c gap ih =>
      intro budget enough
      cases budget with
      | zero => cases enough
      | succ budget =>
          rcases ih (fun d member => blank d (List.mem_cons_of_mem c member)) budget
            (Nat.le_of_succ_le_succ enough) with ⟨last, room, cut⟩
          refine ⟨last, room, ?_⟩
          rw [List.cons_append, Token.splitWithin?, if_pos (blank c List.mem_cons_self), cut]

theorem cuts_word {c : Char} {word : Token} (solid : isBlank c = false)
    (scanned : scanWord? c (text ++ rest) = some (word, rest)) : Cuts (c :: text) [word] rest := by
  intro budget enough
  cases budget with
  | zero => cases enough
  | succ budget =>
      have room : rest.length ≤ budget := by
        rw [List.cons_append, List.length_cons, List.length_append] at enough
        omega
      refine ⟨budget, room, ?_⟩
      rw [List.cons_append, Token.splitWithin?, if_neg (Bool.eq_false_iff.mp solid), scanned]
      dsimp only [Option.bind_eq_bind, Option.bind_some]
      cases Token.splitWithin? budget rest with
      | none => rfl
      | some others => rfl

theorem cuts_text (s : String) (rest : List Char) : Cuts (quoteText s) [.text (some s)] rest := by
  refine cuts_word rfl ?_
  have scanned := scanText?_escapeChars s rest
  rw [List.append_assoc, List.singleton_append]
  unfold scanWord?
  iterate 6 rw [if_neg (by decide)]
  rw [if_pos rfl, scanned]
  rfl

theorem scanWord?_digit {c : Char} (digit : isDigit c = true) (input : List Char) :
    scanWord? c input =
      (scanNumber? false (c :: input)).map fun (value, rest) => (.scalar value, rest) := by
  have apart : ∀ d, isDigit d = false → c ≠ d := by
    intro d other same
    rw [same, other] at digit
    cases digit
  unfold scanWord?
  rw [if_neg (apart '[' rfl), if_neg (apart ']' rfl), if_neg (apart '{' rfl),
    if_neg (apart '}' rfl), if_neg (apart ',' rfl), if_neg (apart ':' rfl), if_neg (apart '"' rfl),
    if_neg (apart '-' rfl), if_pos digit]

theorem blank_of_isDigit {c : Char} (digit : isDigit c = true) : isBlank c = false := by
  apply Bool.eq_false_iff.mpr
  intro blank
  rcases blank_cases blank with same | same | same | same
  all_goals
    subst same
    cases digit

theorem cuts_int {n : Int} (fits : fitsInteger n = true) (ended : Ended rest) :
    Cuts (digits n) [.scalar (.int n)] rest := by
  unfold digits
  rw [toList_toString]
  by_cases negative : n < 0
  · rw [if_pos negative, List.singleton_append]
    refine cuts_word rfl ?_
    have same : n = if true = true then -(n.natAbs : Int) else n.natAbs := by
      rw [if_pos rfl]
      omega
    have scanned := scanNumber?_toDigits ended same (fun _ => by omega) fits
    unfold scanWord?
    iterate 7 rw [if_neg (by decide)]
    rw [if_pos rfl, scanned]
    rfl
  · rw [if_neg negative, List.nil_append]
    have same : n = if false = true then -(n.natAbs : Int) else n.natAbs := by
      rw [if_neg (by decide)]
      omega
    have scanned := scanNumber?_toDigits ended same (fun impossible => nomatch impossible) fits
    cases shape : Nat.toDigits 10 n.natAbs with
    | nil => exact absurd shape Nat.toDigits_ne_nil
    | cons c tail =>
        have digit : isDigit c = true := isDigit_of_mem_toDigits (shape ▸ List.mem_cons_self)
        rw [shape, List.cons_append] at scanned
        refine cuts_word (blank_of_isDigit digit) ?_
        rw [scanWord?_digit digit, scanned]
        rfl

end JumpIR.Json
