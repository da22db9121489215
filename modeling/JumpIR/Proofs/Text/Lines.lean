import Mathlib.Data.List.DropRight
import JumpIR.Proofs.Text.Place
import JumpIR.Text.Source

/-!
# Lines are pieces of a text

A text is cut into pieces at its newlines. The offsets of line starts are found in its characters
and in its bytes alike, so one statement on pieces of any list (`boundsAt?_piece`) serves both: the
bounds of a line in characters, which its text is taken from, and its bounds in bytes. Main
statement: `line?_eq_piece`.
-/

set_option autoImplicit false

namespace JumpIR

/-! ### Pieces of a list -/

section Pieces

variable {α : Type} {sep : α}

/-- What stands in front of a piece: the pieces before it, each with its separator. -/
def ahead (sep : α) (pieces : List (List α)) (index : Nat) : List α :=
  (pieces.take index).flatMap (· ++ [sep])

/-- The offset of the first item of each piece, where one separator stands between any two. -/
def pieceStarts (offset : Nat) : List (List α) → List Nat
  | [] => []
  | piece :: rest => offset :: pieceStarts (offset + piece.length + 1) rest

/-- The offsets between which piece `number`, counted from one, stands: it ends just before the
separator in front of the next start, and the last piece ends with the list. -/
def boundsAt? (starts : List Nat) (size : Nat) : Nat → Option (Nat × Nat)
  | 0 => none
  | index + 1 =>
      match starts[index]? with
      | none => none
      | some start =>
          match starts[index + 1]? with
          | some next => some (start, next - 1)
          | none => some (start, size)

theorem length_pieceStarts (pieces : List (List α)) :
    ∀ offset, (pieceStarts offset pieces).length = pieces.length := by
  induction pieces with
  | nil => exact fun _ => rfl
  | cons piece rest ih => exact fun offset => congrArg (· + 1) (ih _)

theorem ahead_cons (piece : List α) (rest : List (List α)) (index : Nat) :
    ahead sep (piece :: rest) (index + 1) = piece ++ [sep] ++ ahead sep rest index := by
  unfold ahead
  rw [List.take_succ_cons, List.flatMap_cons]

theorem pieceStarts_getElem? (sep : α) (pieces : List (List α)) :
    ∀ offset index : Nat, (pieceStarts offset pieces)[index]? =
      pieces[index]?.map fun _ => offset + (ahead sep pieces index).length := by
  induction pieces with
  | nil => exact fun _ _ => rfl
  | cons piece rest ih =>
      intro offset index
      cases index with
      | zero => rfl
      | succ index =>
          rw [pieceStarts, List.getElem?_cons_succ, List.getElem?_cons_succ, ih, ahead_cons,
            List.length_append, List.length_append, List.length_singleton]
          simp only [Nat.add_assoc]

theorem length_ahead_succ {pieces : List (List α)} {piece : List α} {index : Nat}
    (here : pieces[index]? = some piece) : (ahead sep pieces (index + 1)).length =
      (ahead sep pieces index).length + piece.length + 1 := by
  unfold ahead
  rw [List.take_add_one, here, List.flatMap_append, List.length_append, Nat.add_assoc]
  simp

/-- A piece stands behind what is ahead of it, and nothing follows the last one. -/
theorem intercalate_split (sep : α) (pieces : List (List α)) :
    ∀ {index : Nat} {piece : List α}, pieces[index]? = some piece →
      ∃ after, [sep].intercalate pieces = ahead sep pieces index ++ (piece ++ after) ∧
        (pieces[index + 1]? = none → after = []) := by
  induction pieces with
  | nil => exact fun here => nomatch here
  | cons first rest ih =>
      intro index piece here
      cases rest with
      | nil =>
          cases index with
          | zero =>
              cases here
              exact ⟨[], by simp [ahead], fun _ => rfl⟩
          | succ index => cases here
      | cons next rest =>
          rw [List.intercalate_cons_cons]
          cases index with
          | zero =>
              cases here
              exact ⟨[sep] ++ [sep].intercalate (next :: rest), List.append_assoc _ _ _, nofun⟩
          | succ index =>
              rcases ih here with ⟨after, split, last⟩
              refine ⟨after, ?_, last⟩
              rw [split, ahead_cons]
              simp only [List.append_assoc]

/-- The bounds of a piece: as much is ahead of it as its start says, and its end is its own length
further on. -/
theorem boundsAt?_piece (sep : α) {pieces : List (List α)} {piece : List α} {index : Nat}
    (here : pieces[index]? = some piece) :
    boundsAt? (pieceStarts 0 pieces) ([sep].intercalate pieces).length (index + 1) =
      some ((ahead sep pieces index).length,
        (ahead sep pieces index).length + piece.length) := by
  have start := pieceStarts_getElem? sep pieces 0 index
  have next := pieceStarts_getElem? sep pieces 0 (index + 1)
  rcases intercalate_split sep pieces here with ⟨after, split, last⟩
  rw [here, Option.map_some, Nat.zero_add] at start
  rw [length_ahead_succ here, Nat.zero_add] at next
  rw [boundsAt?, start]
  dsimp only
  rw [next]
  cases behind : pieces[index + 1]? with
  | none =>
      rw [split, last behind, List.append_nil, List.length_append]
      rfl
  | some other => rfl

theorem boundsAt?_none {pieces : List (List α)} {index : Nat} (beyond : pieces[index]? = none)
    (size : Nat) : boundsAt? (pieceStarts 0 pieces) size (index + 1) = none := by
  have short := List.getElem?_eq_none_iff.mp beyond
  rw [← length_pieceStarts pieces 0] at short
  rw [boundsAt?, List.getElem?_eq_none_iff.mpr short]

variable [BEq α] [LawfulBEq α]

theorem not_mem_of_mem_splitOn (list : List α) : ∀ piece ∈ list.splitOn sep, sep ∉ piece := by
  induction list with
  | nil =>
      intro piece member
      rw [List.splitOn_nil] at member
      exact List.mem_singleton.mp member ▸ List.not_mem_nil
  | cons item rest ih =>
      intro piece member
      rw [List.splitOn_cons_eq_if_modifyHead] at member
      by_cases here : item == sep
      · rw [if_pos here] at member
        rcases List.mem_cons.mp member with same | later
        · exact same ▸ List.not_mem_nil
        · exact ih piece later
      · rw [if_neg here] at member
        cases shape : rest.splitOn sep with
        | nil => exact absurd shape (List.splitOn_ne_nil sep rest)
        | cons first others =>
            rw [shape] at member ih
            rcases List.mem_cons.mp member with same | later
            · rw [same]
              intro inside
              rcases List.mem_cons.mp inside with front | behind
              · exact here (beq_iff_eq.mpr front.symm)
              · exact ih first List.mem_cons_self behind
            · exact ih piece (List.mem_cons_of_mem first later)

/-- The starts of pieces are the first offset and those just behind a separator. -/
theorem starts_eq_pieceStarts (pieces : List (List α)) :
    ∀ offset, pieces ≠ [] → (∀ piece ∈ pieces, sep ∉ piece) →
      offset :: (([sep].intercalate pieces).idxsOf sep offset).map (· + 1) =
        pieceStarts offset pieces := by
  have none' : ∀ (piece : List α) (offset : Nat), sep ∉ piece → piece.idxsOf sep offset = [] := by
    intro piece offset absent
    rw [List.idxsOf_eq_nil_iff]
    intro item member
    rw [beq_eq_false_iff_ne]
    exact fun same => absent (same ▸ member)
  induction pieces with
  | nil => exact fun _ inhabited => absurd rfl inhabited
  | cons piece rest ih =>
      intro offset _inhabited absent
      have here := none' piece offset (absent piece List.mem_cons_self)
      cases rest with
      | nil =>
          rw [List.intercalate_singleton, here]
          rfl
      | cons next rest =>
          have later := ih (offset + piece.length + 1) (List.cons_ne_nil next rest)
            fun other member => absent other (List.mem_cons_of_mem piece member)
          rw [pieceStarts, ← later, List.intercalate_cons_cons, List.append_assoc,
            List.idxsOf_append, here, List.nil_append, List.singleton_append, List.idxsOf_cons,
            if_pos (beq_self_eq_true sep), List.map_cons]

end Pieces

/-! ### Bytes of pieces -/

/-- The byte of a newline. -/
def newlineByte : UInt8 := 10

/-- A byte with its highest bit set is no newline. -/
theorem ne_newlineByte_of_or {high : UInt8} (large : 128 ≤ high.toNat) (low : UInt8) :
    low ||| high ≠ newlineByte := by
  intro same
  have size : high.toNat ≤ low.toNat ||| high.toNat := Nat.right_le_or
  rw [← UInt8.toNat_or, same] at size
  exact absurd (Nat.le_trans large size) (by decide)

/-- Only the newline has its byte: every byte of a longer character has its highest bit set. -/
theorem newlineByte_mem_iff (c : Char) : newlineByte ∈ String.utf8EncodeChar c ↔ c = '\n' := by
  constructor
  · intro member
    have positive := c.utf8Size_pos
    have small := c.utf8Size_le_four
    have sizes : c.utf8Size = 1 ∨ c.utf8Size = 2 ∨ c.utf8Size = 3 ∨ c.utf8Size = 4 := by omega
    rcases sizes with one | two | three | four
    · rw [String.utf8EncodeChar_eq_singleton one, List.mem_singleton] at member
      have ascii := UInt32.le_iff_toNat_le.mp (Char.utf8Size_eq_one_iff.mp one)
      have value := congrArg UInt8.toNat member
      rw [UInt32.toNat_toUInt8] at value
      apply Char.ext
      apply UInt32.toNat_inj.mp
      have byte : newlineByte.toNat = 10 := rfl
      have code : ('\n').val.toNat = 10 := rfl
      have top : (127 : UInt32).toNat = 127 := rfl
      omega
    · rw [String.utf8EncodeChar_eq_cons_cons two] at member
      simp [ne_newlineByte_of_or, eq_comm (a := newlineByte)] at member
    · rw [String.utf8EncodeChar_eq_cons_cons_cons three] at member
      simp [ne_newlineByte_of_or, eq_comm (a := newlineByte)] at member
    · rw [String.utf8EncodeChar_eq_cons_cons_cons_cons four] at member
      simp [ne_newlineByte_of_or, eq_comm (a := newlineByte)] at member
  · intro same
    subst same
    decide

theorem utf8Bytes_append (left right : List Char) :
    utf8Bytes (left ++ right) = utf8Bytes left ++ utf8Bytes right := List.flatMap_append

theorem newlineByte_not_mem {text : List Char} (line : '\n' ∉ text) :
    newlineByte ∉ utf8Bytes text := by
  intro member
  rcases List.mem_flatMap.mp member with ⟨c, inText, inChar⟩
  exact line ((newlineByte_mem_iff c).mp inChar ▸ inText)

theorem utf8Bytes_intercalate (pieces : List (List Char)) :
    utf8Bytes (['\n'].intercalate pieces) = [newlineByte].intercalate (pieces.map utf8Bytes) := by
  induction pieces with
  | nil => rfl
  | cons piece rest ih =>
      cases rest with
      | nil => rw [List.map_singleton, List.intercalate_singleton, List.intercalate_singleton]
      | cons next rest =>
          rw [List.intercalate_cons_cons, utf8Bytes_append, utf8Bytes_append, ih, List.map_cons,
            List.map_cons, List.map_cons, List.intercalate_cons_cons]
          rfl

theorem utf8Bytes_ahead (pieces : List (List Char)) (index : Nat) :
    utf8Bytes (ahead '\n' pieces index) = ahead newlineByte (pieces.map utf8Bytes) index := by
  induction pieces generalizing index with
  | nil => simp [ahead, utf8Bytes]
  | cons piece rest ih =>
      cases index with
      | zero => rfl
      | succ index =>
          rw [List.map_cons, ahead_cons, ahead_cons, utf8Bytes_append, utf8Bytes_append, ih]
          rfl

/-- The bytes from `start` up to `stop` are those of a piece of the text, and both offsets stand
between characters. -/
structure CutsOut (text : List Char) (start stop : Nat) (piece : List Char) : Prop where
  ordered : start ≤ stop
  within : stop ≤ (String.ofList text).utf8ByteSize
  startBoundary : String.Pos.Raw.IsValid (String.ofList text) ⟨start⟩
  stopBoundary : String.Pos.Raw.IsValid (String.ofList text) ⟨stop⟩
  bytes : ((utf8Bytes text).drop start).take (stop - start) = utf8Bytes piece

theorem utf8ByteSize_ofList (text : List Char) :
    (String.ofList text).utf8ByteSize = (utf8Bytes text).length := by
  induction text with
  | nil => rfl
  | cons c rest ih =>
      rw [String.ofList_cons, String.utf8ByteSize_append, String.utf8ByteSize_singleton, ih,
        length_utf8Bytes, length_utf8Bytes, byteCount]

/-- The bytes in front of any characters end between two characters. -/
theorem isValid_front (front behind : List Char) :
    String.Pos.Raw.IsValid (String.ofList (front ++ behind)) ⟨(utf8Bytes front).length⟩ := by
  rw [String.Pos.Raw.isValid_ofList]
  refine ⟨front.length, ?_⟩
  rw [List.take_left, utf8ByteSize_ofList]

theorem cutsOut_middle (before piece after : List Char) :
    CutsOut (before ++ (piece ++ after)) (utf8Bytes before).length
      ((utf8Bytes before).length + (utf8Bytes piece).length) piece where
  ordered := Nat.le_add_right _ _
  within := by
    rw [utf8ByteSize_ofList, utf8Bytes_append, utf8Bytes_append, List.length_append,
      List.length_append]
    omega
  startBoundary := isValid_front before (piece ++ after)
  stopBoundary := by
    have valid := isValid_front (before ++ piece) after
    rwa [List.append_assoc, utf8Bytes_append, List.length_append] at valid
  bytes := by
    rw [utf8Bytes_append, utf8Bytes_append, List.drop_left, Nat.add_sub_cancel_left, List.take_left]

/-! ### Lines -/

namespace SourceText

/-- The text between newlines that line `number`, counted from one, is made from. -/
def piece? (source : SourceText) : Nat → Option (List Char)
  | 0 => none
  | index + 1 => (source.chars.splitOn '\n')[index]?

/-- The offsets of bytes between which line `number` stands, found by its newline bytes. -/
def byteBounds? (source : SourceText) (number : Nat) : Option (Nat × Nat) :=
  let bytes := utf8Bytes source.chars
  boundsAt? (0 :: (bytes.idxsOf newlineByte).map (· + 1)) bytes.length number

variable (source : SourceText)

theorem startsAfter_eq (text : List Char) :
    ∀ offset, startsAfter offset text = (text.idxsOf '\n' offset).map (· + 1) := by
  induction text with
  | nil => exact fun _ => rfl
  | cons c rest ih =>
      intro offset
      rw [startsAfter, List.idxsOf_cons, ih]
      by_cases newline : c = '\n'
      · rw [if_pos newline, if_pos (beq_iff_eq.mpr newline), List.map_cons]
      · rw [if_neg newline, if_neg fun same => newline (beq_iff_eq.mp same)]

theorem lineStarts_eq : source.lineStarts = pieceStarts 0 (source.chars.splitOn '\n') := by
  have starts := starts_eq_pieceStarts (source.chars.splitOn '\n') 0
    (List.splitOn_ne_nil _ _) (not_mem_of_mem_splitOn source.chars)
  rw [List.intercalate_splitOn] at starts
  rw [lineStarts, startsAfter_eq, starts]

theorem byteStarts_eq : 0 :: ((utf8Bytes source.chars).idxsOf newlineByte).map (· + 1) =
    pieceStarts 0 ((source.chars.splitOn '\n').map utf8Bytes) := by
  have inhabited : (source.chars.splitOn '\n').map utf8Bytes ≠ [] := by
    rw [ne_eq, List.map_eq_nil_iff]
    exact List.splitOn_ne_nil _ _
  have lines : ∀ piece ∈ (source.chars.splitOn '\n').map utf8Bytes, newlineByte ∉ piece := by
    intro bytes member
    rcases List.mem_map.mp member with ⟨piece, listed, same⟩
    exact same ▸ newlineByte_not_mem (not_mem_of_mem_splitOn source.chars piece listed)
  have starts := starts_eq_pieceStarts _ 0 inhabited lines
  rw [← utf8Bytes_intercalate, List.intercalate_splitOn] at starts
  exact starts

theorem lineCount_eq : source.lineCount = (source.chars.splitOn '\n').length := by
  rw [lineCount, lineStarts_eq, length_pieceStarts]

theorem lineCount_eq_count :
    source.lineCount = (utf8Bytes source.chars).count newlineByte + 1 := by
  have size := congrArg List.length source.byteStarts_eq
  rw [length_pieceStarts, List.length_map, List.length_cons, List.length_map,
    List.length_idxsOf] at size
  rw [lineCount_eq, size]

theorem lineBounds?_eq (number : Nat) : source.lineBounds? number =
    boundsAt? (pieceStarts 0 (source.chars.splitOn '\n')) source.chars.length number := by
  rw [← lineStarts_eq]
  cases number with
  | zero => rfl
  | succ index => rfl

theorem piece?_eq_none (number : Nat) :
    source.piece? number = none ↔ number = 0 ∨ source.lineCount < number := by
  rw [lineCount_eq]
  cases number with
  | zero => simp [piece?]
  | succ index =>
      rw [piece?, List.getElem?_eq_none_iff]
      omega

/-- A text is what is ahead of a piece, the piece, and the rest. -/
theorem split_piece {index : Nat} {piece : List Char}
    (here : (source.chars.splitOn '\n')[index]? = some piece) :
    ∃ after, source.chars =
      ahead '\n' (source.chars.splitOn '\n') index ++ (piece ++ after) := by
  rcases intercalate_split '\n' _ here with ⟨after, split, _last⟩
  rw [List.intercalate_splitOn] at split
  exact ⟨after, split⟩

/-- A line is its piece without the carriage returns at its end. -/
theorem line?_eq (number : Nat) : source.line? number =
    (source.piece? number).map fun piece => String.ofList (piece.rdropWhile (· = '\r')) := by
  rw [line?, lineBounds?_eq]
  cases number with
  | zero => rfl
  | succ index =>
      rw [piece?]
      cases here : (source.chars.splitOn '\n')[index]? with
      | none => rw [boundsAt?_none here]; rfl
      | some piece =>
          have bounds := boundsAt?_piece '\n' here
          rcases source.split_piece here with ⟨after, split⟩
          rw [List.intercalate_splitOn] at bounds
          rw [bounds, Option.map_some, Option.map_some]
          generalize ahead '\n' (source.chars.splitOn '\n') index = before at split
          dsimp only
          rw [Nat.add_sub_cancel_left, split, List.drop_left, List.take_left]
          rfl

/-- The bytes of a piece are cut out of the text. -/
theorem byteBounds?_eq (number : Nat) : (source.piece? number = none →
      source.byteBounds? number = none) ∧
    ∀ piece, source.piece? number = some piece → ∃ start stop,
      source.byteBounds? number = some (start, stop) ∧ CutsOut source.chars start stop piece := by
  rw [byteBounds?, byteStarts_eq]
  cases number with
  | zero => exact ⟨fun _ => rfl, fun _ impossible => nomatch impossible⟩
  | succ index =>
      rw [piece?]
      constructor
      · intro beyond
        apply boundsAt?_none
        rw [List.getElem?_map, beyond, Option.map_none]
      · intro piece here
        have there : ((source.chars.splitOn '\n').map utf8Bytes)[index]? = some (utf8Bytes piece) := by
          rw [List.getElem?_map, here, Option.map_some]
        have bounds := boundsAt?_piece newlineByte there
        rcases source.split_piece here with ⟨after, split⟩
        rw [← utf8Bytes_intercalate, List.intercalate_splitOn, ← utf8Bytes_ahead] at bounds
        refine ⟨_, _, bounds, ?_⟩
        have cuts := cutsOut_middle (ahead '\n' (source.chars.splitOn '\n') index) piece after
        rwa [← split] at cuts

/-- A text has one line more than newline bytes. Line `number` is the piece of that number between
newlines, without the carriage returns at its end, and where there is one its bounds in bytes cut
that piece out of the text. -/
theorem line?_eq_piece (number : Nat) :
    source.lineCount = (utf8Bytes source.chars).count newlineByte + 1 ∧
    (source.line? number = none ↔ number = 0 ∨ source.lineCount < number) ∧
    source.line? number =
      (source.piece? number).map (fun piece => String.ofList (piece.rdropWhile (· = '\r'))) ∧
    (source.piece? number = none → source.byteBounds? number = none) ∧
    ∀ piece, source.piece? number = some piece → ∃ start stop,
      source.byteBounds? number = some (start, stop) ∧ CutsOut source.chars start stop piece := by
  have line := source.line?_eq number
  have bounds := source.byteBounds?_eq number
  refine ⟨source.lineCount_eq_count, ?_, line, bounds.1, bounds.2⟩
  rw [line, Option.map_eq_none_iff]
  exact source.piece?_eq_none number

/-- Carriage returns inside a line stay, an empty line has bounds of its own, and a newline at the
end opens a last, empty line. -/
example : let source := SourceText.ofString "lines" "λ\r\r\n\nb\rc\n"
    (List.range 6).map source.line? = [none, some "λ", some "", some "b\rc", some "", none] ∧
      (List.range 6).map source.byteBounds? =
        [none, some (0, 4), some (5, 5), some (6, 9), some (10, 10), none] := by
  decide +kernel

end SourceText

end JumpIR
