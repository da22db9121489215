import JumpIR.Json.Decode
import JumpIR.Proofs.Json.Reading

/-!
# Encoded values are decoded again

`Encodes` says that a value is exact and that a decoder reads a certain thing from it, if there is
room for its nesting. It is shown once for every way to put encodings together: numbers, lists,
absent values, records and choices.
-/

set_option autoImplicit false

namespace JumpIR.Json

/-! ### Nesting -/

mutual

/-- How many arrays and objects enclose the innermost part of a value. -/
def depth : Json → Nat
  | .null | .bool _ | .int _ | .real | .text _ | .defect => 0
  | .array items => itemsDepth items + 1
  | .object members => membersDepth members + 1

def itemsDepth : List Json → Nat
  | [] => 0
  | item :: rest => max (depth item) (itemsDepth rest)

def membersDepth : List (String × Json) → Nat
  | [] => 0
  | (_, value) :: rest => max (depth value) (membersDepth rest)

end

mutual

/-- An exact value can be read where there is room for its depth. -/
theorem isReadable_of_depth : ∀ (json : Json) (room : Nat), json.IsExact → json.depth ≤ room →
    json.isReadable room = true
  | .null, _, _, _ => rfl
  | .bool _, _, _, _ => rfl
  | .int _, _, _, _ => rfl
  | .text _, _, _, _ => rfl
  | .array items, room, exactly, deep => by
      rw [depth] at deep
      rw [isReadable, decide_eq_true (by omega), Bool.true_and]
      exact areReadable_of_depth items (room - 1) exactly (by omega)
  | .object members, room, exactly, deep => by
      rw [depth] at deep
      rw [isReadable, decide_eq_true (by omega), Bool.true_and]
      exact membersReadable_of_depth members (room - 1) exactly (by omega)

theorem areReadable_of_depth : ∀ (items : List Json) (room : Nat), AreExact items →
    itemsDepth items ≤ room → areReadable room items = true
  | [], _, _, _ => rfl
  | item :: rest, room, exactly, deep => by
      rw [itemsDepth] at deep
      rw [areReadable, isReadable_of_depth item room exactly.1 (by omega),
        areReadable_of_depth rest room exactly.2 (by omega)]
      rfl

theorem membersReadable_of_depth : ∀ (members : List (String × Json)) (room : Nat),
    MembersExact members → membersDepth members ≤ room → membersReadable room members = true
  | [], _, _, _ => rfl
  | (_, value) :: rest, room, exactly, deep => by
      rw [membersDepth] at deep
      rw [membersReadable, isReadable_of_depth value room exactly.1 (by omega),
        membersReadable_of_depth rest room exactly.2 (by omega)]
      rfl

end

theorem itemsDepth_le {bound : Nat} : ∀ {items : List Json},
    (∀ item ∈ items, item.depth ≤ bound) → itemsDepth items ≤ bound
  | [], _ => Nat.zero_le bound
  | item :: rest, shallow => by
      have first := shallow item List.mem_cons_self
      have later := itemsDepth_le fun item member => shallow item (List.mem_cons_of_mem _ member)
      rw [itemsDepth]
      omega

theorem membersDepth_le {bound : Nat} : ∀ {members : List (String × Json)},
    (∀ entry ∈ members, entry.2.depth ≤ bound) → membersDepth members ≤ bound
  | [], _ => Nat.zero_le bound
  | (_, value) :: rest, shallow => by
      have first : value.depth ≤ bound := shallow _ List.mem_cons_self
      have later := membersDepth_le fun entry member => shallow entry (List.mem_cons_of_mem _ member)
      rw [membersDepth]
      omega

theorem depth_encodeList {α : Type} {encode : α → Json} {list : List α} {bound : Nat}
    (shallow : ∀ a ∈ list, (encode a).depth ≤ bound) :
    (encodeList encode list).depth ≤ bound + 1 := by
  rw [encodeList, depth]
  refine Nat.succ_le_succ (itemsDepth_le fun item member => ?_)
  rcases List.mem_map.mp member with ⟨a, inside, same⟩
  exact same ▸ shallow a inside

theorem depth_texts (list : List String) : (encodeList text list).depth ≤ 1 :=
  depth_encodeList fun _ _ => Nat.le_refl 0

theorem depth_optionalText (o : Option String) : (encodeOption text o).depth = 0 := by
  cases o <;> rfl

theorem membersExact_iff {members : List (String × Json)} :
    MembersExact members ↔ ∀ entry ∈ members, entry.2.IsExact := by
  induction members with
  | nil => exact ⟨fun _ => List.forall_mem_nil _, fun _ => trivial⟩
  | cons entry members ih =>
      rw [List.forall_mem_cons, ← ih]
      exact Iff.rfl

theorem membersReadable_iff {room : Nat} {members : List (String × Json)} :
    membersReadable room members = true ↔ ∀ entry ∈ members, entry.2.isReadable room = true := by
  induction members with
  | nil => exact ⟨fun _ => List.forall_mem_nil _, fun _ => rfl⟩
  | cons entry members ih =>
      rw [List.forall_mem_cons, ← ih, membersReadable, Bool.and_eq_true]

/-! ### Plain values -/

/-- The value is exact, and `a` is read from it where there is room for it, below `limit`. -/
structure Encodes {α : Type} (limit : Nat) (decoder : Decoder α) (json : Json) (a : α) : Prop where
  exactly : json.IsExact
  reads : ∀ room < limit, json.isReadable room = true → decoder room json = some a

variable {α β γ : Type} {limit : Nat} {decoder : Decoder α} {json : Json} {a : α}

theorem Encodes.weaken (encodes : Encodes (limit + 1) decoder json a) :
    Encodes limit decoder json a :=
  ⟨encodes.exactly, fun room below => encodes.reads room (Nat.lt_succ_of_lt below)⟩

theorem Encodes.map (encodes : Encodes limit decoder json a) (f : α → β) :
    Encodes limit (fun room json => (decoder room json).map f) json (f a) :=
  ⟨encodes.exactly, fun room below readable =>
    congrArg (Option.map f) (encodes.reads room below readable)⟩

theorem encodes_text (s : String) : Encodes limit decodeText (.text s) s :=
  ⟨trivial, fun _ _ _ => rfl⟩

theorem encodes_bool (b : Bool) : Encodes limit decodeBool (.bool b) b :=
  ⟨trivial, fun _ _ _ => rfl⟩

theorem encodes_below {bound n : Nat} (small : n < bound) (word : bound ≤ UInt64.size) :
    Encodes limit (decodeNatBelow bound) (.int n) n := by
  have least : Int64.minValue.toInt = -9223372036854775808 := rfl
  constructor
  · have fits : Int64.minValue.toInt ≤ (n : Int) ∧ (n : Int) < UInt64.size := by omega
    exact Bool.and_eq_true_iff.mpr ⟨decide_eq_true fits.1, decide_eq_true fits.2⟩
  · intro room _ _
    have inside : (0 : Int) ≤ n ∧ (n : Int) < bound := by omega
    rw [decodeNatBelow, if_pos inside, Int.toNat_natCast]

theorem encodes_u8 (byte : UInt8) : Encodes limit decodeU8 (.int byte.toNat) byte := by
  have encodes : Encodes limit (decodeNatBelow UInt8.size) (.int byte.toNat) byte.toNat :=
    encodes_below byte.toNat_lt (by decide)
  have small := encodes.map UInt8.ofNat
  rwa [UInt8.ofNat_toNat] at small

theorem encodes_u16 {n : Nat} (small : n < UInt16.size) : Encodes limit decodeU16 (.int n) n :=
  encodes_below small (by decide)

theorem encodes_u32 {n : Nat} (small : n < UInt32.size) : Encodes limit decodeU32 (.int n) n :=
  encodes_below small (by decide)

theorem encodes_u64 {n : Nat} (small : n < UInt64.size) : Encodes limit decodeU64 (.int n) n :=
  encodes_below small (Nat.le_refl _)

theorem encodes_word (value : UInt64) : Encodes limit decodeWord (.int value.toNat) value := by
  have encodes : Encodes limit decodeU64 (.int value.toNat) value.toNat :=
    encodes_u64 value.toNat_lt_size
  have word := encodes.map UInt64.ofNat
  rwa [UInt64.ofNat_toNat] at word

theorem encodes_int64 (n : Int64) : Encodes limit decodeInt64 (.int n.toInt) n := by
  constructor
  · have low := Int64.le_toInt n
    have high := Int64.toInt_lt n
    have least : Int64.minValue.toInt = -9223372036854775808 := rfl
    have size : (UInt64.size : Int) = 18446744073709551616 := rfl
    have fits : Int64.minValue.toInt ≤ n.toInt ∧ n.toInt < UInt64.size := by omega
    exact Bool.and_eq_true_iff.mpr ⟨decide_eq_true fits.1, decide_eq_true fits.2⟩
  · exact fun _ _ _ => (int64?_eq_some_iff _ _).mpr rfl

/-! ### Absence and repetition -/

theorem encodes_option {encode : α → Json} {o : Option α}
    (encodes : ∀ a, o = some a → Encodes limit decoder (encode a) a ∧ encode a ≠ .null) :
    Encodes limit (decodeOption decoder) (encodeOption encode o) o := by
  cases o with
  | none => exact ⟨trivial, fun _ _ _ => rfl⟩
  | some a =>
      rcases encodes a rfl with ⟨item, present⟩
      refine ⟨item.exactly, fun room below readable => ?_⟩
      have read := item.reads room below readable
      rw [encodeOption]
      cases shape : encode a with
      | null => exact absurd shape present
      | _ =>
          rw [shape] at read
          rw [decodeOption, read]
          · rfl
          · nofun

/-- The items of an array encode those of a list, one by one. -/
structure EncodesItems (limit : Nat) (decoder : Decoder α) (items : List Json) (list : List α) :
    Prop where
  exactly : AreExact items
  reads : ∀ room < limit, areReadable room items = true →
    decodeItems (decoder room) items = some list

theorem EncodesItems.nil : EncodesItems limit decoder [] [] := ⟨trivial, fun _ _ _ => rfl⟩

theorem EncodesItems.cons {items : List Json} {list : List α}
    (head : Encodes limit decoder json a) (tail : EncodesItems limit decoder items list) :
    EncodesItems limit decoder (json :: items) (a :: list) := by
  refine ⟨⟨head.exactly, tail.exactly⟩, fun room below readable => ?_⟩
  rw [areReadable, Bool.and_eq_true] at readable
  rw [decodeItems, head.reads room below readable.1, tail.reads room below readable.2]
  rfl

theorem encodes_array {items : List Json} {list : List α}
    (encodes : EncodesItems limit decoder items list) :
    Encodes limit (decodeList decoder) (.array items) list := by
  refine ⟨encodes.exactly, fun room below readable => ?_⟩
  rw [isReadable, Bool.and_eq_true, decide_eq_true_eq] at readable
  cases room with
  | zero => exact absurd readable.1 (Nat.lt_irrefl 0)
  | succ room => exact encodes.reads room (Nat.lt_of_succ_lt below) readable.2

theorem encodes_list {encode : α → Json} {list : List α}
    (encodes : ∀ a ∈ list, Encodes limit decoder (encode a) a) :
    Encodes limit (decodeList decoder) (encodeList encode list) list := by
  apply encodes_array
  induction list with
  | nil => exact .nil
  | cons a list ih =>
      exact .cons (encodes a List.mem_cons_self)
        (ih fun b member => encodes b (List.mem_cons_of_mem a member))

theorem encodes_texts (list : List String) :
    Encodes limit (decodeList decodeText) (encodeList .text list) list :=
  encodes_list fun s _ => encodes_text s

theorem encodes_optionalText (o : Option String) :
    Encodes limit (decodeOption decodeText) (encodeOption .text o) o :=
  encodes_option fun s _ => ⟨encodes_text s, fun null => nomatch null⟩

/-! ### Records -/

/-- The fields of a record are exact, and `c` is read from them where there is room for them, below
`limit`. -/
structure EncodesFields (limit : Nat) (members : List (String × Json)) (read : Nat → Option γ)
    (c : γ) : Prop where
  exactly : MembersExact members
  reads : ∀ room < limit, membersReadable room members = true → read room = some c

namespace EncodesFields

variable {name : String} {members : List (String × Json)} {c : γ}

theorem done : EncodesFields limit [] (fun _ => some c) c := ⟨trivial, fun _ _ _ => rfl⟩

theorem field {next : Nat → α → Option γ} (first : Encodes limit decoder json a)
    (later : EncodesFields limit members (fun room => next room a) c) :
    EncodesFields limit ((name, json) :: members)
      (fun room => (required decoder room (.given json)).bind (next room)) c := by
  refine ⟨⟨first.exactly, later.exactly⟩, fun room below readable => ?_⟩
  rw [membersReadable, Bool.and_eq_true] at readable
  rw [required, first.reads room below readable.1]
  exact later.reads room below readable.2

theorem optionalField {o : Option α} {next : Nat → Option α → Option γ}
    (first : Encodes limit (decodeOption decoder) json o)
    (later : EncodesFields limit members (fun room => next room o) c) :
    EncodesFields limit ((name, json) :: members)
      (fun room => (optional decoder room (.given json)).bind (next room)) c := by
  refine ⟨⟨first.exactly, later.exactly⟩, fun room below readable => ?_⟩
  rw [membersReadable, Bool.and_eq_true] at readable
  rw [optional, first.reads room below readable.1]
  exact later.reads room below readable.2

theorem defaultField {default : α} {next : Nat → α → Option γ}
    (first : Encodes limit decoder json a)
    (later : EncodesFields limit members (fun room => next room a) c) :
    EncodesFields limit ((name, json) :: members)
      (fun room => (withDefault default decoder room (.given json)).bind (next room)) c :=
  field first later

/-- A record that is a part of another one. -/
theorem part {read : Nat → Option β} {f : β → γ} {b : β}
    (fields : EncodesFields limit members read b) :
    EncodesFields limit members (fun room => (read room).bind fun b => some (f b)) (f b) := by
  refine ⟨fields.exactly, fun room below readable => ?_⟩
  rw [fields.reads room below readable]
  rfl

/-- A member that is not decoded must be exact all the same. -/
theorem skip {read : Nat → Option γ} (exactly : json.IsExact)
    (later : EncodesFields limit members read c) :
    EncodesFields limit ((name, json) :: members) read c := by
  refine ⟨⟨exactly, later.exactly⟩, fun room below readable => later.reads room below ?_⟩
  rw [membersReadable, Bool.and_eq_true] at readable
  exact readable.2

/-- The order of the members does not matter to what they encode. -/
theorem of_perm {others : List (String × Json)} {read : Nat → Option γ}
    (perm : members.Perm others) (fields : EncodesFields limit others read c) :
    EncodesFields limit members read c := by
  refine ⟨?_, fun room below readable => fields.reads room below ?_⟩
  · exact membersExact_iff.mpr fun entry member =>
      membersExact_iff.mp fields.exactly entry (perm.mem_iff.mp member)
  · exact membersReadable_iff.mpr fun entry member =>
      membersReadable_iff.mp readable entry (perm.mem_iff.mpr member)

theorem only {f : α → γ} (first : Encodes limit decoder json a) :
    EncodesFields limit [(name, json)]
      (fun room => (required decoder room (.given json)).map f) (f a) := by
  refine ⟨⟨first.exactly, trivial⟩, fun room below readable => ?_⟩
  rw [membersReadable, Bool.and_eq_true] at readable
  rw [required, first.reads room below readable.1]
  rfl

end EncodesFields

/-- A decoder of objects reads their members, once all of them can be read. -/
theorem encodes_object {members : List (String × Json)} {read : Nat → Option α}
    (opens : ∀ room, membersReadable room members = true →
      decoder (room + 1) (.object members) = read room)
    (fields : EncodesFields limit members read a) : Encodes limit decoder (.object members) a := by
  refine ⟨fields.exactly, fun room below readable => ?_⟩
  rw [isReadable, Bool.and_eq_true, decide_eq_true_eq] at readable
  cases room with
  | zero => exact absurd readable.1 (Nat.lt_irrefl 0)
  | succ room =>
      rw [opens room readable.2]
      exact fields.reads room (Nat.lt_of_succ_lt below) readable.2

/-- A record decoder opens the record and reads its slots. -/
theorem encodes_record {names : List String} {members : List (String × Json)}
    {slots : Nat × List Slot → Option α}
    (decodes : ∀ room json, decoder room json = (openRecord? names room json).bind slots)
    (opens : ∀ room, openRecord? names (room + 1) (.object members) =
      some (room, members.map fun entry => .given entry.2))
    (fields : EncodesFields limit members
      (fun room => slots (room, members.map fun entry => .given entry.2)) a) :
    Encodes limit decoder (.object members) a := by
  refine encodes_object (fun room _ => ?_) fields
  rw [decodes, opens]
  rfl

/-! ### Choices -/

theorem encodes_name {name : String} (named : ∀ room, decoder room (.text name) = some a) :
    Encodes limit decoder (.text name) a :=
  ⟨trivial, fun room _ _ => named room⟩

/-- An alternative takes room for one object in addition to that of its content. -/
theorem encodes_tagged {inner : Decoder α} {name : String}
    (content : Encodes limit inner json a)
    (opens : ∀ room json, decoder (room + 1) (tagged name json) = inner room json) :
    Encodes (limit + 1) decoder (tagged name json) a := by
  refine ⟨⟨content.exactly, trivial⟩, fun room below readable => ?_⟩
  rw [tagged, isReadable, membersReadable, membersReadable, Bool.and_true, Bool.and_eq_true,
    decide_eq_true_eq] at readable
  cases room with
  | zero => exact absurd readable.1 (Nat.lt_irrefl 0)
  | succ room =>
      rw [opens]
      exact content.reads room (Nat.lt_of_succ_lt_succ below) readable.2

/-! ### Levels -/

/-- Decoders of a nested type are numbered by the levels that they may go down. -/
theorem encodes_levels {within : Nat → Decoder α}
    (next : ∀ levels, Encodes (levels + 1) (within (levels + 1)) json a) (levels : Nat) :
    Encodes levels (within levels) json a := by
  cases levels with
  | zero => exact ⟨(next 0).exactly, fun room below => absurd below (Nat.not_lt_zero room)⟩
  | succ levels => exact next levels

theorem encodes_everywhere {within : Nat → Decoder α}
    (encodes : ∀ levels, Encodes levels (within levels) json a) :
    Encodes limit (fun room json => within (room + 1) room json) json a :=
  ⟨(encodes 0).exactly, fun room _ readable =>
    (encodes (room + 1)).reads room (Nat.lt_succ_self room) readable⟩

/-! ### Texts -/

/-- What a decoder reads from a text. -/
def ofText? (decoder : Decoder α) (text : String) : Option α :=
  (parse? text).bind (decoder nestingLimit)

/-- Both texts of what encodes `a` are read as `a`. -/
def ReadsBack (decoder : Decoder α) (encode : α → Json) (a : α) : Prop :=
  ofText? decoder (encode a).compact = some a ∧ ofText? decoder (encode a).indented = some a

/-- An encoding that is not nested too deeply is read back. -/
theorem readsBack_of_encodes {encode : α → Json}
    (encodes : Encodes (nestingLimit + 1) decoder (encode a) a)
    (shallow : (encode a).depth ≤ nestingLimit) : ReadsBack decoder encode a := by
  have read : decoder nestingLimit (encode a) = some a :=
    encodes.reads nestingLimit (Nat.lt_succ_self _)
      (isReadable_of_depth (encode a) nestingLimit encodes.exactly shallow)
  unfold ReadsBack ofText?
  rw [parse?_compact encodes.exactly, parse?_indented encodes.exactly]
  exact ⟨read, read⟩

end JumpIR.Json
