import JumpIR.Diagnostic.Codec
import JumpIR.Proofs.Json.Decoding

/-!
# Diagnostics are read back

The numbers of a region stand between the other members of a diagnostic, and are read after them.
-/

set_option autoImplicit false

namespace JumpIR

open Json

variable {limit : Nat}

/-- Lines and columns are written with 32 bits. -/
structure Span.Fits (s : Span) : Prop where
  line : s.start.line < UInt32.size
  column : s.start.column < UInt32.size
  endLine : s.stop.line < UInt32.size
  endColumn : s.stop.column < UInt32.size

theorem Span.ofSlots?_eq (room : Nat) (line column endLine endColumn : Slot) :
    Span.ofSlots? room [line, column, endLine, endColumn] =
      (required decodeU32 room line).bind fun line =>
      (required decodeU32 room column).bind fun column =>
      (required decodeU32 room endLine).bind fun endLine =>
      (required decodeU32 room endColumn).bind fun endColumn =>
        some ⟨⟨line, column⟩, ⟨endLine, endColumn⟩⟩ := rfl

/-- The slots of a region's members. -/
def Span.slots (s : Span) : List Slot :=
  [.given (.int s.start.line), .given (.int s.start.column), .given (.int s.stop.line),
    .given (.int s.stop.column)]

theorem Span.encodesMembers {s : Span} (fits : s.Fits) :
    EncodesFields limit s.members (fun room => Span.ofSlots? room s.slots) s := by
  unfold Span.slots
  simp only [Span.ofSlots?_eq]
  exact .field (encodes_u32 fits.line) (.field (encodes_u32 fits.column)
    (.field (encodes_u32 fits.endLine) (.field (encodes_u32 fits.endColumn) .done)))

theorem Category.encodes (c : Category) : Encodes limit Category.decode c.encode c := by
  cases c <;> exact encodes_name fun _ => rfl

namespace Diagnostic

structure Fits (d : Diagnostic) : Prop where
  code : d.code.number < UInt16.size
  span : d.span.Fits

/-- The members of a diagnostic, with those of its region where they are written. -/
def members (d : Diagnostic) : List (String × Json) :=
  [("file", .text d.file), ("code", d.code.encode), ("category", d.category.encode),
    ("message", .text d.message)] ++ d.span.members ++ [("source_line", .text d.sourceLine)]

/-- The members of a diagnostic in the order in which they are read. -/
def membersAsRead (d : Diagnostic) : List (String × Json) :=
  [("file", .text d.file), ("code", d.code.encode), ("category", d.category.encode),
    ("message", .text d.message), ("source_line", .text d.sourceLine)] ++ d.span.members

theorem members_perm (d : Diagnostic) : d.members.Perm d.membersAsRead := by
  unfold members
  rw [List.append_assoc]
  exact List.Perm.append_left _ List.perm_append_comm

/-- What is read from the slots of a diagnostic and from those of its region. -/
def readSlots (file code category message sourceLine : Slot) (region : List Slot) (room : Nat) :
    Option Diagnostic :=
  (required decodeText room file).bind fun file =>
  (required Code.decode room code).bind fun code =>
  (required Category.decode room category).bind fun category =>
  (required decodeText room message).bind fun message =>
  (required decodeText room sourceLine).bind fun sourceLine =>
  (Span.ofSlots? room region).bind fun span =>
    some ⟨file, code, category, message, span, sourceLine⟩

theorem decode_object {room : Nat} {members : List (String × Json)}
    {file code category message sourceLine : Slot} {region : List Slot}
    (readable :
      membersReadable room (members.filter fun (name, _) => !fieldNames.contains name) = true)
    (own : fieldNames.mapM (memberSlot? members) =
      some [file, code, category, message, sourceLine])
    (flat : Span.fieldNames.mapM (memberSlot? members) = some region) :
    decode (room + 1) (.object members) =
      readSlots file code category message sourceLine region room := by
  rw [decode, readable, own]
  dsimp only [Option.bind_eq_bind, Option.bind_some]
  rw [flat]
  rfl

theorem encodes {d : Diagnostic} (fits : d.Fits) : Encodes limit decode d.encode d := by
  have code : Encodes limit Code.decode d.code.encode d.code := (encodes_u16 fits.code).map Code.mk
  have fields : EncodesFields limit d.membersAsRead
      (readSlots (.given (.text d.file)) (.given d.code.encode) (.given d.category.encode)
        (.given (.text d.message)) (.given (.text d.sourceLine)) d.span.slots) d :=
    .field (encodes_text _) (.field code (.field (Category.encodes _)
      (.field (encodes_text _) (.field (encodes_text _) (.part (Span.encodesMembers fits.span))))))
  exact encodes_object (fun _ _ => decode_object rfl rfl rfl) (fields.of_perm d.members_perm)

theorem depth_encode (d : Diagnostic) : d.encode.depth = 1 := by
  rcases d with ⟨_, _, category, _, _, _⟩
  cases category <;> rfl

theorem readsBack {d : Diagnostic} (fits : d.Fits) : ReadsBack decode encode d := by
  refine readsBack_of_encodes (encodes fits) ?_
  rw [depth_encode]
  decide

end Diagnostic

namespace Diagnostics

structure Fits (ds : Diagnostics) : Prop where
  kept : ∀ d ∈ ds.kept, d.Fits
  total : ds.total < UInt64.size

theorem encodes {ds : Diagnostics} (fits : ds.Fits) : Encodes limit decode ds.encode ds :=
  encodes_record (fun _ _ => rfl) (fun _ => rfl)
    (.field (encodes_list fun d member => Diagnostic.encodes (fits.kept d member))
      (.field (encodes_u64 fits.total) .done))

theorem depth_encode (ds : Diagnostics) : ds.encode.depth ≤ 3 := by
  have kept : (encodeList Diagnostic.encode ds.kept).depth ≤ 1 + 1 :=
    depth_encodeList fun d _ => Nat.le_of_eq d.depth_encode
  simp only [encode, depth, membersDepth]
  omega

theorem readsBack {ds : Diagnostics} (fits : ds.Fits) : ReadsBack decode encode ds :=
  readsBack_of_encodes (encodes fits) (Nat.le_trans ds.depth_encode (by decide))

end Diagnostics

end JumpIR
