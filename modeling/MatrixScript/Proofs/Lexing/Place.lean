import MatrixScript.Script.Lexer

/-!
# Places in a source text

A cursor stores a byte offset and a line number side by side.  This module says
which cursors are *places* of a text: those that stand right after one of its
prefixes, with the bytes and the line feeds of that prefix counted.  All later
reasoning about reading works with the two parts of the text and never with
offsets.
-/

namespace MatrixScript

namespace Lexer

@[simp] theorem byteLength_nil : byteLength [] = 0 := rfl

private theorem foldl_utf8Size (text : List Char) (total : Nat) :
    text.foldl (fun total c => total + c.utf8Size) total =
      total + byteLength text := by
  induction text generalizing total with
  | nil => rfl
  | cons c rest ih =>
      rw [byteLength, List.foldl_cons, List.foldl_cons, ih, ih (0 + c.utf8Size)]
      omega

@[simp] theorem byteLength_cons (c : Char) (rest : List Char) :
    byteLength (c :: rest) = c.utf8Size + byteLength rest := by
  rw [byteLength, List.foldl_cons, foldl_utf8Size, Nat.zero_add]

@[simp] theorem byteLength_append (left right : List Char) :
    byteLength (left ++ right) = byteLength left + byteLength right := by
  induction left with
  | nil => simp
  | cons c rest ih => simp [ih, Nat.add_assoc]

theorem length_le_byteLength (text : List Char) : text.length ≤ byteLength text := by
  induction text with
  | nil => exact Nat.le_refl 0
  | cons c rest ih =>
      have := c.utf8Size_pos
      rw [List.length_cons, byteLength_cons]
      omega

/-- The byte length is the size of the text as the runtime stores it. -/
theorem byteLength_eq_utf8ByteSize (text : List Char) :
    byteLength text = (String.ofList text).utf8ByteSize := by
  induction text with
  | nil => rfl
  | cons c rest ih =>
      rw [byteLength_cons, ih, show c :: rest = [c] ++ rest from rfl,
        String.ofList_append, String.utf8ByteSize_append]
      simp

/-- Dropping the bytes of a prefix leaves what follows it. -/
@[simp] theorem dropBytes_byteLength (before rest : List Char) :
    dropBytes (byteLength before) (before ++ rest) = rest := by
  induction before with
  | nil => cases rest <;> simp [dropBytes]
  | cons c before ih =>
      obtain ⟨size, hsize⟩ : ∃ size, c.utf8Size = size + 1 :=
        ⟨c.utf8Size - 1, by have := c.utf8Size_pos; omega⟩
      have hcount : byteLength (c :: before) = (size + byteLength before) + 1 := by
        rw [byteLength_cons, hsize]; omega
      rw [hcount, List.cons_append, dropBytes, hsize,
        show size + byteLength before + 1 - (size + 1) = byteLength before by omega]
      exact ih

end Lexer

open Lexer

namespace Cursor

/-- The cursor right after a text. -/
def after (before : List Char) : Cursor where
  offset := byteLength before
  line := 1 + before.count '\n'

@[simp] theorem offset_after (before : List Char) :
    (after before).offset = byteLength before := rfl

@[simp] theorem line_after (before : List Char) :
    (after before).line = 1 + before.count '\n' := rfl

/-- A cursor is a place of a text if it stands right after a prefix of it. -/
def IsPlace (source : List Char) (cursor : Cursor) : Prop :=
  ∃ before rest, source = before ++ rest ∧ cursor = after before

theorem isPlace_after (before rest : List Char) :
    IsPlace (before ++ rest) (after before) :=
  ⟨before, rest, rfl, rfl⟩

theorem isPlace_start (source : List Char) : IsPlace source .start :=
  ⟨[], source, rfl, rfl⟩

theorem IsPlace.offset_le {source : List Char} {cursor : Cursor}
    (h : IsPlace source cursor) : cursor.offset ≤ byteLength source := by
  obtain ⟨before, rest, rfl, rfl⟩ := h
  simp

/-- A place lies on a boundary between two characters of the stored text. -/
theorem IsPlace.isValid {source : List Char} {cursor : Cursor}
    (h : IsPlace source cursor) :
    (String.Pos.Raw.mk cursor.offset).IsValid (String.ofList source) := by
  obtain ⟨before, rest, rfl, rfl⟩ := h
  have hend : String.Pos.Raw.mk (byteLength before) =
      (String.ofList before).rawEndPos := by
    rw [byteLength_eq_utf8ByteSize]
    rfl
  rw [offset_after, hend, String.ofList_append]
  exact String.Pos.Raw.isValid_rawEndPos.append_right _

end Cursor

end MatrixScript
