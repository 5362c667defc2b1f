import Mathlib.Data.List.Induction
import Mathlib.Data.List.TakeWhile
import MatrixScript.Proofs.Lexing.Place

/-!
# The line of a place

Messages show a line of the source by its number.  The number that a place carries
leads to the text between the line feeds around it (`lineText_of_lineAround`), whatever
lines stand before; a carriage return at the end of a line, which cutting into lines
drops, is a blank and does not show.
-/

namespace MatrixScript

namespace Text

/-! ## Lines by their number -/

private theorem lineFold_flag (text : List Char) :
    (text.foldr (lineStep '\n' '\r') ([], false)).2 = true ↔ text.head? = some '\n' := by
  cases text with
  | nil => simp
  | cons c text =>
      rw [List.foldr_cons, lineStep.eq_def]
      by_cases hc : c = '\n'
      · simp [hc]
      · simp only [beq_iff_eq, hc, if_false, List.head?_cons, Option.some.injEq, iff_false,
          Bool.not_eq_true]
        repeat' split
        all_goals rfl

theorem lines_feed (text : List Char) : lines ('\n' :: text) = [] :: lines text := by
  simp [lines, linesWith, lineStep]

/-- A carriage return in front of a line feed is dropped. -/
theorem lines_return {text : List Char} (h : text.head? = some '\n') :
    lines ('\r' :: text) = lines text := by
  have hflag := (lineFold_flag text).mpr h
  simp [lines, linesWith, lineStep, hflag]

/-- Any other character is put in front of the first line. -/
theorem lines_cons {c : Char} (hc : c ≠ '\n') {text : List Char}
    (h : ¬ (c = '\r' ∧ text.head? = some '\n')) :
    lines (c :: text) = (c :: (lines text).headD []) :: (lines text).tail := by
  have hflag : ¬ (c = '\r' ∧ (text.foldr (lineStep '\n' '\r') ([], false)).2 = true) := by
    rwa [lineFold_flag]
  unfold lines linesWith
  rw [List.foldr_cons, lineStep.eq_def]
  simp only [beq_iff_eq, hc, if_false, Bool.and_eq_true, hflag]
  split <;> simp_all

/-- What stands on the first line does not matter for the others. -/
theorem getElem?_lines_cons {c : Char} (hc : c ≠ '\n') (text : List Char) (k : Nat) :
    (lines (c :: text))[k + 1]? = (lines text)[k + 1]? := by
  by_cases h : c = '\r' ∧ text.head? = some '\n'
  · rw [h.1, lines_return h.2]
  · rw [lines_cons hc h, List.getElem?_cons_succ, List.getElem?_tail]

/-- Whole lines in front count with their line feeds. -/
theorem getElem?_lines_append {before : List Char}
    (h : before = [] ∨ before.getLast? = some '\n') (text : List Char) (k : Nat) :
    (lines (before ++ text))[before.count '\n' + k]? = (lines text)[k]? := by
  induction before with
  | nil => simp
  | cons c before ih =>
      have hlast : before = [] ∨ before.getLast? = some '\n' := by
        cases before with
        | nil => exact .inl rfl
        | cons d before => exact .inr (by simpa using h)
      rw [List.cons_append]
      by_cases hc : c = '\n'
      · subst hc
        rw [lines_feed, List.count_cons_self, Nat.add_right_comm, List.getElem?_cons_succ]
        exact ih hlast
      · -- The line goes on, so there is at least one line feed after this character.
        obtain ⟨j, hj⟩ : ∃ j, before.count '\n' + k = j + 1 := by
          rcases hlast with rfl | hlast
          · exact absurd (by simpa using h) hc
          · have hpos := List.count_pos_iff.mpr (List.mem_of_getLast? hlast)
            exact ⟨before.count '\n' + k - 1, by omega⟩
        rw [List.count_cons_of_ne hc, hj, getElem?_lines_cons hc, ← hj]
        exact ih hlast

/-! ## The first line -/

/-- The first line is the text up to the line feed, but for a carriage return at its
end. -/
theorem headD_lines_append {text after : List Char} (htext : '\n' ∉ text)
    (hafter : after = [] ∨ after.head? = some '\n') :
    (lines (text ++ after)).headD [] = text ∨
      ∃ init, text = init ++ ['\r'] ∧ (lines (text ++ after)).headD [] = init := by
  induction text with
  | nil =>
      left
      rcases hafter with rfl | hafter
      · rfl
      · obtain ⟨rest, rfl⟩ := List.head?_eq_some_iff.mp hafter
        rw [List.nil_append, lines_feed, List.headD_cons]
  | cons c text ih =>
      obtain ⟨hc, hrest⟩ := List.ne_and_not_mem_of_not_mem_cons htext
      have hc : c ≠ '\n' := Ne.symm hc
      rw [List.cons_append]
      by_cases h : c = '\r' ∧ (text ++ after).head? = some '\n'
      · -- A line feed follows, so this is the end of the line.
        right
        obtain ⟨rfl, hhead⟩ := h
        cases text with
        | nil =>
            refine ⟨[], rfl, ?_⟩
            obtain ⟨rest, hfeed⟩ := List.head?_eq_some_iff.mp hhead
            rw [lines_return hhead, hfeed, lines_feed, List.headD_cons]
        | cons d text =>
            rw [List.cons_append, List.head?_cons, Option.some.injEq] at hhead
            exact absurd (by simp [hhead]) hrest
      · rw [lines_cons hc h, List.headD_cons]
        rcases ih hrest with hsame | ⟨init, rfl, hinit⟩
        · exact .inl (by rw [hsame])
        · exact .inr ⟨c :: init, rfl, by rw [hinit]⟩

/-- The lines after the first one are those of the text after its line feed. -/
theorem lines_append_feed {text : List Char} (htext : '\n' ∉ text) (rest : List Char) :
    lines (text ++ '\n' :: rest) =
      (lines (text ++ '\n' :: rest)).headD [] :: lines rest := by
  induction text with
  | nil => rw [List.nil_append, lines_feed, List.headD_cons]
  | cons c text ih =>
      obtain ⟨hc, hrest⟩ := List.ne_and_not_mem_of_not_mem_cons htext
      rw [List.cons_append]
      by_cases h : c = '\r' ∧ (text ++ '\n' :: rest).head? = some '\n'
      · obtain ⟨rfl, hhead⟩ := h
        rw [lines_return hhead]
        exact ih hrest
      · have htail : (lines (text ++ '\n' :: rest)).tail = lines rest := by
          rw [ih hrest, List.tail_cons]
        rw [lines_cons (Ne.symm hc) h, List.headD_cons, htail]

/-- Blanks at the end of a text do not count. -/
theorem trim_append_of_blank {tail : List Char} (h : ∀ c ∈ tail, isBlank c = true)
    (text : List Char) : trim (text ++ tail) = trim text := by
  unfold trim trimEnd trimStart
  rw [List.dropWhile_append]
  split
  · rename_i hnil
    rw [List.isEmpty_iff.mp hnil, List.dropWhile_eq_nil_iff.mpr h]
  · rw [List.reverse_append, List.dropWhile_append_of_pos (by simpa using h)]

end Text

namespace Lexer

open Cursor

/-- The text between the line feeds around a place, or the ends of the source. -/
def LineAround (source : List Char) (place : Cursor) (text : List Char) : Prop :=
  ∃ before left right after, text = left ++ right ∧ source = before ++ text ++ after ∧
    place = Cursor.after (before ++ left) ∧ '\n' ∉ text ∧
    (before = [] ∨ before.getLast? = some '\n') ∧ (after = [] ∨ after.head? = some '\n')

/-- The line of a place is found by its number. -/
theorem lineText_of_lineAround {lexer : Lexer} {place : Cursor} {text : List Char}
    (h : LineAround lexer.source place text) :
    lexer.lineText place.line = String.ofList (Text.trim text) := by
  obtain ⟨before, left, right, after, htext, hsource, hplace, hfeed, hbefore, hafter⟩ := h
  have hleft : left.count '\n' = 0 := by
    rw [List.count_eq_zero]
    intro hmem
    exact hfeed (by rw [htext]; exact List.mem_append_left _ hmem)
  have hline : place.line = before.count '\n' + 1 := by
    rw [hplace, line_after, List.count_append, hleft]
    omega
  have hfound : (Text.lines lexer.source)[before.count '\n']? =
      (Text.lines (text ++ after))[0]? := by
    rw [hsource, List.append_assoc]
    exact Text.getElem?_lines_append hbefore (text ++ after) 0
  have htrim : Text.trim ((Text.lines (text ++ after)).headD []) = Text.trim text := by
    rcases Text.headD_lines_append hfeed hafter with hsame | ⟨init, hinit, hhead⟩
    · rw [hsame]
    · rw [hhead, hinit, Text.trim_append_of_blank (List.forall_mem_singleton.mpr (by decide))]
  rw [hline, lineText]
  simp only [hfound, ← htrim]
  cases Text.lines (text ++ after) with
  | nil => rfl
  | cons line rest => rfl

/-- The part of a text after its last line feed. -/
private theorem exists_lastLine (text : List Char) :
    ∃ before left, text = before ++ left ∧ '\n' ∉ left ∧
      (before = [] ∨ before.getLast? = some '\n') := by
  induction text using List.reverseRecOn with
  | nil => exact ⟨[], [], rfl, by simp, .inl rfl⟩
  | append_singleton text c ih =>
      by_cases hc : c = '\n'
      · exact ⟨text ++ [c], [], by simp, by simp, .inr (by simp [hc])⟩
      · obtain ⟨before, left, rfl, hleft, hbefore⟩ := ih
        refine ⟨before, left ++ [c], by simp, ?_, hbefore⟩
        simp [hleft, Ne.symm hc]

/-- The part of a text before its first line feed. -/
private theorem exists_firstLine (text : List Char) :
    ∃ right after, text = right ++ after ∧ '\n' ∉ right ∧
      (after = [] ∨ after.head? = some '\n') := by
  induction text with
  | nil => exact ⟨[], [], rfl, by simp, .inl rfl⟩
  | cons c text ih =>
      by_cases hc : c = '\n'
      · exact ⟨[], c :: text, rfl, by simp, .inr (by simp [hc])⟩
      · obtain ⟨right, after, rfl, hright, hafter⟩ := ih
        refine ⟨c :: right, after, rfl, ?_, hafter⟩
        simp [hright, Ne.symm hc]

/-- Every place lies on a line. -/
theorem exists_lineAround {source : List Char} {place : Cursor} (h : IsPlace source place) :
    ∃ text, LineAround source place text := by
  obtain ⟨pre, post, rfl, rfl⟩ := h
  obtain ⟨before, left, rfl, hleft, hbefore⟩ := exists_lastLine pre
  obtain ⟨right, after, rfl, hright, hafter⟩ := exists_firstLine post
  refine ⟨left ++ right, before, left, right, after, rfl, by simp, rfl, ?_, hbefore, hafter⟩
  rw [List.mem_append]
  exact not_or.mpr ⟨hleft, hright⟩

end Lexer

end MatrixScript
