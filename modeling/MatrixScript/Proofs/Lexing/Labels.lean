import MatrixScript.Proofs.Lexing.Stream
import MatrixScript.Script.LabelIndex

/-!
# Collecting labels

Labels are collected token by token, and the text of remarks is passed over.  The
equations say what each kind of token does; `collectFrom_located` follows from them
that the lexer only moves on and that each label found is where it is said to be.
-/

namespace MatrixScript

open Lexer Cursor

namespace Lexer

/-- What a source has at a cursor. -/
def scanAt (source : List Char) (params : List String) (cursor : Cursor) : Scan :=
  Lexer.scan { source := source, params := params, cursor := cursor }

theorem scanAt_eq (lexer : Lexer) (cursor : Cursor) :
    scanAt lexer.source lexer.params cursor = (lexer.seek cursor).scan :=
  scan_congr rfl rfl rfl

end Lexer

namespace LabelIndex

variable {max bound : Nat} {index : LabelIndex} {lexer : Lexer} {notes : List Note}
  {token : Token}

/-! ## Single tokens -/

theorem collectFrom_of_error {e : ParseError} (hnext : lexer.next.outcome = .error e) :
    collectFrom max (bound + 1) index lexer notes =
      ⟨.error (.parse e), lexer.next.lexer, notes ++ lexer.next.notes⟩ := by
  rw [collectFrom]
  simp only [hnext]

theorem collectFrom_of_end (hnext : lexer.next.outcome = .ok token)
    (hkind : token.kind = .delimiter .endOfScript) :
    collectFrom max (bound + 1) index lexer notes =
      ⟨.ok index, lexer.next.lexer, notes ++ lexer.next.notes⟩ := by
  rw [collectFrom]
  simp only [hnext, hkind]

theorem collectFrom_of_rem (hnext : lexer.next.outcome = .ok token)
    (hkind : token.kind = .command .rem) :
    collectFrom max (bound + 1) index lexer notes =
      collectFrom max bound index lexer.next.lexer.skipLine.2 (notes ++ lexer.next.notes) := by
  rw [collectFrom]
  simp only [hnext, hkind]

/-- A label is known, or it is too many, or it is added. -/
theorem collectFrom_of_label (hnext : lexer.next.outcome = .ok token)
    (hkind : token.kind = .label) :
    ((index.find? token.lexeme).isSome ∧ ∃ notes', collectFrom max (bound + 1) index lexer notes =
      collectFrom max bound index lexer.next.lexer notes') ∨
    (index.find? token.lexeme = none ∧ max ≤ index.size ∧ ∃ notes',
      collectFrom max (bound + 1) index lexer notes =
        ⟨.error (.flow (.tooManyLabels max)), lexer.next.lexer, notes'⟩) ∨
    (index.find? token.lexeme = none ∧ index.size < max ∧ ∃ notes',
      collectFrom max (bound + 1) index lexer notes =
        collectFrom max bound ⟨index.labels ++ [⟨token.lexeme, lexer.next.lexer.position⟩]⟩
          lexer.next.lexer notes') := by
  rw [collectFrom]
  simp only [hnext, hkind]
  by_cases hknown : (index.find? token.lexeme).isSome
  · rw [if_pos hknown]
    exact .inl ⟨hknown, _, rfl⟩
  · rw [if_neg hknown]
    have hnone := Option.not_isSome_iff_eq_none.mp hknown
    by_cases hfull : max ≤ index.size
    · rw [if_pos hfull]
      exact .inr (.inl ⟨hnone, hfull, _, rfl⟩)
    · rw [if_neg hfull]
      exact .inr (.inr ⟨hnone, by omega, _, rfl⟩)

theorem collectFrom_of_other (hnext : lexer.next.outcome = .ok token)
    (hend : token.kind ≠ .delimiter .endOfScript) (hrem : token.kind ≠ .command .rem)
    (hlabel : token.kind ≠ .label) :
    collectFrom max (bound + 1) index lexer notes =
      collectFrom max bound index lexer.next.lexer (notes ++ lexer.next.notes) := by
  rw [collectFrom]
  simp only [hnext]

/-! ## Where labels are -/

/-- A label is written somewhere, and its target is the place right after it. -/
def Ends (source : List Char) (params : List String) (label : Label) : Prop :=
  ∃ start, IsPlace source start ∧
    (scanAt source params start).outcome = .ok ⟨.label, label.name, start⟩ ∧
    (scanAt source params start).cursor = label.target

theorem Ends.isPlace_target {source : List Char} {params : List String} {label : Label}
    (h : Ends source params label) : IsPlace source label.target := by
  obtain ⟨start, hstart, _, htarget⟩ := h
  rw [← htarget]
  exact @isPlace_scan_cursor { source := source, params := params, cursor := start } hstart

theorem ends_of_next (hsound : lexer.Sound) (hnext : lexer.next.outcome = .ok token)
    (hkind : token.kind = .label) :
    Ends lexer.source lexer.params ⟨token.lexeme, lexer.next.lexer.position⟩ := by
  obtain ⟨hplace, hscan, hcursor⟩ := hsound.next_token hnext
  refine ⟨token.start, hplace, ?_, ?_⟩
  · rw [scanAt_eq, hscan, ← hkind]
  · rw [scanAt_eq, hcursor, position, peeked_next]

/-- The lexer moves on without a jump, and every label that is found is where it is
said to be. -/
theorem collectFrom_located (max count : Nat) (index : LabelIndex) (notes : List Note)
    (hsound : lexer.Sound)
    (hlabels : ∀ label ∈ index.labels, Ends lexer.source lexer.params label) :
    Moves (fun _ => False) lexer (collectFrom max count index lexer notes).lexer ∧
      ∀ index', (collectFrom max count index lexer notes).outcome = .ok index' →
        ∀ label ∈ index'.labels, Ends lexer.source lexer.params label := by
  induction count generalizing lexer index notes with
  | zero =>
      refine ⟨.refl, ?_⟩
      rintro _ ⟨⟩
      exact hlabels
  | succ count ih =>
      have hmove : Moves (fun _ => False) lexer lexer.next.lexer := (Move.next lexer).moves
      -- Wherever the collection goes on, its source is still the same.
      have hgo : ∀ lexer₁ index₁ notes₁, Moves (fun _ => False) lexer lexer₁ → lexer₁.Sound →
          (∀ label ∈ index₁.labels, Ends lexer.source lexer.params label) →
          Moves (fun _ => False) lexer (collectFrom max count index₁ lexer₁ notes₁).lexer ∧
            ∀ index', (collectFrom max count index₁ lexer₁ notes₁).outcome = .ok index' →
              ∀ label ∈ index'.labels, Ends lexer.source lexer.params label := by
        intro lexer₁ index₁ notes₁ hmoves hsound₁ hlabels₁
        rw [← hmoves.source_eq, ← hmoves.params_eq] at hlabels₁ ⊢
        obtain ⟨hrest, hfound⟩ := ih index₁ notes₁ hsound₁ hlabels₁
        exact ⟨hmoves.trans hrest, hfound⟩
      cases hnext : lexer.next.outcome with
      | error e =>
          rw [collectFrom_of_error hnext]
          exact ⟨hmove, fun _ h => nomatch h⟩
      | ok token =>
          by_cases hend : token.kind = .delimiter .endOfScript
          · rw [collectFrom_of_end hnext hend]
            refine ⟨hmove, ?_⟩
            rintro _ ⟨⟩
            exact hlabels
          by_cases hrem : token.kind = .command .rem
          · rw [collectFrom_of_rem hnext hrem]
            exact hgo _ _ _ (hmove.trans (Move.skipLine _).moves) hsound.next.skipLine hlabels
          by_cases hlabel : token.kind = .label
          · rcases collectFrom_of_label hnext hlabel with
              ⟨_, _, hrun⟩ | ⟨_, _, _, hrun⟩ | ⟨_, _, _, hrun⟩ <;> rw [hrun]
            · exact hgo _ _ _ hmove hsound.next hlabels
            · exact ⟨hmove, fun _ h => nomatch h⟩
            · refine hgo _ _ _ hmove hsound.next ?_
              intro label hmem
              rcases List.mem_append.mp hmem with hold | hlast
              · exact hlabels label hold
              · obtain rfl := List.mem_singleton.mp hlast
                exact ends_of_next hsound hnext hlabel
          · rw [collectFrom_of_other hnext hend hrem hlabel]
            exact hgo _ _ _ hmove hsound.next hlabels

end LabelIndex

end MatrixScript
