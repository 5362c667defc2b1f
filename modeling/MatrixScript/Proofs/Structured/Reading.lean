import MatrixScript.Proofs.Lexing.Line
import MatrixScript.Proofs.Lockstep.Expression
import MatrixScript.Proofs.Monad.Coupling

/-!
# Reading a line in its place and on its own

Two lexers that are side by side on one line read in step up to the end of that line, so
all that is read from it is the same in both places.  What is left of the line, in
characters, bounds the tokens that are to come.
-/

namespace MatrixScript

open Lexer

/-- Two readers side by side on a line, with `count` characters of it ahead. -/
def OnLine (pre line post : List Char) (count : Nat) (here alone : Reader) : Prop :=
  ∃ done rest, line = done ++ rest ∧ rest.length = count ∧
    Beside pre post here.lexer alone.lexer done rest

/-- Two programs read a line in the same way. -/
abbrev Local {α : Type} (pre line post : List Char) (bound : Nat) (x y : ReadM α) : Prop :=
  Coupled (OnLine pre line post) (fun _ _ => True) bound x y

/-- Two lexers side by side on a line, with at most `n` characters of it ahead. -/
def NearOnLine (pre line post : List Char) (n : Nat) (here alone : Lexer) : Prop :=
  ∃ done rest, line = done ++ rest ∧ rest.length ≤ n ∧ Beside pre post here alone done rest

section NearOnLine

variable {α : Type} {pre line post : List Char} {n bound : Nat}

theorem OnLine.near {here alone : Reader} (h : OnLine pre line post n here alone) :
    NearOnLine pre line post n here.lexer alone.lexer := by
  obtain ⟨done, rest, hline, hcount, hbeside⟩ := h
  exact ⟨done, rest, hline, hcount.le, hbeside⟩

theorem NearOnLine.onLine {here alone : Reader}
    (h : NearOnLine pre line post n here.lexer alone.lexer) :
    ∃ k, k ≤ n ∧ OnLine pre line post k here alone := by
  obtain ⟨done, rest, hline, hcount, hbeside⟩ := h
  exact ⟨rest.length, hcount, done, rest, hline, rfl, hbeside⟩

theorem Token.Same.accords {token token' : Token} (h : token'.Same token) :
    token'.Accords .exact token where
  kind_eq := h.1.symm
  fold_eq := h.2.symm
  lexeme_eq _ _ := h.2.symm

theorem NearOnLine.next {here alone : Lexer} (h : NearOnLine pre line post n here alone) :
    PacingNext .exact (NearOnLine pre line post) (fun _ _ => True) n here alone := by
  obtain ⟨done, rest, rfl, hcount, hbeside⟩ := h
  cases hbeside.next with
  | error halone hhere => exact .fault hhere halone rfl trivial
  | endOfLine halone hhere hsame hends _ _ _ | endOfScript halone hhere hsame hends _ _ =>
      refine .token hhere halone hsame.accords trivial fun hgo => ?_
      simp [Token.endsStatement_eq_false_iff, hsame.1, hends] at hgo
  | @token _ _ text rest' halone hhere hsame _ hrest htext _ _ hbeside' =>
      refine .token hhere halone hsame.accords trivial fun _ => ?_
      have hpos := List.length_pos_iff.mpr htext
      have hlength : rest'.length < n := by
        rw [hrest, List.length_append] at hcount
        omega
      exact ⟨rest'.length, hlength, done ++ text, rest', by rw [hrest, List.append_assoc],
        Nat.le_refl _, hbeside'⟩

/-- A line is read in step in its place and on its own. -/
theorem pacing_onLine (pre line post : List Char) :
    Pacing .exact (NearOnLine pre line post) (fun _ _ => True) where
  stop _ := trivial
  mono h hk := by
    obtain ⟨done, rest, hline, hcount, hbeside⟩ := h
    exact ⟨done, rest, hline, hcount.trans hk, hbeside⟩
  bound h := by
    obtain ⟨done, rest, rfl, hcount, hbeside⟩ := h
    refine ⟨rest.length, hcount, ?_, ?_, done, rest, rfl, Nat.le_refl _, hbeside⟩ <;>
      unfold Lexer.tokenBound
    · rw [hbeside.here_faces.source_eq]
      simp only [List.length_append]
      omega
    · rw [hbeside.alone_faces.source_eq]
      simp only [List.length_append]
      omega
  peek h hhere halone := by
    obtain ⟨done, rest, hline, hcount, hbeside⟩ := h
    exact ⟨done, rest, hline, hcount, hbeside.peek halone hhere⟩
  peek_fault _ _ _ := trivial
  next h := h.next

/-- Errors that agree to the letter are the same. -/
theorem Fits.alike {σ τ β : Type} {F F' : σ → τ → Prop} {Q Q' : α → β → σ → τ → Prop}
    {x : EStateM.Result Error σ α} {y : EStateM.Result Error τ β}
    (h : Fits (Error.Accords .exact) F Q x y) (hF : ∀ s t, F s t → F' s t)
    (hQ : ∀ a b s t, Q a b s t → Q' a b s t) : Alike F' Q' x y := by
  cases h with
  | ok hok => exact .ok (hQ _ _ _ _ hok)
  | @error e e' _ _ he hstate =>
      obtain rfl : e' = e := by
        rw [← e'.respell_exact, ← e.respell_exact]
        exact he
      exact .error (hF _ _ hstate)

theorem local_condition (env : Expression.Env) :
    Local pre line post bound (Expression.condition env) (Expression.condition env) := by
  intro n here alone _ h
  refine ((pacing_onLine pre line post).alike_condition _ _ h.near).alike
    (fun _ _ _ => trivial) ?_
  rintro a _ s t ⟨rfl, hnear⟩
  exact ⟨rfl, hnear.onLine⟩

end NearOnLine

end MatrixScript
