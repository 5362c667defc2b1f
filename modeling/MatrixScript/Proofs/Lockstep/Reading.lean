import MatrixScript.Proofs.Lockstep.Spelling
import MatrixScript.Proofs.Monad.Pairing
import MatrixScript.Proofs.Monad.Reading

/-!
# Reading two lines in step

A statement is read token by token up to the end of its line.  `Pacing` is what the
comparison of two readings needs to know about the lexers: wherever they are near each
other they find the same token or the same error, and unless the statement ends there
they are near each other again, with fewer tokens to come.  Everything that reads does so
in step then, whatever the two texts are and wherever the lines stand in them.
-/

namespace MatrixScript

/-- What two lexers find when they take a token: errors that agree, or tokens that
agree, and then they go on unless the statement ends. -/
inductive PacingNext (spelling : Spelling) (Near : Nat → Lexer → Lexer → Prop)
    (Stop : Lexer → Lexer → Prop) (n : Nat) (a b : Lexer) : Prop where
  | fault {e e' : ParseError} (left : a.next.outcome = .error e)
      (right : b.next.outcome = .error e')
      (agree : e'.respell spelling.fold = e.respell spelling.fold)
      (stop : Stop a.next.lexer b.next.lexer)
  | token {token token' : Token} (left : a.next.outcome = .ok token)
      (right : b.next.outcome = .ok token') (agree : token.Accords spelling token')
      (stop : Stop a.next.lexer b.next.lexer)
      (near : token.endsStatement = false → ∃ k, k < n ∧ Near k a.next.lexer b.next.lexer)

/-- Lexers that are near each other read the same up to the end of the line.  `Near n`
says that at most `n` tokens of it are to come, and `Stop` is what is left of the
relation where a statement fails. -/
structure Pacing (spelling : Spelling) (Near : Nat → Lexer → Lexer → Prop)
    (Stop : Lexer → Lexer → Prop) : Prop where
  stop : ∀ {n a b}, Near n a b → Stop a b
  mono : ∀ {n k a b}, Near n a b → n ≤ k → Near k a b
  /-- No more tokens are to come than either source has. -/
  bound : ∀ {n a b}, Near n a b →
    ∃ k, k ≤ n ∧ k < a.tokenBound ∧ k < b.tokenBound ∧ Near k a b
  peek : ∀ {n a b token token'}, Near n a b → a.peek.outcome = .ok token →
    b.peek.outcome = .ok token' → Near n a.peek.lexer b.peek.lexer
  peek_fault : ∀ {n a b e e'}, Near n a b → a.peek.outcome = .error e →
    b.peek.outcome = .error e' → Stop a.peek.lexer b.peek.lexer
  next : ∀ {n a b}, Near n a b → PacingNext spelling Near Stop n a b

variable {spelling : Spelling} {Near : Nat → Lexer → Lexer → Prop}
  {Stop : Lexer → Lexer → Prop} {α β γ δ : Type}

/-- The programs read in step, from readers related by `P` to readers related by `Q`. -/
abbrev ReadPaired (spelling : Spelling) (Stop : Lexer → Lexer → Prop)
    (P : Lexer → Lexer → Prop) (V : α → β → Prop) (Q : Lexer → Lexer → Prop)
    (x : ReadM α) (y : ReadM β) : Prop :=
  Paired (Error.Accords spelling) (fun r s => Stop r.lexer s.lexer)
    (fun r s => P r.lexer s.lexer) V (fun r s => Q r.lexer s.lexer) x y

namespace Pacing

/-- The programs read in step to equal values, with at most `n` tokens to come. -/
abbrev Alike (_ : Pacing spelling Near Stop) (n : Nat) (x y : ReadM α) : Prop :=
  ReadPaired spelling Stop (Near n) Eq (Near n) x y

end Pacing

/-! ## Reading that takes no token -/

section Constant

variable {P Q : Lexer → Lexer → Prop} {V : α → β → Prop}

theorem readPaired_throw {e e' : Error} (he : e.Accords spelling e')
    (hP : ∀ a b, P a b → Stop a b) :
    ReadPaired spelling Stop P V Q (throw e : ReadM α) (throw e' : ReadM β) :=
  paired_throw he fun _ _ h => hP _ _ h

theorem readPaired_refuse {e e' : ParseError}
    (he : e'.respell spelling.fold = e.respell spelling.fold) (hP : ∀ a b, P a b → Stop a b) :
    ReadPaired spelling Stop P V Q (Reader.refuse e : ReadM α) (Reader.refuse e' : ReadM β) :=
  readPaired_throw (Error.accords_parse he) hP

theorem readPaired_ofExcept (result : Except Error α) (hP : ∀ a b, P a b → Stop a b) :
    ReadPaired spelling Stop P Eq P (ReadM.ofExcept result) (ReadM.ofExcept result) := by
  cases result with
  | ok value => exact paired_pure rfl
  | error e => exact readPaired_throw (.refl e) hP

theorem readPaired_ofMatrix (result : Except (MatrixError Float) α)
    (hP : ∀ a b, P a b → Stop a b) :
    ReadPaired spelling Stop P Eq P (ReadM.ofMatrix result) (ReadM.ofMatrix result) := by
  cases result with
  | ok value => exact paired_pure rfl
  | error e => exact readPaired_throw (.refl _) hP

theorem readPaired_ofParse (result : Except ParseError α) (hP : ∀ a b, P a b → Stop a b) :
    ReadPaired spelling Stop P Eq P (Reader.ofParse result) (Reader.ofParse result) := by
  cases result with
  | ok value => exact paired_pure rfl
  | error e => exact readPaired_refuse rfl hP

/-- Notes may differ. -/
theorem readPaired_note (level level' : Level) (text text' : String) :
    ReadPaired spelling Stop P Eq P (Reader.note level text) (Reader.note level' text') :=
  fun _ _ h => .ok ⟨rfl, h⟩

/-- The same variable is named in any spelling, or none. -/
theorem readPaired_variableName {name name' : String}
    (h : spelling.fold name' = spelling.fold name) (hP : ∀ a b, P a b → Stop a b) :
    ReadPaired spelling Stop P Eq P (Reader.ofParse (Literal.variableName name))
      (Reader.ofParse (Literal.variableName name')) := by
  have hname := VariableName.ofText?_eq_of_foldCase_eq (Spelling.foldCase_eq_of_fold_eq h)
  unfold Literal.variableName
  rw [hname]
  cases VariableName.ofText? name with
  | some found => exact paired_pure rfl
  | none => exact readPaired_refuse (congrArg ParseError.badVariableName h) hP

end Constant

namespace Pacing

variable (pace : Pacing spelling Near Stop) {n : Nat}

include pace

/-! ## Taking and looking at tokens -/

theorem weaken {k : Nat} {P : Lexer → Lexer → Prop} {V : α → β → Prop} {x : ReadM α}
    {y : ReadM β} (h : ReadPaired spelling Stop P V (Near k) x y) (hk : k ≤ n) :
    ReadPaired spelling Stop P V (Near n) x y :=
  h.imp (fun _ _ h => h) (fun _ _ h => h) fun _ _ hnear => pace.mono hnear hk

/-- Programs that fail at the end of the statement and otherwise go on in step can start
by taking a token. -/
theorem next_bind {V : α → β → Prop} {f : Token → ReadM α} {g : Token → ReadM β}
    (hend : ∀ token token', token.Accords spelling token' → token.endsStatement = true →
      ReadPaired spelling Stop Stop V (Near n) (f token) (g token'))
    (hgo : ∀ token token', token.Accords spelling token' → token.endsStatement = false →
      ∀ k, k < n → ReadPaired spelling Stop (Near k) V (Near k) (f token) (g token')) :
    ReadPaired spelling Stop (Near n) V (Near n) (Reader.next >>= f) (Reader.next >>= g) := by
  intro r s hnear
  cases pace.next hnear with
  | fault left right agree stop =>
      rw [bind_of_eq_error (Reader.next_of_error left),
        bind_of_eq_error (Reader.next_of_error right)]
      exact .error (Error.accords_parse agree) stop
  | @token token token' left right agree stop near =>
      rw [bind_of_eq_ok (Reader.next_of_ok left), bind_of_eq_ok (Reader.next_of_ok right)]
      cases hends : token.endsStatement with
      | true => exact hend token token' agree hends _ _ stop
      | false =>
          obtain ⟨k, hk, hnear'⟩ := near hends
          exact pace.weaken (hgo token token' agree hends k hk) hk.le _ _ hnear'

/-- The lexers are near each other and these tokens are next. -/
def At (_ : Pacing spelling Near Stop) (token token' : Token) (n : Nat) (a b : Lexer) : Prop :=
  Near n a b ∧ a.next.outcome = .ok token ∧ b.next.outcome = .ok token'

/-- Looking at a token keeps what does not depend on the lookahead. -/
theorem peek_bind_of {P Q : Lexer → Lexer → Prop} {V : α → β → Prop} {f : Token → ReadM α}
    {g : Token → ReadM β} (hnear : ∀ a b, P a b → Near n a b)
    (hpeek : ∀ a b token token', P a b → a.peek.outcome = .ok token →
      b.peek.outcome = .ok token' → P a.peek.lexer b.peek.lexer)
    (hgo : ∀ token token', token.Accords spelling token' →
      ReadPaired spelling Stop
        (fun a b => P a b ∧ a.next.outcome = .ok token ∧ b.next.outcome = .ok token') V Q
        (f token) (g token')) :
    ReadPaired spelling Stop P V Q (Reader.peek >>= f) (Reader.peek >>= g) := by
  intro r s hP
  cases pace.next (hnear _ _ hP) with
  | fault left right agree stop =>
      rw [← Lexer.peek_outcome] at left right
      rw [bind_of_eq_error (Reader.peek_of_error left),
        bind_of_eq_error (Reader.peek_of_error right)]
      exact .error (Error.accords_parse agree) (pace.peek_fault (hnear _ _ hP) left right)
  | @token token token' left right agree _ _ =>
      rw [← Lexer.peek_outcome] at left right
      rw [bind_of_eq_ok (Reader.peek_of_ok left), bind_of_eq_ok (Reader.peek_of_ok right)]
      exact hgo token token' agree _ _ ⟨hpeek _ _ _ _ hP left right,
        (Lexer.next_peek left).2.1, (Lexer.next_peek right).2.1⟩

theorem peek_bind {V : α → β → Prop} {Q : Lexer → Lexer → Prop} {f : Token → ReadM α}
    {g : Token → ReadM β}
    (hgo : ∀ token token', token.Accords spelling token' →
      ReadPaired spelling Stop (pace.At token token' n) V Q (f token) (g token')) :
    ReadPaired spelling Stop (Near n) V Q (Reader.peek >>= f) (Reader.peek >>= g) :=
  pace.peek_bind_of (fun _ _ h => h) (fun _ _ _ _ h => pace.peek h) hgo

variable {token token' : Token}

/-- Where the tokens are known, programs in step need not know them. -/
theorem of_near {V : α → β → Prop} {Q : Lexer → Lexer → Prop} {x : ReadM α} {y : ReadM β}
    (h : ReadPaired spelling Stop (Near n) V Q x y) :
    ReadPaired spelling Stop (pace.At token token' n) V Q x y :=
  fun r s hat => h r s hat.1

/-- A token that was looked at is taken. -/
theorem taken_bind {V : α → β → Prop} {f : Token → ReadM α} {g : Token → ReadM β}
    (hends : token.endsStatement = false)
    (hgo : ∀ k, k < n → ReadPaired spelling Stop (Near k) V (Near k) (f token) (g token')) :
    ReadPaired spelling Stop (pace.At token token' n) V (Near n) (Reader.next >>= f)
      (Reader.next >>= g) := by
  intro r s ⟨hnear, hleft, hright⟩
  cases pace.next hnear with
  | fault left _ _ _ =>
      rw [hleft] at left
      cases left
  | token left right _ _ near =>
      rw [hleft] at left
      rw [hright] at right
      cases left
      cases right
      obtain ⟨k, hk, hnear'⟩ := near hends
      rw [bind_of_eq_ok (Reader.next_of_ok hleft), bind_of_eq_ok (Reader.next_of_ok hright)]
      exact pace.weaken (hgo k hk) hk.le _ _ hnear'

/-! ## Marks -/

theorem stop_of_near : ∀ a b, Near n a b → Stop a b := fun _ _ h => pace.stop h

theorem stop_of_at : ∀ a b, pace.At token token' n a b → Stop a b := fun _ _ h => pace.stop h.1

theorem alike_expect {mark : Delimiter} (hline : mark ≠ .endOfLine)
    (hscript : mark ≠ .endOfScript) (symbol : Char) :
    pace.Alike n (Reader.expect mark symbol) (Reader.expect mark symbol) := by
  refine pace.next_bind (fun token token' agree hends => ?_) fun token token' agree _ k _ => ?_
  · rw [agree.is_eq, is_eq_false_of_endsStatement hends hline hscript]
    exact readPaired_refuse (congrArg (ParseError.expectedDelimiter symbol) agree.describe_fold_eq)
      fun _ _ h => h
  · rw [agree.is_eq]
    cases token.is mark with
    | true => exact paired_pure rfl
    | false =>
        exact readPaired_refuse
          (congrArg (ParseError.expectedDelimiter symbol) agree.describe_fold_eq)
          pace.stop_of_near

theorem alike_expectEnd : pace.Alike n Reader.expectEnd Reader.expectEnd := by
  refine pace.peek_bind fun token token' agree => ?_
  rw [agree.endsStatement_eq]
  cases token.endsStatement with
  | true => exact pace.of_near (paired_pure rfl)
  | false =>
      exact readPaired_refuse (congrArg ParseError.trailingTokens agree.describe_fold_eq)
        pace.stop_of_at

end Pacing

end MatrixScript
