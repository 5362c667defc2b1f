import MatrixScript.Proofs.Lexing.Trail

/-!
# Looking ahead

A lexer answers calls one after another, and a call that only looks at a token moves the cursor
past it all the same.  Two lexers of which one has looked ahead (`LooksAhead`) give the same
answers from then on, because the token that was looked at is what the other one takes next,
and because a jump makes both forget it.  So the calls that look ahead can be left out of any
sequence in which they succeed, and nothing else changes.
-/

namespace MatrixScript

namespace Lexer

/-- What can be asked of a lexer on the way through its source. -/
inductive Call where
  | next
  | peek
  | seek (cursor : Cursor)
  | reset
  deriving DecidableEq, Repr

/-- The token or the error that a call gives, if it gives any, and the lexer afterwards. -/
def Call.perform (lexer : Lexer) : Call → Option (Except ParseError Token) × Lexer
  | .next => (some lexer.next.outcome, lexer.next.lexer)
  | .peek => (some lexer.peek.outcome, lexer.peek.lexer)
  | .seek cursor => (none, lexer.seek cursor)
  | .reset => (none, lexer.reset)

/-- What is seen of a call: what it gives, and the line on which an error would be reported
after it. -/
structure Answer where
  call : Call
  outcome : Option (Except ParseError Token)
  line : Nat
  deriving DecidableEq

/-- The answers of one lexer to a sequence of calls. -/
def answers (lexer : Lexer) : List Call → List Answer
  | [] => []
  | call :: calls =>
      let (outcome, lexer') := call.perform lexer
      ⟨call, outcome, lexer'.line⟩ :: lexer'.answers calls

/-- If this was a call to look ahead, it has found a token. -/
def Answer.LooksWell (answer : Answer) : Prop :=
  answer.call = .peek → ∃ token, answer.outcome = some (.ok token)

instance (outcome : Option (Except ParseError Token)) :
    Decidable (∃ token, outcome = some (.ok token)) :=
  match outcome with
  | some (.ok token) => isTrue ⟨token, rfl⟩
  | some (.error _) => isFalse (by simp)
  | none => isFalse (by simp)

instance (answer : Answer) : Decidable answer.LooksWell :=
  inferInstanceAs (Decidable (_ → _))

/-! ## One of two lexers has looked ahead -/

/-- The first lexer may have looked at a token, and else the two are the same. -/
def LooksAhead (ahead lexer : Lexer) : Prop :=
  ahead = lexer ∨ ∃ token, lexer.peek.outcome = .ok token ∧ ahead = lexer.peek.lexer

namespace LooksAhead

variable {ahead lexer : Lexer}

theorem next (h : LooksAhead ahead lexer) :
    ahead.next.outcome = lexer.next.outcome ∧ ahead.next.lexer = lexer.next.lexer := by
  obtain rfl | ⟨token, hpeek, rfl⟩ := h
  · exact ⟨rfl, rfl⟩
  · obtain ⟨hnext, hnext', hlexer⟩ := next_peek hpeek
    exact ⟨hnext'.trans hnext.symm, hlexer⟩

theorem seek (h : LooksAhead ahead lexer) (cursor : Cursor) :
    ahead.seek cursor = lexer.seek cursor := by
  obtain rfl | ⟨_, _, rfl⟩ := h
  · rfl
  · simp only [Lexer.seek, source_peek, params_peek]

/-- Looking twice is looking once. -/
theorem peek (h : LooksAhead ahead lexer) {token : Token}
    (hpeek : ahead.peek.outcome = .ok token) : LooksAhead ahead.peek.lexer lexer := by
  obtain rfl | ⟨seen, hseen, rfl⟩ := h
  · exact .inr ⟨token, hpeek, rfl⟩
  · rw [peek_of_peeked (peeked_peek hseen)]
    exact .inr ⟨seen, hseen, rfl⟩

/-- A call that does not look ahead gives the same on both lexers, and makes them equal. -/
theorem perform (h : LooksAhead ahead lexer) {call : Call} (hcall : call ≠ .peek) :
    call.perform ahead = call.perform lexer := by
  cases call with
  | next => rw [Call.perform, Call.perform, h.next.1, h.next.2]
  | peek => exact absurd rfl hcall
  | seek cursor => rw [Call.perform, Call.perform, h.seek cursor]
  | reset => rw [Call.perform, Call.perform, Lexer.reset, h.seek, Lexer.reset]

/-- The lexer that does not look ahead answers all other calls as the one that does. -/
theorem answers (h : LooksAhead ahead lexer) (calls : List Call)
    (hlooks : ∀ answer ∈ ahead.answers calls, answer.LooksWell) :
    lexer.answers (calls.filter (· ≠ .peek)) =
      (ahead.answers calls).filter (·.call ≠ .peek) := by
  -- a call to look ahead keeps the relation, and any other makes the two lexers equal
  induction calls generalizing ahead lexer with
  | nil => rfl
  | cons call calls ih =>
      rw [Lexer.answers] at hlooks ⊢
      obtain ⟨hhead, htail⟩ := List.forall_mem_cons.mp hlooks
      by_cases hcall : call = .peek
      · subst hcall
        obtain ⟨token, htoken⟩ := hhead rfl
        have hahead : LooksAhead ahead.peek.lexer lexer := h.peek (Option.some.inj htoken)
        rw [List.filter_cons_of_neg (by simp), List.filter_cons_of_neg (by simp)]
        exact ih hahead htail
      · rw [List.filter_cons_of_pos (by simpa using hcall),
          List.filter_cons_of_pos (by simpa using hcall), Lexer.answers, ← h.perform hcall]
        exact congrArg _ (ih (.inl rfl) htail)

end LooksAhead

/-! ## The token that was looked at -/

/-- While a token is in lookahead, looking again changes nothing, and so it is taken next. -/
theorem answers_of_peeked {lexer : Lexer} {token : Token} (h : lexer.peeked = some token)
    {calls : List Call} {k : Nat} (hnext : calls[k]? = some .next)
    (hpeeks : ∀ l < k, calls[l]? = some .peek) :
    (lexer.answers calls)[k]? = some ⟨.next, some (.ok token), token.start.line⟩ := by
  -- the lexer stays the same up to call `k`, so only the calls get shorter
  induction k generalizing calls with
  | zero =>
      obtain ⟨rest, rfl⟩ := List.head?_eq_some_iff.mp (List.head?_eq_getElem? ▸ hnext)
      simp only [answers, Call.perform, next_of_peeked h, List.getElem?_cons_zero]
  | succ k ih =>
      obtain ⟨rest, rfl⟩ :=
        List.head?_eq_some_iff.mp (List.head?_eq_getElem? ▸ hpeeks 0 k.succ_pos)
      rw [answers, Call.perform, peek_of_peeked h]
      exact ih hnext fun l hl => hpeeks (l + 1) (Nat.succ_lt_succ hl)

/-- A token that was looked at is the one that is taken next. -/
theorem answers_next_of_peek {lexer : Lexer} {token : Token} {calls : List Call} {i k : Nat}
    {line : Nat} (hik : i < k) (hnext : calls[k]? = some .next)
    (hpeeks : ∀ l, i < l → l < k → calls[l]? = some .peek)
    (hseen : (lexer.answers calls)[i]? = some ⟨.peek, some (.ok token), line⟩) :
    (lexer.answers calls)[k]? = some ⟨.next, some (.ok token), token.start.line⟩ := by
  induction calls generalizing lexer i k with
  | nil => cases hnext
  | cons call calls ih =>
      obtain ⟨k, rfl⟩ := Nat.exists_eq_succ_of_ne_zero (Nat.ne_of_gt (Nat.zero_lt_of_lt hik))
      cases i with
      | zero =>
          obtain ⟨rfl, houtcome, _⟩ := Answer.mk.inj (Option.some.inj hseen)
          exact answers_of_peeked (peeked_peek (Option.some.inj houtcome)) hnext
            fun l hl => hpeeks (l + 1) l.succ_pos (Nat.succ_lt_succ hl)
      | succ i =>
          exact ih (Nat.lt_of_succ_lt_succ hik) hnext
            (fun l hil hlk => hpeeks (l + 1) (Nat.succ_lt_succ hil) (Nat.succ_lt_succ hlk)) hseen

/-- Lookahead is transparent: in every sequence of calls in which no call to look ahead fails,
these calls can be left out, and the others give the same tokens, errors and lines.  What a call
to look ahead finds is what the next call to take a token gives, unless a jump comes between. -/
theorem lookahead_transparent (lexer : Lexer) (calls : List Call) :
    ((∀ answer ∈ lexer.answers calls, answer.LooksWell) →
      lexer.answers (calls.filter (· ≠ .peek)) =
        (lexer.answers calls).filter (·.call ≠ .peek)) ∧
    ∀ (i k : Nat) (token : Token) (line : Nat), i < k → calls[k]? = some .next →
      (∀ l, i < l → l < k → calls[l]? = some .peek) →
      (lexer.answers calls)[i]? = some ⟨.peek, some (.ok token), line⟩ →
      (lexer.answers calls)[k]? = some ⟨.next, some (.ok token), token.start.line⟩ :=
  ⟨LooksAhead.answers (.inl rfl) calls, fun _ _ _ _ => answers_next_of_peek⟩

/-- Here the end of a line is looked at twice before it is taken, a mark that is no token comes
next, and two jumps make the lexer forget what it has looked at. -/
theorem lookahead_transparent_detour :
    let lexer : Lexer := { source := "A\n% B".toList, params := [] }
    let calls : List Call := [.peek, .next, .peek, .peek, .next, .next, .peek, .seek ⟨3, 2⟩,
      .next, .peek, .reset, .next]
    (∀ answer ∈ lexer.answers calls, answer.LooksWell) ∧
      lexer.answers [.next, .next, .next, .seek ⟨3, 2⟩, .next, .reset, .next] =
        (lexer.answers calls).filter (·.call ≠ .peek) ∧
      (lexer.answers calls)[2]? =
        some ⟨.peek, some (.ok ⟨.delimiter .endOfLine, "\n", ⟨1, 1⟩⟩), 1⟩ ∧
      (lexer.answers calls)[4]? =
        some ⟨.next, some (.ok ⟨.delimiter .endOfLine, "\n", ⟨1, 1⟩⟩), 1⟩ := by
  intro lexer calls
  have hlooks : ∀ answer ∈ lexer.answers calls, answer.LooksWell := by decide +kernel
  have hseen : (lexer.answers calls)[2]? =
      some ⟨.peek, some (.ok ⟨.delimiter .endOfLine, "\n", ⟨1, 1⟩⟩), 1⟩ := by decide +kernel
  have hpeeks : ∀ l, 2 < l → l < 4 → calls[l]? = some .peek := by
    intro l hfirst hlast
    obtain rfl : l = 3 := by omega
    rfl
  obtain ⟨hsame, hnext⟩ := lookahead_transparent lexer calls
  exact ⟨hlooks, hsame hlooks, hseen, hnext 2 4 _ 1 (by decide) rfl hpeeks hseen⟩

end Lexer

end MatrixScript
