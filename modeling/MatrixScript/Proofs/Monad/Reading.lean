import MatrixScript.Proofs.Lexing.Stream
import MatrixScript.Proofs.Monad.Outcome

/-!
# Reading tokens

What the reading operations do to the lexer, whatever they note in the journal.
The lemmas come in two forms: run forwards when the upcoming tokens are known
(`next_of_upcoming`, `peek_of_upcoming`), and read off a run that went well
(`reads_of_next`, `reads_of_peek`).
-/

namespace MatrixScript

namespace Reader

open Lexer

variable {r r' : Reader} {token : Token} {tokens : List Token}

theorem next_of_ok (h : r.lexer.next.outcome = .ok token) :
    next r = .ok token ⟨r.lexer.next.lexer, r.journal ++ r.lexer.next.notes⟩ := by
  simp only [next, perform, h]

theorem next_of_error {e : ParseError} (h : r.lexer.next.outcome = .error e) :
    next r = .error (.parse e) ⟨r.lexer.next.lexer, r.journal ++ r.lexer.next.notes⟩ := by
  simp only [next, perform, h]

theorem peek_of_ok (h : r.lexer.peek.outcome = .ok token) :
    peek r = .ok token ⟨r.lexer.peek.lexer, r.journal ++ r.lexer.peek.notes⟩ := by
  simp only [peek, perform, h]

theorem peek_of_error {e : ParseError} (h : r.lexer.peek.outcome = .error e) :
    peek r = .error (.parse e) ⟨r.lexer.peek.lexer, r.journal ++ r.lexer.peek.notes⟩ := by
  simp only [peek, perform, h]

/-! ## Forwards -/

theorem next_of_upcoming (h : r.lexer.Upcoming (token :: tokens)) :
    ∃ r', next r = .ok token r' ∧ Reads r.lexer [token] r'.lexer ∧
      r'.lexer.Upcoming tokens :=
  ⟨_, next_of_ok h.1, .next h.1, h.2⟩

theorem peek_of_upcoming (h : r.lexer.Upcoming (token :: tokens)) :
    ∃ r', peek r = .ok token r' ∧ Reads r.lexer [] r'.lexer ∧
      r'.lexer.Upcoming (token :: tokens) := by
  have hpeek := peek_of_next h.1
  exact ⟨_, peek_of_ok hpeek, .peek hpeek, (upcoming_peek hpeek).mpr h⟩

/-! ## Backwards -/

theorem reads_of_next (h : next r = .ok token r') :
    r.lexer.next.outcome = .ok token ∧ r'.lexer = r.lexer.next.lexer := by
  cases hnext : r.lexer.next.outcome with
  | ok t => rw [next_of_ok hnext] at h; cases h; exact ⟨rfl, rfl⟩
  | error e => rw [next_of_error hnext] at h; cases h

theorem reads_of_peek (h : peek r = .ok token r') :
    r.lexer.peek.outcome = .ok token ∧ r'.lexer = r.lexer.peek.lexer := by
  cases hpeek : r.lexer.peek.outcome with
  | ok t => rw [peek_of_ok hpeek] at h; cases h; exact ⟨rfl, rfl⟩
  | error e => rw [peek_of_error hpeek] at h; cases h

/-! ## Moves -/

/-- The lexer is moved without jumps. -/
def Moves (r r' : Reader) : Prop :=
  Lexer.Moves (fun _ => False) r.lexer r'.lexer

instance : Std.Refl Moves := ⟨fun _ => Lexer.Moves.refl⟩

instance : IsTrans Reader Moves := ⟨fun _ _ _ => Lexer.Moves.trans⟩

theorem evolves_next : Evolves Moves next := by
  intro r
  cases hnext : r.lexer.next.outcome with
  | ok token => rw [next_of_ok hnext]; exact (Move.next _).moves
  | error e => rw [next_of_error hnext]; exact (Move.next _).moves

theorem evolves_peek : Evolves Moves peek := by
  intro r
  cases hpeek : r.lexer.peek.outcome with
  | ok token => rw [peek_of_ok hpeek]; exact (Move.peek _).moves
  | error e => rw [peek_of_error hpeek]; exact (Move.peek _).moves

theorem evolves_skipLine : Evolves Moves skipLine :=
  fun _ => (Move.skipLine _).moves

theorem evolves_note (level : Level) (text : String) : Evolves Moves (note level text) :=
  fun _ => Lexer.Moves.refl

theorem evolves_refuse {α : Type} (cause : ParseError) :
    Evolves Moves (refuse cause : ReadM α) :=
  evolves_throw _

theorem evolves_ofParse {α : Type} (result : Except ParseError α) :
    Evolves Moves (ofParse result) := by
  cases result with
  | ok value => exact evolves_pure value
  | error e => exact evolves_refuse e

theorem evolves_expect (mark : Delimiter) (symbol : Char) :
    Evolves Moves (expect mark symbol) := by
  refine evolves_next.bind fun token => ?_
  split
  · exact evolves_pure _
  · exact evolves_refuse _

theorem evolves_expectEnd : Evolves Moves expectEnd := by
  refine evolves_peek.bind fun token => ?_
  split
  · exact evolves_pure _
  · exact evolves_refuse _

theorem returns_ofParse {α : Type} {P : α → Prop} {result : Except ParseError α}
    (h : ∀ a, result = .ok a → P a) : Returns P (ofParse result) := by
  cases result with
  | ok value => exact returns_pure (h value rfl)
  | error e => exact returns_throw _

end Reader

namespace ReadM

theorem returns_ofExcept {α : Type} {P : α → Prop} {result : Except Error α}
    (h : ∀ a, result = .ok a → P a) : Returns P (ofExcept result) := by
  cases result with
  | ok value => exact returns_pure (h value rfl)
  | error e => exact returns_throw e

theorem returns_ofMatrix {α : Type} {P : α → Prop} {result : Except (MatrixError Float) α}
    (h : ∀ a, result = .ok a → P a) : Returns P (ofMatrix result) := by
  cases result with
  | ok value => exact returns_pure (h value rfl)
  | error e => exact returns_throw _

theorem evolves_ofExcept {α : Type} (result : Except Error α) :
    Evolves Reader.Moves (ofExcept result) := by
  cases result with
  | ok value => exact evolves_pure value
  | error e => exact evolves_throw e

theorem evolves_ofMatrix {α : Type} (result : Except (MatrixError Float) α) :
    Evolves Reader.Moves (ofMatrix result) := by
  cases result with
  | ok value => exact evolves_pure value
  | error e => exact evolves_throw _

end ReadM

end MatrixScript
