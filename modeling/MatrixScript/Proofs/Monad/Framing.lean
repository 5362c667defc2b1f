import MatrixScript.Proofs.Monad.Outcome

/-!
# Framing

What a program does not look at can be added to its state: the program does the same,
and what was added is still there in the end.  `Frames` is that property, and everything
that reads has it for the journal, to which notes are only ever added at the end.
-/

namespace MatrixScript

variable {ε σ α β : Type}

/-- The outcome with its state changed by `f`. -/
def mapState (f : σ → σ) : EStateM.Result ε σ α → EStateM.Result ε σ α
  | .ok a s => .ok a (f s)
  | .error e s => .error e (f s)

/-- The program does the same before and after `f` has added something to the state,
and the addition stays. -/
def Frames (f : σ → σ) (x : EStateM ε σ α) : Prop :=
  ∀ s, x (f s) = mapState f (x s)

section Frames

variable {f : σ → σ}

theorem frames_pure (a : α) : Frames f (pure a : EStateM ε σ α) := fun _ => rfl

theorem frames_throw (e : ε) : Frames f (throw e : EStateM ε σ α) := fun _ => rfl

theorem Frames.bind {x : EStateM ε σ α} {g : α → EStateM ε σ β} (hx : Frames f x)
    (hg : ∀ a, Frames f (g a)) : Frames f (x >>= g) := by
  intro s
  have hfirst := hx s
  cases hxs : x s with
  | ok a t =>
      rw [hxs] at hfirst
      rw [bind_of_eq_ok hfirst, bind_of_eq_ok hxs]
      exact hg a t
  | error e t =>
      rw [hxs] at hfirst
      rw [bind_of_eq_error hfirst, bind_of_eq_error hxs]
      rfl

theorem Frames.map {x : EStateM ε σ α} (g : α → β) (hx : Frames f x) : Frames f (g <$> x) := by
  rw [map_eq_bind]
  exact hx.bind fun a => frames_pure (g a)

/-- A program may look at what the addition leaves as it is. -/
theorem frames_get_bind {g : σ → EStateM ε σ β} (hsame : ∀ s, g (f s) = g s)
    (hg : ∀ s, Frames f (g s)) : Frames f ((get : EStateM ε σ σ) >>= g) := by
  intro s
  rw [get_bind_apply, get_bind_apply, hsame]
  exact hg s s

theorem frames_modify {change : σ → σ} (h : ∀ s, change (f s) = f (change s)) :
    Frames f (modify change : EStateM ε σ Unit) := by
  intro s
  show EStateM.Result.ok () (change (f s)) = .ok () (f (change s))
  rw [h]

end Frames

/-! ## Reading -/

namespace Reader

/-- The reader with a journal that came before. -/
def preceded (journal : Journal) (reader : Reader) : Reader :=
  { reader with journal := journal ++ reader.journal }

variable {journal : Journal}

theorem frames_perform (read : Lexer → Lexer.Reading α) :
    Frames (preceded journal) (perform read) := by
  intro reader
  have hnotes : journal ++ reader.journal ++ (read reader.lexer).notes =
      journal ++ (reader.journal ++ (read reader.lexer).notes) := by
    apply Array.ext'
    simp
  cases hread : (read reader.lexer).outcome with
  | ok value => simp only [perform, preceded, mapState, hread, hnotes]
  | error e => simp only [perform, preceded, mapState, hread, hnotes]

theorem frames_next : Frames (preceded journal) next := frames_perform Lexer.next

theorem frames_peek : Frames (preceded journal) peek := frames_perform Lexer.peek

theorem frames_skipLine : Frames (preceded journal) skipLine := fun _ => rfl

theorem frames_seek (cursor : Cursor) : Frames (preceded journal) (seek cursor) := fun _ => rfl

theorem frames_note (level : Level) (text : String) :
    Frames (preceded journal) (note level text) := by
  apply frames_modify
  intro reader
  simp [preceded]

theorem frames_refuse (cause : ParseError) :
    Frames (preceded journal) (refuse cause : ReadM α) := frames_throw _

theorem frames_ofParse (result : Except ParseError α) :
    Frames (preceded journal) (ofParse result) := by
  cases result with
  | ok value => exact frames_pure value
  | error e => exact frames_refuse e

theorem frames_expect (mark : Delimiter) (symbol : Char) :
    Frames (preceded journal) (expect mark symbol) := by
  apply frames_next.bind
  intro token
  split
  · exact frames_pure ()
  · exact frames_refuse _

theorem frames_expectEnd : Frames (preceded journal) expectEnd := by
  apply frames_peek.bind
  intro token
  split
  · exact frames_pure ()
  · exact frames_refuse _

end Reader

namespace ReadM

variable {journal : Journal}

theorem frames_ofExcept (result : Except Error α) :
    Frames (Reader.preceded journal) (ofExcept result) := by
  cases result with
  | ok value => exact frames_pure value
  | error e => exact frames_throw e

theorem frames_ofMatrix (result : Except (MatrixError Float) α) :
    Frames (Reader.preceded journal) (ofMatrix result) := by
  cases result with
  | ok value => exact frames_pure value
  | error e => exact frames_throw _

end ReadM

end MatrixScript
