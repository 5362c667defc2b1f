import Mathlib.Data.Set.Finite.Lattice
import MatrixScript.Proofs.Run.Cursors
import MatrixScript.Proofs.Run.Termination

/-!
# Steps go forward

A step that does not jump leaves fewer characters ahead than there were before it
(`ahead_step_lt`), so its place in the script is further on.  A run of steps without a jump is
therefore no longer than the script (`length_le_of_forward`), and a run that jumps only finitely
often comes to its end (`ends_of_finite_jumps`).
-/

namespace MatrixScript

open Lexer Cursor

/-- Of two places, the one with fewer characters after it comes later. -/
theorem Lexer.offset_lt_of_charsFrom_lt {source : List Char} {cursor cursor' : Cursor}
    (h : IsPlace source cursor) (h' : IsPlace source cursor')
    (hlt : charsFrom source cursor' < charsFrom source cursor) :
    cursor.offset < cursor'.offset := by
  obtain ⟨before, rest, rfl, rfl⟩ := h
  obtain ⟨before', rest', hsplit, rfl⟩ := h'
  rw [charsFrom_after, hsplit, charsFrom_after] at hlt
  have hlength := congrArg List.length hsplit
  simp only [List.length_append] at hlength
  -- One beginning of the script goes on where the other one ends.
  obtain ⟨more, rfl⟩ : before <+: before' := by
    apply List.prefix_of_prefix_length_le (List.prefix_append before rest)
    · rw [hsplit]
      exact List.prefix_append before' rest'
    · omega
  have hmore := length_le_byteLength more
  rw [List.length_append] at hlength
  rw [offset_after, offset_after, byteLength_append]
  omega

namespace Machine

/-! ## Reachable machines -/

/-- The machines of a script: a new one, and those that runs leave after any number of steps.
Before a run the limits can be replaced, and the files and the input can change. -/
inductive Reachable (source : String) (params : List String) : Machine → Prop where
  | new (limits : Limits) (world : World) :
      Reachable source params (.new source params limits world)
  | limited {m : Machine} (limits : Limits) (h : Reachable source params m) :
      Reachable source params
        { m with limits := limits, loops := { capacity := limits.maxLoopDepth } }
  | changed {m : Machine} (world : World) (h : Reachable source params m) :
      Reachable source params { m with world := world }
  | ran {m : Machine} (steps : Nat) (h : Reachable source params m) :
      Reachable source params (run steps m).2

theorem Reachable.located {source : String} {params : List String} {m : Machine}
    (h : Reachable source params m) : Located source.toList params m := by
  induction h with
  | new limits world => exact located_new source params limits world Store.empty
  | limited limits _ ih =>
      refine { ih with markers := ?_, depth := Nat.zero_le _, capacity := rfl }
      intro marker hmarker
      cases hmarker
  | changed world _ ih => exact { ih with }
  | ran steps _ ih => exact ih.run steps

/-! ## Single steps -/

/-- The next statement is a jump: `goto`, or the end of a loop. -/
def AtJump (m : Machine) : Prop :=
  ∃ token, m.reader.lexer.next.outcome = .ok token ∧
    (token.kind = .command .goto ∨ token.kind = .command .endWhile)

variable {m m' : Machine} {token : Token} {source : List Char} {params : List String}

theorem Effect.moves_of_ne_jump {α : Type} {a : α}
    (h : Effect token m (.ok a m' : EStateM.Result Error Machine α))
    (hgoto : token.kind ≠ .command .goto) (hreturn : token.kind ≠ .command .endWhile) :
    Moves (fun _ => False) m.reader.lexer m'.reader.lexer := by
  cases h with
  | quiet hquiet => exact hquiet.1
  | wrote hwrote =>
      obtain ⟨_, _, _, hmoves, _, rfl⟩ := hwrote
      exact hmoves
  | assigned _ _ hmoves => exact hmoves
  | loaded _ _ _ hmoves => exact hmoves
  | jumped hkind => exact absurd hkind hgoto
  | opened _ _ hmoves hfinal =>
      rw [show m' = _ from hfinal]
      exact hmoves
  | returned hkind => exact absurd hkind hreturn

/-- A step takes the first token of its statement, and without a jump nothing brings it back. -/
theorem ahead_step_lt (hsound : m.reader.lexer.Sound) (hstep : step m = .ok none m')
    (hjump : ¬ m.AtJump) : m'.reader.lexer.ahead < m.reader.lexer.ahead := by
  rcases step_effect m with ⟨e, herror⟩ | ⟨token, hnext, heffect⟩
  · rw [herror] at hstep
    cases hstep
  have hend : token.kind ≠ .delimiter .endOfScript := by
    intro hkind
    rw [step_of_next hnext, statement, hkind] at hstep
    cases hstep
  rw [hstep] at heffect
  have hmoves := heffect.moves_of_ne_jump (fun hkind => hjump ⟨token, hnext, .inl hkind⟩)
    (fun hkind => hjump ⟨token, hnext, .inr hkind⟩)
  calc m'.reader.lexer.ahead
      ≤ m.taken.reader.lexer.ahead := hmoves.ahead_le hsound.next
    _ < m.reader.lexer.ahead := hsound.ahead_next_lt hnext hend

theorem position_step_lt (hm : Located source params m) (hstep : step m = .ok none m')
    (hjump : ¬ m.AtJump) :
    m.reader.lexer.position.offset < m'.reader.lexer.position.offset := by
  have hm' := hm.step
  rw [hstep, finalState_ok] at hm'
  have hlt := ahead_step_lt hm.sound hstep hjump
  rw [ahead, ahead, hm.source_eq, hm'.source_eq] at hlt
  apply offset_lt_of_charsFrom_lt _ _ hlt
  · exact hm.source_eq ▸ hm.sound.position
  · exact hm'.source_eq ▸ hm'.sound.position

/-! ## Steps of a run -/

/-- The run from the start makes a jump after `count` other steps. -/
def JumpsAt (m : Machine) (count : Nat) : Prop :=
  (run count m).1 = none ∧ (run count m).2.AtJump

theorem run_of_prepare_error {e : ScriptError} (h : (prepare m).1 = .error e) (fuel : Nat) :
    run fuel m = (some (.error e), (prepare m).2) := by
  unfold run
  rcases hfound : prepare m with ⟨result, stopped⟩
  rw [hfound] at h
  cases h
  rfl

theorem runFrom_add {count : Nat} (h : (runFrom count m).1 = none) (more : Nat) :
    runFrom (count + more) m = runFrom more (runFrom count m).2 := by
  induction count generalizing m with
  | zero => rw [Nat.zero_add, runFrom]
  | succ count ih =>
      rw [Nat.add_right_comm, runFrom, runFrom]
      rw [runFrom] at h
      cases hstep : step m with
      | error e m₁ => rw [hstep] at h; cases h
      | ok outcome m₁ =>
          rw [hstep] at h
          cases outcome with
          | some outcome => cases h
          | none => exact ih h

/-- A run that goes on makes one step more. -/
theorem step_of_run {count : Nat} (h : (run count m).1 = none) (h' : (run (count + 1) m).1 = none) :
    step (run count m).2 = .ok none (run (count + 1) m).2 := by
  cases hready : (prepare m).1 with
  | error e =>
      rw [run_of_prepare_error hready] at h
      cases h
  | ok ready =>
      rw [run_of_prepare hready] at h h' ⊢
      rw [run_of_prepare hready]
      rw [runFrom_add h] at h' ⊢
      rw [runFrom] at h' ⊢
      cases hstep : step (runFrom count ready).2 with
      | error e m₁ => rw [hstep] at h'; cases h'
      | ok outcome m₁ =>
          rw [hstep] at h'
          cases outcome with
          | some outcome => cases h'
          | none => rfl

/-- Steps without a jump use up the characters ahead. -/
theorem ahead_add_le {first count : Nat} (hm : Located source params m)
    (hruns : ∀ k, first ≤ k → k ≤ first + count → (run k m).1 = none)
    (hjumps : ∀ k, first ≤ k → k < first + count → ¬ m.JumpsAt k) :
    (run (first + count) m).2.reader.lexer.ahead + count ≤
      (run first m).2.reader.lexer.ahead := by
  induction count with
  | zero => exact Nat.le_refl _
  | succ count ih =>
      have hle := ih (fun k hk hk' => hruns k hk (by omega)) fun k hk hk' => hjumps k hk (by omega)
      have hnow := hruns (first + count) (by omega) (by omega)
      have hstep := step_of_run hnow (hruns (first + count + 1) (by omega) (by omega))
      have hjump : ¬ (run (first + count) m).2.AtJump := fun hat =>
        hjumps (first + count) (by omega) (by omega) ⟨hnow, hat⟩
      have hlt := ahead_step_lt (hm.run _).sound hstep hjump
      show (run (first + count + 1) m).2.reader.lexer.ahead + (count + 1) ≤ _
      omega

/-- A run makes at most one step more than the script has characters before it jumps or ends. -/
theorem count_le_of_forward {first count : Nat} (hm : Located source params m)
    (hforward : ∀ k, first ≤ k → k < first + count → (run k m).1 = none ∧ ¬ m.JumpsAt k) :
    count ≤ source.length + 1 := by
  cases count with
  | zero => exact Nat.zero_le _
  | succ count =>
      have hle : (run (first + count) m).2.reader.lexer.ahead + count ≤
          (run first m).2.reader.lexer.ahead :=
        ahead_add_le hm (fun k hk hk' => (hforward k hk (by omega)).1)
          fun k hk hk' => (hforward k hk (by omega)).2
      have hnow := hm.run first
      have hahead : (run first m).2.reader.lexer.ahead ≤ source.length := by
        rw [← hnow.source_eq]
        exact charsFrom_le_length hnow.sound.position
      omega

/-- A run that goes on for ever jumps infinitely often. -/
theorem ends_of_finite_jumps (hm : Located source params m)
    (hjumps : {count | m.JumpsAt count}.Finite) : ∃ fuel result, (run fuel m).1 = some result := by
  obtain ⟨last, hlast⟩ := hjumps.bddAbove
  by_contra hnever
  have hruns (k : Nat) : (run k m).1 = none := by
    rw [Option.eq_none_iff_forall_ne_some]
    exact fun result hresult => hnever ⟨k, result, hresult⟩
  have hforward (k : Nat) (hk : last + 1 ≤ k) (_ : k < last + 1 + (source.length + 2)) :
      (run k m).1 = none ∧ ¬ m.JumpsAt k := by
    refine ⟨hruns k, fun hjump => ?_⟩
    have hle := hlast hjump
    omega
  have hcount := count_le_of_forward hm hforward
  omega

/-! ## Whole runs -/

/-- Every step of a reachable machine ends, whatever is done at the bounds of its recursions, and
so does collecting the labels.  Unless it jumps or ends the run, a step that succeeds goes forward
in the script.  So there are at most as many steps from one jump to the next as the script has
bytes, and one more, and a run with finitely many jumps comes to its end. -/
theorem run_progress {source : String} {params : List String} {m : Machine}
    (h : Reachable source params m) :
    stepWith .standard = step ∧ (∀ fallback, stepWith fallback m = step m) ∧
    (∀ fallback, LabelIndex.collectWith fallback = LabelIndex.collect) ∧
    (∀ m', step m = .ok none m' → ¬ m.AtJump →
      m.reader.lexer.position.offset < m'.reader.lexer.position.offset) ∧
    (∀ first count,
      (∀ k, first ≤ k → k < first + count → (run k m).1 = none ∧ ¬ m.JumpsAt k) →
        count ≤ source.utf8ByteSize + 1) ∧
    ({count | m.JumpsAt count}.Finite → ∃ fuel result, (run fuel m).1 = some result) := by
  have hm := h.located
  refine ⟨stepWith_standard, fun fallback => stepWith_eq fallback m hm.sound,
    LabelIndex.collectWith_eq, fun m' => position_step_lt hm, ?_, ends_of_finite_jumps hm⟩
  intro first count hforward
  have hcount := count_le_of_forward hm hforward
  have hbytes : source.toList.length ≤ source.utf8ByteSize := by
    have hle := length_le_byteLength source.toList
    rwa [byteLength_eq_utf8ByteSize, String.ofList_toList] at hle
  omega

/-- A script that runs for ever: it goes from its end back to its start. -/
def circular : Machine :=
  .new ":x goto x" [] {} {}

theorem run_progress_circular :
    Reachable ":x goto x" [] circular ∧ ¬ circular.AtJump ∧ circular.JumpsAt 1 ∧
      ∃ m', step circular = .ok none m' ∧
        circular.reader.lexer.position.offset < m'.reader.lexer.position.offset := by
  have hnext : circular.reader.lexer.next.outcome = .ok ⟨.label, "x", ⟨0, 1⟩⟩ := by decide
  have hstep : step circular = .ok none circular.taken := step_of_next hnext
  have hjump : ¬ circular.AtJump := by
    rintro ⟨token, htoken, hkind⟩
    rw [hnext] at htoken
    cases htoken
    rcases hkind with hkind | hkind <;> cases hkind
  have hjumps : circular.JumpsAt 1 :=
    ⟨rfl, ⟨.command .goto, "goto", ⟨3, 1⟩⟩, by decide, .inl rfl⟩
  have hreachable : Reachable ":x goto x" [] circular := .new {} {}
  obtain ⟨_, _, _, hforward, _⟩ := run_progress hreachable
  exact ⟨hreachable, hjump, hjumps, circular.taken, hstep, hforward _ hstep hjump⟩

end Machine

end MatrixScript
