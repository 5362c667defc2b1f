import MatrixScript.Proofs.Run.Cursors
import MatrixScript.Proofs.Structured.Conditions
import MatrixScript.Proofs.Structured.InPlace

/-!
# Scripts mean what their nested programs mean

The machine has no syntax tree: it has a cursor, and a stack of places to go back to.
`Runs.arrives` follows the meaning of a nested program with the steps of the machine,
and `Ready.exists_runs` finds the meaning from the number of steps that a run takes.
Together they give `run_iff_runs`.
-/

namespace MatrixScript

open Lexer Cursor Machine

/-- A machine before the first line of a program, with room for the loops of the
program. -/
structure Program.Ready (params : List String) (limits : Limits) (program : Program)
    (markers : List Cursor) (c : Config) (before : List Char) (after : List (List Char))
    (m : Machine) : Prop where
  wellFormed : program.WellFormed params
  areLines : AreLines (program.lines ++ after)
  room : markers.length + program.depth ≤ limits.maxLoopDepth
  stands : m.At params limits markers c before (program.lines ++ after).flatten

namespace Program

variable {params : List String} {limits : Limits} {markers : List Cursor} {c c' : Config}
  {before text head foot : List Char} {after : List (List Char)} {body next : Program}
  {m m' : Machine}

/-! ## Simple lines -/

section Line

variable (h : (Program.line text next).Ready params limits markers c before after m)
include h

theorem Ready.line_arrives :
    m.Arrives params limits markers (before ++ text) (next.lines ++ after).flatten
      (perform params limits c text) :=
  arrives_of_isSimple h.stands h.areLines.1 h.wellFormed.1

theorem Ready.line_next
    (hm' : m'.At params limits markers c' (before ++ text) (next.lines ++ after).flatten) :
    next.Ready params limits markers c' (before ++ text) after m' where
  wellFormed := h.wellFormed.2
  areLines := h.areLines.2
  room := h.room
  stands := hm'

end Line

/-! ## Blocks -/

/-- A machine before the first line of a block, with what the step there can do.  In the
body the loops are those of `opened`. -/
structure AtBlock (block : Flow.Block) (params : List String) (limits : Limits)
    (head : List Char) (body : Program) (foot : List Char) (next : Program)
    (markers opened : List Cursor) (c : Config) (before : List Char)
    (after : List (List Char)) (m : Machine) : Prop where
  known : block.IsKnown
  body_wellFormed : body.WellFormed params
  isFoot : IsFoot params block.closing foot
  next_wellFormed : next.WellFormed params
  areLines : AreLines (head :: (body.lines ++ foot :: (next.lines ++ after)))
  body_room : opened.length + body.depth ≤ limits.maxLoopDepth
  next_room : markers.length + next.depth ≤ limits.maxLoopDepth
  branches : Branches block params limits markers opened c (before ++ head)
    (body.lines ++ foot :: (next.lines ++ after)).flatten m (test params limits c head)

section AtBlock

variable {block : Flow.Block} {opened : List Cursor}
  (h : AtBlock block params limits head body foot next markers opened c before after m)
include h

theorem AtBlock.foot_isLine : IsLine foot (next.lines ++ after).flatten :=
  h.areLines.2.of_append.1

theorem AtBlock.next_ready
    (hm' : m'.At params limits markers c' (before ++ head ++ (body.lines.flatten ++ foot))
      (next.lines ++ after).flatten) :
    next.Ready params limits markers c' (before ++ head ++ (body.lines.flatten ++ foot)) after m' :=
  ⟨h.next_wellFormed, h.areLines.2.of_append.2, h.next_room, hm'⟩

theorem AtBlock.enters (htest : test params limits c head = .ok true) :
    ∃ count m', Steps (count + 1) m m' ∧
      body.Ready params limits opened c (before ++ head) (foot :: (next.lines ++ after)) m' := by
  have hbranches := h.branches
  rw [htest] at hbranches
  obtain ⟨m₁, hstep, hnear⟩ := hbranches
  obtain ⟨count, m', hsteps, hm'⟩ := hnear.arrives
  exact ⟨count, m', .step hstep hsteps, h.body_wellFormed, h.areLines.2, h.body_room, hm'⟩

theorem AtBlock.skips (htest : test params limits c head = .ok false) :
    ∃ count m', Steps count m m' ∧ next.Ready params limits markers c
      (before ++ head ++ (body.lines.flatten ++ foot)) after m' := by
  have hbranches := h.branches
  rw [htest] at hbranches
  obtain ⟨m₁, hstep, hnear⟩ := hbranches.skips h.known (body.passable h.body_wellFormed) h.isFoot
    h.areLines.2
  obtain ⟨count, m', hsteps, hm'⟩ := hnear.arrives
  exact ⟨_, m', .step hstep hsteps, h.next_ready hm'⟩

theorem AtBlock.fails {e : Error} (htest : test params limits c head = .error e)
    (place : List Char) (rest : List Char) :
    m.Arrives params limits markers place rest (.error e c) := by
  have hbranches := h.branches
  rw [htest] at hbranches
  obtain ⟨m', hstep, hconfig⟩ := hbranches
  exact ⟨0, m, m', .refl m, hstep, hconfig⟩

end AtBlock

theorem lines_block_append (head foot : List Char) (body next after : List (List Char)) :
    head :: (body ++ foot :: next) ++ after = head :: (body ++ foot :: (next ++ after)) := by
  simp

section If

variable (h : (Program.ifBlock head body foot next).Ready params limits markers c before after m)
include h

theorem Ready.atIf :
    AtBlock .ifBlock params limits head body foot next markers markers c before after m := by
  obtain ⟨⟨hhead, hbody, hfoot, hnext⟩, hlines, hroom, hstands⟩ := h
  rw [lines, lines_block_append] at hlines hstands
  rw [List.flatten_cons] at hstands
  rw [depth] at hroom
  exact ⟨.inl rfl, hbody, hfoot, hnext, hlines, by omega, by omega,
    step_if hstands hlines.1 hhead⟩

theorem Ready.if_leaves
    (hm' : m'.At params limits markers c' (before ++ head ++ body.lines.flatten)
      (foot :: (next.lines ++ after)).flatten) :
    ∃ count m'', Steps count m' m'' ∧ next.Ready params limits markers c'
      (before ++ head ++ (body.lines.flatten ++ foot)) after m'' := by
  obtain ⟨m₁, hstep, hnear⟩ := step_endIf hm' h.atIf.foot_isLine h.atIf.isFoot
  rw [List.append_assoc] at hnear
  obtain ⟨count, m'', hsteps, hm''⟩ := hnear.arrives
  exact ⟨_, m'', .step hstep hsteps, h.atIf.next_ready hm''⟩

end If

section While

variable (h : (Program.whileBlock head body foot next).Ready params limits markers c before after m)
include h

/-- A `while` is at its block, and wherever its body ends, the step at its last line
leads back to it. -/
theorem Ready.atWhile :
    ∃ opened, AtBlock .whileBlock params limits head body foot next markers opened c before after
        m ∧
      ∀ c' m', m'.At params limits opened c' (before ++ head ++ body.lines.flatten)
          (foot :: (next.lines ++ after)).flatten →
        ∃ m'', step m' = .ok none m'' ∧
          (Program.whileBlock head body foot next).Ready params limits markers c' before after
            m'' := by
  have ⟨⟨hhead, hbody, hfoot, hnext⟩, hlines, hroom, hstands⟩ := h
  rw [lines, lines_block_append] at hlines hstands
  rw [List.flatten_cons] at hstands
  rw [depth] at hroom
  obtain ⟨token, htoken, hbranches⟩ := step_while hstands hlines.1 hhead (by omega)
  refine ⟨token.start :: markers, ⟨.inr rfl, hbody, hfoot, hnext, hlines, ?_, by omega,
    hbranches⟩, ?_⟩
  · rw [List.length_cons]
    omega
  · intro c' m' hm'
    -- The marker is where the first token of the line is found.
    have hscan := hstands.faces.next_eq.1
    rw [htoken, ← scanAt_eq, hstands.faces.source_eq, hstands.params_eq] at hscan
    obtain ⟨m'', hstep, hm''⟩ := step_endWhile hm' hlines.2.of_append.1 hfoot (by simp) hscan.symm
    refine ⟨m'', hstep, { h with stands := ?_ }⟩
    rw [lines, lines_block_append, List.flatten_cons]
    exact hm''

end While

/-! ## From the meaning to the steps -/

/-- The machine follows the meaning of a program, step by step. -/
theorem Runs.arrives {program : Program} {result : EStateM.Result Error Config Unit}
    (hruns : Runs params limits program c result)
    (h : program.Ready params limits markers c before after m) :
    m.Arrives params limits markers (before ++ program.lines.flatten) after.flatten result := by
  induction hruns generalizing markers before after m with
  | done =>
      refine ⟨0, m, .refl m, ?_⟩
      simpa [lines] using h.stands
  | line hline _ ih =>
      have harrives := h.line_arrives
      rw [hline] at harrives
      obtain ⟨_, m₁, hsteps, hm₁⟩ := harrives
      have hnext := ih (h.line_next hm₁)
      rw [lines, List.flatten_cons, ← List.append_assoc]
      exact .of_steps hsteps hnext
  | lineFails hline =>
      have harrives := h.line_arrives
      rw [hline] at harrives
      exact harrives
  | ifTrue htest _ _ ihbody ihnext =>
      obtain ⟨_, m₁, hsteps₁, hm₁⟩ := h.atIf.enters htest
      obtain ⟨_, m₂, hsteps₂, hm₂⟩ := ihbody hm₁
      obtain ⟨_, m₃, hsteps₃, hm₃⟩ := h.if_leaves hm₂
      have hnext := ihnext hm₃
      have hall := Arrives.of_steps (hsteps₁.trans (hsteps₂.trans hsteps₃)) hnext
      simpa [lines] using hall
  | ifBodyFails htest _ ihbody =>
      obtain ⟨_, m₁, hsteps₁, hm₁⟩ := h.atIf.enters htest
      exact .of_steps hsteps₁ (ihbody hm₁)
  | ifFalse htest _ ihnext =>
      obtain ⟨_, m₁, hsteps₁, hm₁⟩ := h.atIf.skips htest
      have hall := Arrives.of_steps hsteps₁ (ihnext hm₁)
      simpa [lines] using hall
  | ifFails htest => exact h.atIf.fails htest _ _
  | whileTrue htest _ _ ihbody ihagain =>
      obtain ⟨opened, hwhile, hback⟩ := h.atWhile
      obtain ⟨_, m₁, hsteps₁, hm₁⟩ := hwhile.enters htest
      obtain ⟨_, m₂, hsteps₂, hm₂⟩ := ihbody hm₁
      obtain ⟨m₃, hstep₃, hm₃⟩ := hback _ m₂ hm₂
      exact .of_steps (hsteps₁.trans (hsteps₂.trans (.step hstep₃ (.refl _)))) (ihagain hm₃)
  | whileBodyFails htest _ ihbody =>
      obtain ⟨opened, hwhile, _⟩ := h.atWhile
      obtain ⟨_, m₁, hsteps₁, hm₁⟩ := hwhile.enters htest
      exact .of_steps hsteps₁ (ihbody hm₁)
  | whileFalse htest _ ihnext =>
      obtain ⟨opened, hwhile, _⟩ := h.atWhile
      obtain ⟨_, m₁, hsteps₁, hm₁⟩ := hwhile.skips htest
      have hall := Arrives.of_steps hsteps₁ (ihnext hm₁)
      simpa [lines] using hall
  | whileFails htest =>
      obtain ⟨opened, hwhile, _⟩ := h.atWhile
      exact hwhile.fails htest _ _

end Program

/-! ## From the steps to the meaning -/

namespace Machine

variable {fuel fuel' : Nat} {m m' : Machine}

/-- The run comes to its end within so many steps. -/
def Halts (fuel : Nat) (m : Machine) : Prop :=
  ∃ result, (runFrom fuel m).1 = some result

theorem runFrom_of_steps {count : Nat} (h : Steps count m m') (fuel : Nat) :
    runFrom (fuel + count) m = runFrom fuel m' := by
  induction h with
  | refl => rfl
  | step hstep _ ih =>
      rw [← Nat.add_assoc, runFrom]
      simp only [hstep]
      exact ih

theorem Halts.of_steps {count : Nat} (h : Halts fuel m) (hsteps : Steps count m m') :
    ∃ fuel', fuel = fuel' + count ∧ Halts fuel' m' := by
  induction hsteps generalizing fuel with
  | refl => exact ⟨fuel, rfl, h⟩
  | @step count m m₁ m' hstep _ ih =>
      obtain ⟨result, hresult⟩ := h
      cases fuel with
      | zero => cases hresult
      | succ fuel =>
          rw [runFrom] at hresult
          simp only [hstep] at hresult
          obtain ⟨fuel', rfl, h'⟩ := ih ⟨result, hresult⟩
          exact ⟨fuel', by omega, h'⟩

theorem Halts.mono (h : Halts fuel m) (hle : fuel ≤ fuel') : Halts fuel' m := by
  obtain ⟨result, hresult⟩ := h
  exact ⟨result, congrArg Prod.fst (runFrom_mono (Prod.ext hresult rfl) hle)⟩

/-- What is left of a run is no longer than the run. -/
theorem Halts.after {count : Nat} (h : Halts fuel m) (hsteps : Steps count m m') :
    Halts fuel m' := by
  obtain ⟨fuel', rfl, h'⟩ := h.of_steps hsteps
  exact h'.mono (by omega)

end Machine

namespace Program

variable {params : List String} {limits : Limits}

/-- A run that comes to its end does so by the meaning of the program.  The induction is
on the number of steps, since each round of a loop takes at least one; within it, it is
on the program. -/
theorem Ready.exists_runs (fuel : Nat) :
    ∀ {program : Program} {markers : List Cursor} {c : Config} {before : List Char}
      {after : List (List Char)} {m : Machine},
      program.Ready params limits markers c before after m → Halts fuel m →
      ∃ result, Runs params limits program c result := by
  induction fuel using Nat.strong_induction_on with
  | _ fuel ih =>
  intro program
  induction program with
  | done =>
      intro _ c _ _ _ _ _
      exact ⟨_, .done⟩
  | line text next ihnext =>
      intro _ c _ _ m h hhalts
      have harrives := h.line_arrives
      cases hline : perform params limits c text with
      | error e c' => exact ⟨_, .lineFails hline⟩
      | ok _ c' =>
          rw [hline] at harrives
          obtain ⟨_, m₁, hsteps, hm₁⟩ := harrives
          obtain ⟨result, hnext⟩ := ihnext (h.line_next hm₁) (hhalts.after hsteps)
          exact ⟨result, .line hline hnext⟩
  | ifBlock head body foot next ihbody ihnext =>
      intro _ c _ _ m h hhalts
      cases htest : test params limits c head with
      | error e => exact ⟨_, .ifFails htest⟩
      | ok holds =>
          cases holds with
          | false =>
              obtain ⟨_, m₁, hsteps, hm₁⟩ := h.atIf.skips htest
              obtain ⟨result, hnext⟩ := ihnext hm₁ (hhalts.after hsteps)
              exact ⟨result, .ifFalse htest hnext⟩
          | true =>
              obtain ⟨_, m₁, hsteps₁, hm₁⟩ := h.atIf.enters htest
              have hhalts₁ := hhalts.after hsteps₁
              obtain ⟨result, hbody⟩ := ihbody hm₁ hhalts₁
              cases result with
              | error e c' => exact ⟨_, .ifBodyFails htest hbody⟩
              | ok _ c' =>
                  obtain ⟨_, m₂, hsteps₂, hm₂⟩ := hbody.arrives hm₁
                  obtain ⟨_, m₃, hsteps₃, hm₃⟩ := h.if_leaves hm₂
                  obtain ⟨result, hnext⟩ :=
                    ihnext hm₃ (hhalts₁.after (hsteps₂.trans hsteps₃))
                  exact ⟨result, .ifTrue htest hbody hnext⟩
  | whileBlock head body foot next ihbody ihnext =>
      intro _ c _ _ m h hhalts
      obtain ⟨opened, hwhile, hback⟩ := h.atWhile
      cases htest : test params limits c head with
      | error e => exact ⟨_, .whileFails htest⟩
      | ok holds =>
          cases holds with
          | false =>
              obtain ⟨_, m₁, hsteps, hm₁⟩ := hwhile.skips htest
              obtain ⟨result, hnext⟩ := ihnext hm₁ (hhalts.after hsteps)
              exact ⟨result, .whileFalse htest hnext⟩
          | true =>
              obtain ⟨_, m₁, hsteps₁, hm₁⟩ := hwhile.enters htest
              obtain ⟨fuel₁, rfl, hhalts₁⟩ := hhalts.of_steps hsteps₁
              obtain ⟨result, hbody⟩ := ih fuel₁ (by omega) hm₁ hhalts₁
              cases result with
              | error e c' => exact ⟨_, .whileBodyFails htest hbody⟩
              | ok _ c' =>
                  obtain ⟨_, m₂, hsteps₂, hm₂⟩ := hbody.arrives hm₁
                  obtain ⟨m₃, hstep₃, hm₃⟩ := hback c' m₂ hm₂
                  have hhalts₃ := hhalts₁.after (hsteps₂.trans (.step hstep₃ (.refl _)))
                  obtain ⟨result, hagain⟩ := ih fuel₁ (by omega) hm₃ hhalts₃
                  exact ⟨result, .whileTrue htest hbody hagain⟩

end Program

/-! ## Whole runs -/

namespace Machine

variable {params : List String} {limits : Limits} {c : Config} {before : List Char}
  {m m₁ m₂ : Machine}

theorem runFrom_unique {fuel₁ fuel₂ : Nat} {result₁ result₂ : Except ScriptError Outcome}
    (h₁ : runFrom fuel₁ m = (some result₁, m₁)) (h₂ : runFrom fuel₂ m = (some result₂, m₂)) :
    result₁ = result₂ ∧ m₁ = m₂ := by
  have hmax₁ := runFrom_mono h₁ (Nat.le_max_left fuel₁ fuel₂)
  have hmax₂ := runFrom_mono h₂ (Nat.le_max_right fuel₁ fuel₂)
  rw [hmax₁] at hmax₂
  cases hmax₂
  exact ⟨rfl, rfl⟩

/-- How a run that has come to its end agrees with the meaning of a program. -/
inductive EndsAs (m : Machine) :
    Except ScriptError Outcome → EStateM.Result Error Config Unit → Prop where
  | finished (hmarkers : m.loops.markers = []) : EndsAs m (.ok .finished) (.ok () m.config)
  | failed (err : ScriptError) : EndsAs m (.error err) (.error err.error m.config)

theorem finish_endsAs (hmarkers : m.loops.markers = []) :
    (m.finish .finished).2.EndsAs (m.finish .finished).1 (flushed (.ok () m.config)) := by
  simp only [finish, flushed, config]
  rcases m.world.flush with ⟨e | _, world⟩
  · exact EndsAs.failed (Machine.diagnose { m with world := world } (.file e))
  · exact EndsAs.finished hmarkers

/-- When the lines of a program are done, all that is left is the end of the script. -/
theorem exists_runFrom_of_arrives_ok (h : m.Arrives params limits [] before [] (.ok () c)) :
    ∃ fuel result m', runFrom fuel m = (some result, m') ∧
      m'.EndsAs result (flushed (.ok () c)) := by
  obtain ⟨count, m₁, hsteps, hm₁⟩ := h
  obtain ⟨token, hnext, hkind⟩ := hm₁.faces.next_of_nil
  have hstep : step m₁ = .ok (some .finished) m₁.taken := step_of_kind hnext hkind
  have hmarkers : m₁.taken.loops.markers = [] := congrArg LoopStack.markers hm₁.loops_eq
  have hconfig : m₁.taken.config = c := hm₁.config_eq
  refine ⟨1 + count, _, _, ?_, hconfig ▸ finish_endsAs hmarkers⟩
  rw [runFrom_of_steps hsteps, runFrom]
  simp only [hstep]

theorem exists_runFrom_of_arrives_error {e : Error} {rest : List Char} {markers : List Cursor}
    (h : m.Arrives params limits markers before rest (.error e c)) :
    ∃ fuel result m', runFrom fuel m = (some result, m') ∧ m'.EndsAs result (.error e c) := by
  obtain ⟨count, m₁, m₂, hsteps, hstep, rfl⟩ := h
  refine ⟨1 + count, _, m₂, ?_, EndsAs.failed (m₂.diagnose e)⟩
  rw [runFrom_of_steps hsteps, runFrom]
  simp only [hstep]

/-- There are no labels to collect in a program, so its run starts at its first line. -/
theorem prepare_of_passable {lines : List (List Char)} (hpassable : Passable params lines)
    (hlines : AreLines lines) (hparams : m.reader.lexer.params = params)
    (hsource : m.reader.lexer.source = lines.flatten) :
    ∃ ready, prepare m = (.ok ready, ready) ∧
      ready.At params m.limits [] m.config [] lines.flatten := by
  have hfaces : m.reader.lexer.reset.Faces [] lines.flatten := faces_reset hsource
  have hsound := sound_reset m.reader.lexer
  rw [← List.append_nil lines] at hlines hfaces
  obtain ⟨kinds, lexer', hpasses, htidy, hend⟩ :=
    hpassable [] [] m.reader.lexer.reset hlines hparams hfaces
  obtain ⟨token, hnext, hkind⟩ := hend.next_of_nil
  have hcollected : m.collected.outcome = .ok {} :=
    LabelIndex.outcome_collectFrom_of_passes hpasses htidy.label hsound hnext hkind []
  have hmoves : Moves (fun _ => False) m.reader.lexer.reset m.collected.lexer :=
    (LabelIndex.collectFrom_located _ _ {} [] hsound (fun _ h => nomatch h)).1
  obtain ⟨journal, hprepare⟩ := prepare_of_ok hcollected
  refine ⟨_, hprepare, faces_reset (hmoves.source_eq.trans hsource),
    hmoves.params_eq.trans hparams, rfl, rfl, rfl⟩

end Machine

namespace Program

variable {params : List String} {limits : Limits} {c : Config} {program : Program}
  {m m' : Machine}

section Whole

variable (h : program.Ready params limits [] c [] [] m)
include h

theorem Ready.exists_runFrom {meaning : EStateM.Result Error Config Unit}
    (hconcludes : Concludes params limits program c meaning) :
    ∃ fuel result m', runFrom fuel m = (some result, m') ∧ m'.EndsAs result meaning := by
  obtain ⟨reached, hruns, rfl⟩ := hconcludes
  cases reached with
  | ok _ c' => exact exists_runFrom_of_arrives_ok (hruns.arrives h)
  | error e c' => exact exists_runFrom_of_arrives_error (hruns.arrives h)

/-- However a run comes to its end, the program has that meaning. -/
theorem Ready.concludes_of_runFrom {fuel : Nat} {result : Except ScriptError Outcome}
    (hrun : runFrom fuel m = (some result, m')) :
    ∃ meaning, Concludes params limits program c meaning ∧ m'.EndsAs result meaning := by
  obtain ⟨reached, hruns⟩ := h.exists_runs fuel ⟨result, congrArg Prod.fst hrun⟩
  have hconcludes : Concludes params limits program c (flushed reached) := ⟨reached, hruns, rfl⟩
  obtain ⟨_, _, m₁, hrun₁, hends⟩ := h.exists_runFrom hconcludes
  obtain ⟨rfl, rfl⟩ := runFrom_unique hrun hrun₁
  exact ⟨_, hconcludes, hends⟩

end Whole

/-- A script whose lines make up a nested program does what the program means, for all
variables, files and sinks at its start.  It finishes with the variables and the world
with which the program comes to its end, and then no loop is open; it fails with the error
of the program, and with the variables and the world at that point. -/
theorem run_iff_runs (source : String) (params : List String) (limits : Limits)
    (world : World) (store : Store) (program : Program)
    (hlines : program.lines = Text.linesWithEnds source.toList)
    (hform : program.WellFormed params) (hdepth : program.depth ≤ limits.maxLoopDepth) :
    let m := { Machine.new source params limits world with store := store }
    (∀ store' world',
      (∃ fuel m', run fuel m = (some (.ok .finished), m') ∧ m'.store = store' ∧
          m'.world = world') ↔
        Concludes params limits program ⟨store, world⟩ (.ok () ⟨store', world'⟩)) ∧
    (∀ e store' world',
      (∃ fuel err m', run fuel m = (some (.error err), m') ∧ err.error = e ∧
          m'.store = store' ∧ m'.world = world') ↔
        Concludes params limits program ⟨store, world⟩ (.error e ⟨store', world'⟩)) ∧
    ∀ fuel outcome m', run fuel m = (some (.ok outcome), m') →
      outcome = .finished ∧ m'.loops.markers = [] := by
  intro m
  have htext : source.toList = program.lines.flatten := by
    rw [hlines, Text.flatten_linesWithEnds]
  have hareLines : AreLines program.lines := by
    rw [hlines]
    exact Text.areLines_linesWithEnds _
  obtain ⟨ready, hprepare, hat⟩ :=
    @prepare_of_passable params m _ (program.passable hform) hareLines rfl htext
  have hready : program.Ready params limits [] ⟨store, world⟩ [] [] ready :=
    ⟨hform, by rwa [List.append_nil], by simpa using hdepth, by rwa [List.append_nil]⟩
  have hrun (fuel : Nat) : run fuel m = runFrom fuel ready := by
    rw [run, hprepare]
  refine ⟨fun store' world' => ⟨?_, ?_⟩, fun e store' world' => ⟨?_, ?_⟩,
    fun fuel outcome m' hfinal => ?_⟩
  · rintro ⟨fuel, m', hfinal, rfl, rfl⟩
    rw [hrun] at hfinal
    obtain ⟨_, hconcludes, ⟨⟩⟩ := hready.concludes_of_runFrom hfinal
    exact hconcludes
  · intro hconcludes
    obtain ⟨fuel, result, m', hfinal, hends⟩ := hready.exists_runFrom hconcludes
    cases hends
    rw [← hrun] at hfinal
    exact ⟨fuel, m', hfinal, rfl, rfl⟩
  · rintro ⟨fuel, err, m', hfinal, rfl, rfl, rfl⟩
    rw [hrun] at hfinal
    obtain ⟨_, hconcludes, ⟨⟩⟩ := hready.concludes_of_runFrom hfinal
    exact hconcludes
  · intro hconcludes
    obtain ⟨fuel, result, m', hfinal, hends⟩ := hready.exists_runFrom hconcludes
    cases hends
    rw [← hrun] at hfinal
    exact ⟨fuel, _, m', hfinal, rfl, rfl, rfl⟩
  · rw [hrun] at hfinal
    obtain ⟨_, _, ⟨hmarkers⟩⟩ := hready.concludes_of_runFrom hfinal
    exact ⟨rfl, hmarkers⟩

/-- A loop goes round once, with a block in its body passed over since one matrix is not less
than the other, and then its condition compares matrices of two shapes. -/
theorem run_iff_runs_loop :
    let source := "rem \"go\"\nwhile A = B\nif A < B\nprint D\nendif\n\nB = C\nendwhile"
    let body := Program.ifBlock "if A < B\n".toList (.line "print D\n".toList .done)
      "endif\n".toList (.line "\n".toList (.line "B = C\n".toList .done))
    let program := Program.line "rem \"go\"\n".toList
      (.whileBlock "while A = B\n".toList body "endwhile".toList .done)
    let square := DenseMatrix.identity 2 2
    let wide := DenseMatrix.identity 2 3
    let store := ((Store.empty.insert ⟨0⟩ square).insert ⟨1⟩ square).insert ⟨2⟩ wide
    let m := { Machine.new source [] {} {} with store := store }
    program.lines = Text.linesWithEnds source.toList ∧ program.WellFormed [] ∧
      program.depth ≤ ({} : Limits).maxLoopDepth ∧
      ∃ fuel err m', run fuel m = (some (.error err), m') ∧
        err.error.message = "Dimension mismatch for 'comparison': 2x2 and 2x3." ∧
        m'.store = store.insert ⟨1⟩ wide ∧ m'.world = { output := "go\n" } := by
  intro source body program square wide store m
  have hlines : program.lines = Text.linesWithEnds source.toList := by decide +kernel
  -- The lines hold what their places ask for.
  have hname {token : Token} {name : VariableName} (hkind : token.kind = .word)
      (hlexeme : VariableName.ofText? token.lexeme = some name) :
      Expression.Renders .sum true (.named name) [token] :=
    .ofProduct (.ofOperand (.ofAtom (.named hkind hlexeme)))
  have hwhile : lineTokens? [] "while A = B\n".toList = some
      (⟨.command .whileBlock, "while", ⟨0, 1⟩⟩ :: ([⟨.word, "A", ⟨6, 1⟩⟩] ++
        ⟨.delimiter .equals, "=", ⟨8, 1⟩⟩ :: [⟨.word, "B", ⟨10, 1⟩⟩])) := by decide +kernel
  have hif : lineTokens? [] "if A < B\n".toList = some
      (⟨.command .ifBlock, "if", ⟨0, 1⟩⟩ :: ([⟨.word, "A", ⟨3, 1⟩⟩] ++
        ⟨.delimiter .less, "<", ⟨5, 1⟩⟩ :: [⟨.word, "B", ⟨7, 1⟩⟩])) := by decide +kernel
  have hremark : IsSimple [] "rem \"go\"\n".toList := by decide +kernel
  have hprint : IsSimple [] "print D\n".toList := by decide +kernel
  have hblank : IsSimple [] "\n".toList := by decide +kernel
  have hassign : IsSimple [] "B = C\n".toList := by decide +kernel
  have hendif : IsFoot [] .endIf "endif\n".toList := by decide +kernel
  have hendwhile : IsFoot [] .endWhile "endwhile".toList := by decide +kernel
  have hform : program.WellFormed [] :=
    ⟨hremark, isHead_of_renders hwhile rfl (hname rfl rfl) rfl (hname rfl rfl),
      ⟨isHead_of_renders hif rfl (hname rfl rfl) rfl (hname rfl rfl), ⟨hprint, trivial⟩, hendif,
        hblank, hassign, trivial⟩, hendwhile, trivial⟩
  have hdepth : program.depth ≤ ({} : Limits).maxLoopDepth := by decide
  -- The conditions are decided by what can be computed of them.
  have hholds {c : Config} {line : List Char} {holds : Bool}
      (h : (test [] {} c line).mapError Error.message = .ok holds) :
      test [] {} c line = .ok holds := by
    cases htest : test [] {} c line with
    | error e => rw [htest] at h; cases h
    | ok found => rw [htest] at h; cases h; rfl
  have hfails {c : Config} {line : List Char} {message : String}
      (h : (test [] {} c line).mapError Error.message = .error message) :
      ∃ e, test [] {} c line = .error e ∧ e.message = message := by
    cases htest : test [] {} c line with
    | error e => rw [htest] at h; cases h; exact ⟨e, rfl, rfl⟩
    | ok found => rw [htest] at h; cases h
  let said : Config := ⟨store, { output := "go\n" }⟩
  let assigned : Config := ⟨store.insert ⟨1⟩ wide, { output := "go\n" }⟩
  have hround : test [] {} said "while A = B\n".toList = .ok true := hholds (by decide +kernel)
  have hpass : test [] {} said "if A < B\n".toList = .ok false := hholds (by decide +kernel)
  obtain ⟨e, hlast, hmessage⟩ := @hfails assigned "while A = B\n".toList
    "Dimension mismatch for 'comparison': 2x2 and 2x3." (by decide +kernel)
  have hsays : perform [] {} ⟨store, {}⟩ "rem \"go\"\n".toList = .ok () said := by rfl
  have hskips : perform [] {} said "\n".toList = .ok () said := by rfl
  have hassigns : perform [] {} said "B = C\n".toList = .ok () assigned := by
    unfold said assigned store wide square
    rfl
  have hruns : Runs [] {} program ⟨store, {}⟩ (.error e assigned) :=
    .line hsays (.whileTrue hround (.ifFalse hpass (.line hskips (.line hassigns .done)))
      (.whileFails hlast))
  have hmain := run_iff_runs source [] {} {} store program hlines hform hdepth
  obtain ⟨fuel, err, m', hrun, herr, hstore, hworld⟩ := (hmain.2.1 _ _ _).mpr ⟨_, hruns, rfl⟩
  exact ⟨hlines, hform, hdepth, fuel, err, m', hrun, herr ▸ hmessage, hstore, hworld⟩

end Program

end MatrixScript
