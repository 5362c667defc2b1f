import MatrixScript.Proofs.Lockstep.Alignment
import MatrixScript.Proofs.Run.Effect
import MatrixScript.Proofs.Structured.Ending
import MatrixScript.Proofs.Structured.Passing

/-!
# Lines run in their place

What a line does within a script: a simple line does what it does on its own, the
first line of a block goes on with its body or behind its last line, and the last line
of a loop goes back to the first.  In each case the machine is before the next line
when it is done.
-/

namespace MatrixScript

open Lexer Cursor

/-- What a machine has come to. -/
def Machine.config (m : Machine) : Config := ⟨m.store, m.world⟩

namespace Machine

/-! ## Steps -/

/-- So many steps lead from one machine to another, and none of them ends the run. -/
inductive Steps : Nat → Machine → Machine → Prop where
  | refl (m : Machine) : Steps 0 m m
  | step {count : Nat} {m m₁ m' : Machine} (h : step m = .ok none m₁)
      (hrest : Steps count m₁ m') : Steps (count + 1) m m'

theorem Steps.trans {j k : Nat} {m m₁ m' : Machine} (h : Steps j m m₁) (h' : Steps k m₁ m') :
    Steps (j + k) m m' := by
  induction h with
  | refl => rwa [Nat.zero_add]
  | step hstep _ ih =>
      rw [Nat.succ_add]
      exact .step hstep (ih h')

/-- The machine is at a place of the script, with these loops open and with what it has
come to. -/
structure At (params : List String) (limits : Limits) (markers : List Cursor) (c : Config)
    (before rest : List Char) (m : Machine) : Prop where
  faces : m.reader.lexer.Faces before rest
  params_eq : m.reader.lexer.params = params
  limits_eq : m.limits = limits
  loops_eq : m.loops = ⟨markers, limits.maxLoopDepth⟩
  config_eq : m.config = c

/-- The machine is there but for the line feed in front of the place. -/
structure Near (params : List String) (limits : Limits) (markers : List Cursor) (c : Config)
    (before rest : List Char) (m : Machine) : Prop where
  nears : m.reader.lexer.Nears before rest
  params_eq : m.reader.lexer.params = params
  limits_eq : m.limits = limits
  loops_eq : m.loops = ⟨markers, limits.maxLoopDepth⟩
  config_eq : m.config = c

/-- The machine gets to a place, or it fails, as the result says. -/
def Arrives (params : List String) (limits : Limits) (markers : List Cursor)
    (before rest : List Char) (m : Machine) : EStateM.Result Error Config Unit → Prop
  | .ok _ c => ∃ count m', Steps count m m' ∧ m'.At params limits markers c before rest
  | .error e c => ∃ count m' m'', Steps count m m' ∧ step m' = .error e m'' ∧ m''.config = c

section Places

variable {params : List String} {limits : Limits} {markers : List Cursor} {c : Config}
  {before rest : List Char} {m m₁ : Machine}

theorem Arrives.of_steps {count : Nat} {result : EStateM.Result Error Config Unit}
    (h : Steps count m m₁) (h' : m₁.Arrives params limits markers before rest result) :
    m.Arrives params limits markers before rest result := by
  cases result with
  | ok _ c =>
      obtain ⟨k, m', hsteps, hm'⟩ := h'
      exact ⟨_, m', h.trans hsteps, hm'⟩
  | error e c =>
      obtain ⟨k, m', m'', hsteps, herror, hc⟩ := h'
      exact ⟨_, m', m'', h.trans hsteps, herror, hc⟩

theorem step_of_newline {token : Token} (hnext : m.reader.lexer.next.outcome = .ok token)
    (hkind : token.kind = .delimiter .endOfLine) : step m = .ok none m.taken :=
  step_of_kind hnext hkind

theorem Near.arrives (h : m.Near params limits markers c before rest) :
    m.Arrives params limits markers before rest (.ok () c) := by
  rcases h.nears.2 with hfaces | ⟨token, hnext, hkind, hfaces⟩
  · exact ⟨0, m, .refl m, hfaces, h.params_eq, h.limits_eq, h.loops_eq, h.config_eq⟩
  · refine ⟨1, m.taken, .step (step_of_newline hnext hkind) (.refl _), hfaces, ?_, h.limits_eq,
      h.loops_eq, h.config_eq⟩
    rw [← h.params_eq]
    exact params_next _

end Places

/-! ## Simple lines -/

section Simple

variable {params : List String} {limits : Limits} {markers : List Cursor} {c : Config}
  {before line post : List Char} {m : Machine} {token : Token}

/-- Statements other than `while` and `endwhile` do not change the open loops. -/
theorem Effect.loops_eq {α : Type} {result : EStateM.Result Error Machine α}
    (h : Effect token m result) (hwhile : token.kind ≠ .command .whileBlock)
    (hend : token.kind ≠ .command .endWhile) :
    (finalState result).loops = m.loops ∧ (finalState result).limits = m.limits ∧
      (finalState result).reader.lexer.params = m.reader.lexer.params := by
  cases h with
  | quiet hquiet =>
      rw [hquiet.2]
      exact ⟨rfl, rfl, hquiet.1.params_eq⟩
  | wrote hwrote =>
      obtain ⟨_, _, _, hmoves, _, rfl⟩ := hwrote
      exact ⟨rfl, rfl, hmoves.params_eq⟩
  | refused hwrote =>
      obtain ⟨_, _, _, hmoves, _, rfl⟩ := hwrote
      exact ⟨rfl, rfl, hmoves.params_eq⟩
  | assigned _ _ hmoves => exact ⟨rfl, rfl, hmoves.params_eq⟩
  | loaded _ _ _ hmoves => exact ⟨rfl, rfl, hmoves.params_eq⟩
  | drained hmoves => exact ⟨rfl, rfl, hmoves.params_eq⟩
  | jumped _ _ hmoves => exact ⟨rfl, rfl, hmoves.params_eq⟩
  | opened hkind _ _ _ => exact absurd hkind hwhile
  | returned hkind _ _ => exact absurd hkind hend

theorem statement_eq_action {operands : List Token} (hgo : token.endsStatement = false)
    (h : isStatement (token :: operands) = true) :
    statement token = Statement.action token.kind token.lexeme >>= fun _ => pure none := by
  obtain ⟨kind, lexeme, start⟩ := token
  have hfirst := (Bool.and_eq_true_iff.mp h).2
  cases kind with
  | word => rfl
  | command command =>
      cases command with
      | load | save | print | tridiag | compocor | composupp | compocsupp => rfl
      | goto | rem | quit | ifBlock | endIf | whileBlock | endWhile => cases hfirst
  | label => cases hfirst
  | delimiter mark =>
      cases mark with
      | endOfLine | endOfScript => cases hgo
      | _ => rfl
  | number | function _ | string | quote => rfl

/-- After the first token of a line, a statement does the same in both places.  On its
own it comes to the end of the line. -/
def DoesSame (before line post : List Char) (x : ExecM Unit) (here alone : Machine) : Prop :=
  Alike SameEffects (fun _ _ here' alone' => (∃ count, Twins before line post count here' alone') ∧
    alone'.reader.lexer.AtEnd) (x here) (x alone)

theorem doesSame_action {here alone : Machine} {count : Nat} {operands : List Token}
    {last : Token} (h : isStatement (token :: operands) = true)
    (htwins : Twins before line post count here alone) (hlast : last.endsStatement = true)
    (hup : alone.reader.lexer.Upcoming (operands ++ [last])) :
    DoesSame before line post (Statement.action token.kind token.lexeme) here alone := by
  have halike := Statement.exec_action token.kind token.lexeme count here alone
    (Nat.le_refl _) htwins
  refine (halike.imp ?_).and_right ?_
  · rintro _ _ here' alone' ⟨_, k, _, htwins'⟩
    exact ⟨k, htwins'⟩
  · intro a alone' hrun
    exact Statement.finishes_action h alone a alone' operands last (Nat.le_refl _) hlast hup hrun

/-- What a remark does depends on its text alone. -/
theorem remark_of_text (text : List Char) : ∃ x : ExecM Unit,
    (∀ m, m.reader.lexer.skipLine.1 = text → Statement.remark m =
      x { m with reader := ⟨m.reader.lexer.skipLine.2, m.reader.journal⟩ }) ∧
    (∀ limit, LocalExec before line post limit x x) ∧ Evolves Rests x := by
  refine ⟨(Statement.quotation text).elim (pure ()) fun quoted =>
    ExecM.emit "con:" (quoted ++ "\n"), ?_, fun _ => ?_, ?_⟩
  · rintro m rfl
    have hskip : ExecM.read Reader.skipLine m = .ok m.reader.lexer.skipLine.1
        { m with reader := ⟨m.reader.lexer.skipLine.2, m.reader.journal⟩ } := rfl
    rw [Statement.remark_eq, bind_of_eq_ok hskip]
  · cases Statement.quotation text with
    | none => exact coupled_pure ()
    | some quoted => exact exec_emit _ _
  · cases Statement.quotation text with
    | none => exact evolves_pure ()
    | some quoted => exact rests_emit _ _

theorem doesSame_remark {here alone : Machine} {done rest : List Char}
    (hbeside : Beside before post here.reader.lexer alone.reader.lexer done rest)
    (hhere_at : here.reader.lexer.StandsAt (before ++ done) (rest ++ post))
    (halone_at : alone.reader.lexer.StandsAt done rest)
    (hhere_peeked : here.reader.lexer.peeked = none)
    (halone_peeked : alone.reader.lexer.peeked = none)
    (hstore : here.store = alone.store) (hlimits : here.limits = alone.limits)
    (hworld : here.world = alone.world) :
    DoesSame before (done ++ rest) post Statement.remark here alone := by
  obtain ⟨htext, hbeside'⟩ := hbeside.skipLine hhere_at halone_at hhere_peeked halone_peeked
  have hend : alone.reader.lexer.skipLine.2.AtEnd := hbeside'.alone_faces.endsStatement_next
  have hsplit : done ++ rest = (done ++ rest.takeWhile (· != '\n')) ++
      rest.dropWhile (· != '\n') := by
    rw [List.append_assoc, List.takeWhile_append_dropWhile]
  -- The two machines after the text of the remark has been passed over.
  have htwins : Twins before (done ++ rest) post _
      { here with reader := ⟨here.reader.lexer.skipLine.2, here.reader.journal⟩ }
      { alone with reader := ⟨alone.reader.lexer.skipLine.2, alone.reader.journal⟩ } :=
    ⟨⟨_, _, hsplit, rfl, hbeside'⟩, hstore, hlimits, hworld⟩
  obtain ⟨x, hx, hlocal, hrests⟩ := remark_of_text alone.reader.lexer.skipLine.1
  unfold DoesSame
  rw [hx here htext, hx alone rfl]
  refine ((hlocal _ _ _ _ (Nat.le_refl _) htwins).imp ?_).and_right ?_
  · rintro _ _ here' alone' ⟨_, k, _, htwins'⟩
    exact ⟨k, htwins'⟩
  · intro a alone' hrun
    rwa [Rests.lexer_eq hrests hrun]

/-- If the statement of a line does the same in its place as on its own, then the line
does so as well. -/
theorem arrives_of_doesSame {x : ExecM Unit}
    (hm : m.At params limits markers c before (line ++ post)) (hline : IsLine line post)
    (hnext : m.reader.lexer.next.outcome = .ok token)
    (hwhile : token.kind ≠ .command .whileBlock) (hend : token.kind ≠ .command .endWhile)
    (hhere : step m = (x >>= fun _ => pure none) m.taken)
    (halone : step (onLine params limits c line) =
      (x >>= fun _ => pure none) (onLine params limits c line).taken)
    (hsame : DoesSame before line post x m.taken (onLine params limits c line).taken) :
    m.Arrives params limits markers (before ++ line) post (perform params limits c line) := by
  have heffect : Effect token m.taken (step m) := by
    rw [step_of_next hnext]
    exact statement_effect token m.taken
  obtain ⟨hloops, hlimits, hparams⟩ := heffect.loops_eq hwhile hend
  unfold perform
  unfold DoesSame at hsame
  rw [hhere] at hloops hlimits hparams
  rw [halone]
  cases hx : x m.taken with
  | ok a here' =>
      rw [bind_of_eq_ok hx] at hhere hloops hlimits hparams
      rw [hx] at hsame
      cases hy : x (onLine params limits c line).taken with
      | error e alone' => rw [hy] at hsame; cases hsame
      | ok b alone' =>
          rw [hy] at hsame
          rw [bind_of_eq_ok hy]
          cases hsame with
          | ok hok =>
              obtain ⟨⟨count, htwins⟩, last, hlast, hends⟩ := hok
              obtain ⟨done, rest, rfl, _, hbeside⟩ := htwins.onLine
              have hnears := hbeside.nears hline hlast hends
              have hconfig : here'.config = ⟨alone'.store, alone'.world⟩ := by
                rw [config, htwins.store_eq, htwins.world_eq]
              have hnear : here'.Near params limits markers ⟨alone'.store, alone'.world⟩
                  (before ++ (done ++ rest)) post :=
                ⟨hnears, (hparams.trans (params_next _)).trans hm.params_eq,
                  hlimits.trans hm.limits_eq, hloops.trans hm.loops_eq, hconfig⟩
              exact .of_steps (.step hhere (.refl _)) hnear.arrives
  | error e here' =>
      rw [bind_of_eq_error hx] at hhere
      rw [hx] at hsame
      cases hy : x (onLine params limits c line).taken with
      | ok b alone' => rw [hy] at hsame; cases hsame
      | error e' alone' =>
          rw [hy] at hsame
          rw [bind_of_eq_error hy]
          cases hsame with
          | error heffects =>
              refine ⟨0, m, here', .refl m, hhere, ?_⟩
              rw [config, heffects.1, heffects.2]

theorem twins_onLine (hm : m.At params limits markers c before (line ++ post))
    (hline : IsLine line post) :
    Twins before line post line.length m (onLine params limits c line) where
  onLine := ⟨[], line, rfl, rfl, beside_ofLine hm.faces hm.params_eq hline⟩
  store_eq := congrArg Config.store hm.config_eq
  limits_eq := hm.limits_eq
  world_eq := congrArg Config.world hm.config_eq

theorem arrives_of_remark (hm : m.At params limits markers c before (line ++ post))
    (hline : IsLine line post) (hfirst : (ofLine params line).next.outcome = .ok token)
    (hkind : token.kind = .command .rem) :
    m.Arrives params limits markers (before ++ line) post (perform params limits c line) := by
  have htwins := twins_onLine hm hline
  have hgo : token.endsStatement = false := by
    simp [Token.endsStatement_eq_false_iff, hkind]
  obtain ⟨token', text, rest, hnext, hsame, rfl, hhere_at, halone_at, hbeside⟩ :=
    (beside_ofLine hm.faces hm.params_eq hline).take hfirst hgo
  have hkind' := hsame.1.trans hkind
  refine arrives_of_doesSame hm hline hnext (by simp [hkind']) (by simp [hkind'])
    (step_of_kind hnext hkind') (step_of_kind hfirst hkind) ?_
  exact doesSame_remark hbeside hhere_at halone_at (peeked_next _) (peeked_next _)
    htwins.store_eq htwins.limits_eq htwins.world_eq

theorem perform_of_blank (hfirst : (ofLine params line).next.outcome = .ok token)
    (hends : token.endsStatement = true) : perform params limits c line = .ok () c := by
  unfold perform
  rcases Token.endsStatement_iff.mp hends with hkind | hkind
  · rw [step_of_kind hfirst hkind]
    rfl
  · rw [step_of_kind hfirst hkind]
    rfl

theorem arrives_of_statement {operands : List Token} {last : Token}
    (hm : m.At params limits markers c before (line ++ post)) (hline : IsLine line post)
    (hstatement : isStatement (token :: operands) = true) (hgo : token.endsStatement = false)
    (hlast : last.endsStatement = true)
    (hup : (ofLine params line).Upcoming (token :: (operands ++ [last]))) :
    m.Arrives params limits markers (before ++ line) post (perform params limits c line) := by
  have htwins := twins_onLine hm hline
  obtain ⟨token', text, rest, hnext, hsame, rfl, _, _, hbeside⟩ :=
    (beside_ofLine hm.faces hm.params_eq hline).take hup.1 hgo
  -- The two tokens differ in their places only.
  obtain ⟨kind, lexeme, start⟩ := token'
  obtain ⟨_, _, start'⟩ := token
  obtain ⟨rfl, rfl⟩ := hsame
  have hplain := (isPlain_of_isStatement hstatement ⟨kind, lexeme, start'⟩ (by simp)).1
  have hne {other : TokenKind} (hother : other.isPlain = false) : kind ≠ other := by
    rintro rfl
    rw [hplain] at hother
    cases hother
  have haction := @statement_eq_action ⟨kind, lexeme, start⟩ operands hgo hstatement
  have haction' := @statement_eq_action ⟨kind, lexeme, start'⟩ operands hgo hstatement
  have hafter : Twins before (text ++ rest) post rest.length m.taken
      (onLine params limits c (text ++ rest)).taken :=
    ⟨⟨[] ++ text, rest, rfl, rfl, hbeside⟩, htwins.store_eq, htwins.limits_eq, htwins.world_eq⟩
  refine arrives_of_doesSame hm hline hnext (hne rfl) (hne rfl)
    (by rw [step_of_next hnext, haction]) (by rw [step_of_next hup.1, haction']) ?_
  exact @doesSame_action _ _ _ ⟨kind, lexeme, start'⟩ _ _ rest.length operands last hstatement
    hafter hlast hup.2

/-- A simple line does in its place what it does on its own. -/
theorem arrives_of_isSimple (hm : m.At params limits markers c before (line ++ post))
    (hline : IsLine line post) (hsimple : IsSimple params line) :
    m.Arrives params limits markers (before ++ line) post (perform params limits c line) := by
  rcases hsimple with ⟨token, htoken, hkind⟩ | ⟨tokens, htokens, hstatement⟩
  · exact arrives_of_remark hm hline (next_of_lineStart? htoken) hkind
  · obtain ⟨last, hlast, hgo, hup⟩ := upcoming_of_operands? htokens
    cases tokens with
    | nil =>
        have hnears := (beside_ofLine hm.faces hm.params_eq hline).nears hline hup.1 hlast
        rw [perform_of_blank hup.1 hlast]
        exact Near.arrives ⟨hnears, hm.params_eq, hm.limits_eq, hm.loops_eq, hm.config_eq⟩
    | cons first operands =>
        exact arrives_of_statement hm hline hstatement (hgo first (by simp)) hlast hup

end Simple

/-! ## First lines of blocks -/

section Heads

variable {params : List String} {limits : Limits} {markers : List Cursor} {c : Config}
  {before head post : List Char} {command : Command} {m : Machine} {token : Token}

/-- A condition is read in its place as it is on its own, up to the end of the line. -/
theorem condition_of_test {lexer : Lexer} (hfaces : lexer.Faces before (head ++ post))
    (hparams : lexer.params = params) (hline : IsLine head post)
    (hhead : IsHead params command head) :
    ∃ token, lexer.next.outcome = .ok token ∧ token.kind = .command command ∧
      ∀ r : Reader, r.lexer = lexer.next.lexer →
        match test params limits c head with
        | .ok holds => ∃ r', Expression.condition ⟨c.store, limits.maxElements⟩ r = .ok holds r' ∧
            r'.lexer.Nears (before ++ head) post ∧ r'.lexer.params = params
        | .error e => ∃ r', Expression.condition ⟨c.store, limits.maxElements⟩ r = .error e r' := by
  obtain ⟨first, operands, htokens, hfirst, _⟩ := hhead.tokens
  obtain ⟨last, hlast, hgo, hup⟩ := upcoming_of_operands? htokens
  obtain ⟨token, text, rest, hnext, hsame, rfl, _, _, hbeside⟩ :=
    (beside_ofLine hfaces hparams hline).take hup.1 (hgo first (by simp))
  refine ⟨token, hnext, hsame.1.trans hfirst, fun r hr => ?_⟩
  rw [← hr] at hbeside
  have hread := @Reader.next_of_ok { lexer := ofLine params (text ++ rest) } first hup.1
  generalize halone : Reader.mk (ofLine params (text ++ rest)).next.lexer _ = alone at hread
  have hlexer : alone.lexer = (ofLine params (text ++ rest)).next.lexer := by rw [← halone]
  rw [← hlexer] at hbeside
  have hmoves := @Expression.evolves_condition ⟨c.store, limits.maxElements⟩ r
  have halike := @local_condition before (text ++ rest) post rest.length
    ⟨c.store, limits.maxElements⟩ rest.length r alone (Nat.le_refl _)
    ⟨[] ++ text, rest, rfl, rfl, hbeside⟩
  rw [test, headCondition, bind_of_eq_ok hread]
  cases hy : Expression.condition ⟨c.store, limits.maxElements⟩ alone with
  | ok holds alone' =>
      cases hx : Expression.condition ⟨c.store, limits.maxElements⟩ r with
      | error e r' => rw [hx, hy] at halike; cases halike
      | ok holds' r' =>
          rw [hx, hy] at halike
          rw [hx] at hmoves
          cases halike with
          | ok hok =>
              obtain ⟨rfl, k, _, done, left, hsplit, _, hbeside'⟩ := hok
              obtain ⟨last', hlast', hends⟩ := hhead.whole _ _ _ _ hlexer hy
              refine ⟨r', rfl, ?_, ?_⟩
              · rw [hsplit] at hline ⊢
                exact hbeside'.nears hline hlast' hends
              · have hkept : r'.lexer.params = r.lexer.params := hmoves.params_eq
                rw [hkept, hr, params_next, hparams]
  | error e alone' =>
      cases hx : Expression.condition ⟨c.store, limits.maxElements⟩ r with
      | ok holds r' => rw [hx, hy] at halike; cases halike
      | error e' r' =>
          rw [hx, hy] at halike
          cases halike
          exact ⟨r', rfl⟩

/-- The step at the first line of a block, by what comes of the condition: it goes into
the body with these loops open, it passes over the body, or it fails. -/
def Branches (block : Flow.Block) (params : List String) (limits : Limits)
    (markers opened : List Cursor) (c : Config) (before post : List Char) (m : Machine) :
    Except Error Bool → Prop
  | .ok true => ∃ m', step m = .ok none m' ∧ m'.Near params limits opened c before post
  | .ok false => ∃ m', step m = (ExecM.read (Flow.skip block) >>= fun _ => pure none) m' ∧
      m'.Near params limits markers c before post
  | .error e => ∃ m', step m = .error e m' ∧ m'.config = c

/-- A body that is passed over is passed over up to its last line. -/
theorem Branches.skips {block : Flow.Block} {opened : List Cursor} {foot : List Char}
    {body lines : List (List Char)}
    (h : Branches block params limits markers opened c before (body ++ foot :: lines).flatten m
      (.ok false))
    (hblock : block.IsKnown) (hbody : Passable params body)
    (hfoot : IsFoot params block.closing foot) (hlines : AreLines (body ++ foot :: lines)) :
    ∃ m', step m = .ok none m' ∧
      m'.Near params limits markers c (before ++ (body.flatten ++ foot)) lines.flatten := by
  obtain ⟨m', hstep, hnear⟩ := h
  obtain ⟨r, hskip, hnears, hparams⟩ := hbody.skip hblock hfoot hlines hnear.params_eq hnear.nears
  refine ⟨{ m' with reader := r }, ?_, { hnear with nears := hnears, params_eq := hparams }⟩
  rw [hstep, bind_of_eq_ok (ExecM.read_eq_ok.mpr ⟨r, hskip, rfl⟩)]
  rfl

/-- What is left to do of a `while` after its loop has been opened. -/
def whileOpened (env : Expression.Env) : ExecM Unit := do
  let holds ← Expression.condition env
  if holds then pure ()
  else
    let _ ← Flow.popLoop
    Flow.skip .whileBlock

theorem whileStatement_of_push {start : Cursor} {loops : LoopStack}
    (hpush : m.loops.push start = .ok loops) :
    ∃ journal, Flow.whileStatement start m = whileOpened ⟨m.store, m.limits.maxElements⟩
      { m with reader := ⟨m.reader.lexer, journal⟩, loops := loops } := by
  rw [Flow.whileStatement, bind_of_eq_ok (Flow.pushLoop_of_ok hpush)]
  exact ⟨_, rfl⟩

theorem step_if (hm : m.At params limits markers c before (head ++ post))
    (hline : IsLine head post) (hhead : IsHead params .ifBlock head) :
    Branches .ifBlock params limits markers markers c (before ++ head) post m
      (test params limits c head) := by
  obtain ⟨token, hnext, hkind, hcondition⟩ :=
    @condition_of_test params limits c _ _ _ _ _ hm.faces hm.params_eq hline hhead
  have hstep : step m = (Flow.ifStatement >>= fun _ => pure none) m.taken :=
    step_of_kind hnext hkind
  have henv : Statement.env m.taken = .ok ⟨c.store, limits.maxElements⟩ m.taken := by
    rw [← hm.config_eq, ← hm.limits_eq]
    rfl
  have hif : Flow.ifStatement m.taken = _ := bind_of_eq_ok henv
  have hdecided := hcondition m.taken.reader rfl
  cases htest : test params limits c head with
  | error e =>
      rw [htest] at hdecided
      obtain ⟨r, hr⟩ := hdecided
      have hfails := hif.trans (bind_of_eq_error (ExecM.read_eq_error.mpr ⟨r, hr, rfl⟩))
      exact ⟨_, hstep.trans (bind_of_eq_error hfails), hm.config_eq⟩
  | ok holds =>
      rw [htest] at hdecided
      obtain ⟨r, hr, hnears, hparams⟩ := hdecided
      have hholds := hif.trans (bind_of_eq_ok (ExecM.read_eq_ok.mpr ⟨r, hr, rfl⟩))
      have hnear : Near params limits markers c (before ++ head) post
          { m.taken with reader := r } :=
        ⟨hnears, hparams, hm.limits_eq, hm.loops_eq, hm.config_eq⟩
      cases holds with
      | true => exact ⟨_, hstep.trans (bind_of_eq_ok hholds), hnear⟩
      | false => exact ⟨_, hstep.trans (bind_apply_congr hholds), hnear⟩

/-- A `while` opens its loop at its first token, and closes it if its body is passed
over. -/
theorem step_while (hm : m.At params limits markers c before (head ++ post))
    (hline : IsLine head post) (hhead : IsHead params .whileBlock head)
    (hroom : markers.length < limits.maxLoopDepth) :
    ∃ token, m.reader.lexer.next.outcome = .ok token ∧
      Branches .whileBlock params limits markers (token.start :: markers) c (before ++ head) post
        m (test params limits c head) := by
  obtain ⟨token, hnext, hkind, hcondition⟩ :=
    @condition_of_test params limits c _ _ _ _ _ hm.faces hm.params_eq hline hhead
  refine ⟨token, hnext, ?_⟩
  have hstep : step m =
      (Flow.whileStatement token.start >>= fun _ => pure none) m.taken :=
    step_of_kind hnext hkind
  -- The machine with the loop open, when its condition is read.
  have hpush : m.taken.loops.push token.start =
      .ok ⟨token.start :: markers, limits.maxLoopDepth⟩ := by
    rw [show m.taken.loops = _ from hm.loops_eq, LoopStack.push_eq_ok]
    exact ⟨hroom, rfl⟩
  obtain ⟨journal, hwhile⟩ := whileStatement_of_push hpush
  have henv : (⟨m.taken.store, m.taken.limits.maxElements⟩ : Expression.Env) =
      ⟨c.store, limits.maxElements⟩ := by
    rw [← hm.config_eq, ← hm.limits_eq]
    rfl
  rw [henv] at hwhile
  have hdecided := hcondition ⟨m.reader.lexer.next.lexer, journal⟩ rfl
  cases htest : test params limits c head with
  | error e =>
      rw [htest] at hdecided
      obtain ⟨r, hr⟩ := hdecided
      have hfails := hwhile.trans (bind_of_eq_error (ExecM.read_eq_error.mpr ⟨r, hr, rfl⟩))
      exact ⟨_, hstep.trans (bind_of_eq_error hfails), hm.config_eq⟩
  | ok holds =>
      rw [htest] at hdecided
      obtain ⟨r, hr, hnears, hparams⟩ := hdecided
      have hholds := hwhile.trans (bind_of_eq_ok (ExecM.read_eq_ok.mpr ⟨r, hr, rfl⟩))
      cases holds with
      | true =>
          exact ⟨_, hstep.trans (bind_of_eq_ok hholds),
            ⟨hnears, hparams, hm.limits_eq, rfl, hm.config_eq⟩⟩
      | false =>
          have hpop := hholds.trans (bind_of_eq_ok (Flow.popLoop_of_ok rfl))
          exact ⟨_, hstep.trans (bind_apply_congr hpop),
            ⟨hnears, hparams, hm.limits_eq, rfl, hm.config_eq⟩⟩

end Heads

/-! ## Last lines of blocks -/

section Feet

variable {params : List String} {limits : Limits} {markers : List Cursor} {c : Config}
  {before foot post : List Char} {m : Machine}

theorem step_endIf (hm : m.At params limits markers c before (foot ++ post))
    (hline : IsLine foot post) (hfoot : IsFoot params .endIf foot) :
    ∃ m', step m = .ok none m' ∧ m'.Near params limits markers c (before ++ foot) post := by
  obtain ⟨token, hnext, hkind, hnears⟩ := hfoot.nears hline hm.params_eq hm.faces
  exact ⟨m.taken, step_of_kind hnext hkind, hnears, (params_next _).trans hm.params_eq,
    hm.limits_eq, hm.loops_eq, hm.config_eq⟩

/-- The loop of an `endwhile` goes on at its first line. -/
theorem step_endWhile {start rest : List Char} {token : Token}
    (hm : m.At params limits (token.start :: markers) c before (foot ++ post))
    (hline : IsLine foot post) (hfoot : IsFoot params .endWhile foot)
    (hsource : before ++ (foot ++ post) = start ++ rest)
    (htoken : (scanAt (start ++ rest) params (after start)).outcome = .ok token) :
    ∃ m', step m = .ok none m' ∧ m'.At params limits markers c start rest := by
  obtain ⟨last, hnext, hkind, _⟩ := hfoot.nears hline hm.params_eq hm.faces
  have hpop : m.taken.loops.pop = .ok (token.start, ⟨markers, limits.maxLoopDepth⟩) := by
    rw [show m.taken.loops = _ from hm.loops_eq, LoopStack.pop_eq_ok]
    exact ⟨rfl, rfl⟩
  have hback : ∃ journal, step m = .ok none { m.taken with
      reader := ⟨m.reader.lexer.next.lexer.seek token.start, journal⟩
      loops := ⟨markers, limits.maxLoopDepth⟩ } := by
    have hend : Flow.endWhile m.taken = _ := bind_of_eq_ok (Flow.popLoop_of_ok hpop)
    exact ⟨_, (step_of_kind hnext hkind).trans (bind_of_eq_ok hend)⟩
  obtain ⟨journal, hstep⟩ := hback
  refine ⟨_, hstep, ?_, (params_next _).trans hm.params_eq, hm.limits_eq, rfl, hm.config_eq⟩
  have hsame : m.reader.lexer.next.lexer.source = start ++ rest := by
    rw [source_next, hm.faces.source_eq, hsource]
  apply faces_seek_start hsame
  rw [← scanAt_eq, hsame, params_next, hm.params_eq]
  exact htoken

end Feet

end Machine

end MatrixScript
