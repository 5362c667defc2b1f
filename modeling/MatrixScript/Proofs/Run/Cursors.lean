import MatrixScript.Proofs.Lexing.Labels
import MatrixScript.Proofs.Run.Effect

/-!
# Where the cursors of a run stand

A run keeps cursors in four places: in the lexer, in the token that it looks at, in
the targets of the labels and in the markers of the open loops.  Offsets and line
numbers are stored and moved separately; here they are shown to agree with the text
in every state of every run, while the labels are collected and after any number of
steps.  `Located` is the invariant that carries the proof.
-/

namespace MatrixScript

open Lexer Cursor

/-- The cursor lies in the stored text, on a boundary between two characters, and its
line is one more than the number of line feeds before it. -/
structure Cursor.Exact (source : String) (cursor : Cursor) : Prop where
  offset_le : cursor.offset ≤ source.utf8ByteSize
  isValid : (String.Pos.Raw.mk cursor.offset).IsValid source
  line_eq : ∃ before rest, source.toList = before ++ rest ∧
    byteLength before = cursor.offset ∧ cursor.line = 1 + before.count '\n'

theorem Cursor.IsPlace.exact {source : String} {cursor : Cursor}
    (h : IsPlace source.toList cursor) : cursor.Exact source where
  offset_le := by
    have hle := h.offset_le
    rwa [byteLength_eq_utf8ByteSize, String.ofList_toList] at hle
  isValid := by
    have hvalid := h.isValid
    rwa [String.ofList_toList] at hvalid
  line_eq := by
    obtain ⟨before, rest, hsource, rfl⟩ := h
    exact ⟨before, rest, hsource, rfl, rfl⟩

namespace Machine

/-- The cursors that a machine keeps. -/
inductive Holds (m : Machine) : Cursor → Prop where
  | cursor : Holds m m.reader.lexer.cursor
  | peeked {token : Token} (h : m.reader.lexer.peeked = some token) : Holds m token.start
  | target {label : Label} (h : label ∈ m.labels.labels) : Holds m label.target
  | marker {marker : Cursor} (h : marker ∈ m.loops.markers) : Holds m marker

/-- The places to which a step can jump. -/
def IsTarget (m : Machine) (cursor : Cursor) : Prop :=
  (∃ label ∈ m.labels.labels, cursor = label.target) ∨ cursor ∈ m.loops.markers

/-- The command `while` is written right at a place. -/
def StartsWhile (source : List Char) (params : List String) (marker : Cursor) : Prop :=
  IsPlace source marker ∧ ∃ token, (scanAt source params marker).outcome = .ok token ∧
    token.kind = .command .whileBlock ∧ token.start = marker

/-! ## The invariant -/

structure Located (source : List Char) (params : List String) (m : Machine) : Prop where
  source_eq : m.reader.lexer.source = source
  params_eq : m.reader.lexer.params = params
  sound : m.reader.lexer.Sound
  labels : ∀ label ∈ m.labels.labels, LabelIndex.Ends source params label
  markers : ∀ marker ∈ m.loops.markers, StartsWhile source params marker
  depth : m.loops.depth ≤ m.loops.capacity
  capacity : m.loops.capacity = m.limits.maxLoopDepth

variable {source : List Char} {params : List String} {m m' : Machine} {token : Token}

theorem Located.isPlace_of_holds {cursor : Cursor} (h : Located source params m)
    (hholds : m.Holds cursor) : IsPlace source cursor := by
  cases hholds with
  | cursor => rw [← h.source_eq]; exact h.sound.cursor
  | peeked hpeeked => rw [← h.source_eq]; exact (h.sound.peeked _ hpeeked).1
  | target hlabel => exact (h.labels _ hlabel).isPlace_target
  | marker hmarker => exact (h.markers _ hmarker).1

theorem Located.isPlace_of_isTarget {cursor : Cursor} (h : Located source params m)
    (htarget : m.IsTarget cursor) : IsPlace source cursor := by
  rcases htarget with ⟨label, hlabel, rfl⟩ | hmarker
  · exact h.isPlace_of_holds (.target hlabel)
  · exact h.isPlace_of_holds (.marker hmarker)

/-- A reader that has moved without a jump can take the place of the old one. -/
theorem Located.of_moves {reader : Reader} (h : Located source params m)
    (hmoves : Reader.Moves m.reader reader) :
    Located source params { m with reader := reader } where
  source_eq := hmoves.source_eq.trans h.source_eq
  params_eq := hmoves.params_eq.trans h.params_eq
  sound := hmoves.sound (fun _ hfalse => hfalse.elim) h.sound
  labels := h.labels
  markers := h.markers
  depth := h.depth
  capacity := h.capacity

theorem Located.of_quiet (h : Located source params m) (hquiet : Quiet m m') :
    Located source params m' := by
  rw [hquiet.2]
  exact h.of_moves hquiet.1

theorem Located.seek {cursor : Cursor} (h : Located source params m)
    (hplace : IsPlace source cursor) :
    Located source params
      { m with reader := { m.reader with lexer := m.reader.lexer.seek cursor } } :=
  { h with sound := sound_seek (h.source_eq.symm ▸ hplace) }

/-- One step keeps the invariant, whatever the statement does and also if it fails. -/
theorem Effect.located {α : Type} {result : EStateM.Result Error Machine α}
    (h : Effect token m result) (hm : Located source params m)
    (htoken : IsPlace source token.start ∧
      (scanAt source params token.start).outcome = .ok token) :
    Located source params (finalState result) := by
  cases h with
  | quiet hquiet => exact hm.of_quiet hquiet
  | wrote hwrote =>
      obtain ⟨reader, _, _, hmoves, _, rfl⟩ := hwrote
      exact { hm.of_moves hmoves with }
  | refused hwrote =>
      obtain ⟨reader, _, _, hmoves, _, rfl⟩ := hwrote
      exact { hm.of_moves hmoves with }
  | assigned _ _ hmoves => exact { hm.of_moves hmoves with }
  | loaded _ _ _ hmoves => exact { hm.of_moves hmoves with }
  | drained hmoves => exact { hm.of_moves hmoves with }
  | jumped _ hlabel hmoves =>
      exact (hm.of_moves hmoves).seek (hm.labels _ hlabel).isPlace_target
  | opened hwhile hpush hmoves hfinal =>
      obtain ⟨hdepth, rfl⟩ := LoopStack.push_eq_ok.mp hpush
      rw [hfinal]
      refine { hm.of_moves hmoves with markers := ?_, depth := ?_ }
      · intro marker hmarker
        rcases List.mem_cons.mp hmarker with rfl | hold
        · exact ⟨htoken.1, token, htoken.2, hwhile, rfl⟩
        · exact hm.markers marker hold
      · simp only [LoopStack.depth, List.length_cons] at hdepth ⊢
        omega
  | @returned _ _ marker loops _ hpop hmoves =>
      obtain ⟨hmarkers, hcapacity⟩ := LoopStack.pop_eq_ok.mp hpop
      have hplace := (hm.markers marker (by simp [hmarkers])).1
      rw [finalState_ok]
      refine { (hm.of_moves hmoves).seek hplace with
        markers := ?_, depth := ?_, capacity := hcapacity.trans hm.capacity }
      · intro other hother
        exact hm.markers other (by simp [hmarkers, hother])
      · have hdepth := hm.depth
        simp only [LoopStack.depth, hmarkers, hcapacity, List.length_cons] at hdepth ⊢
        omega

theorem Located.taken_token (hm : Located source params m)
    (hnext : m.reader.lexer.next.outcome = .ok token) :
    IsPlace source token.start ∧ (scanAt source params token.start).outcome = .ok token := by
  obtain ⟨hplace, hscan, _⟩ := hm.sound.next_token hnext
  rw [← scanAt_eq, hm.source_eq, hm.params_eq] at hscan
  rw [hm.source_eq] at hplace
  exact ⟨hplace, hscan⟩

theorem Located.step (hm : Located source params m) :
    Located source params (finalState (step m)) := by
  have htaken := hm.of_quiet (quiet_taken m)
  rcases step_effect m with ⟨e, herror⟩ | ⟨token, hnext, heffect⟩
  · rw [herror]
    exact htaken
  · exact heffect.located htaken (hm.taken_token hnext)

/-! ## The ways of the lexer -/

theorem Effect.moves_of_error {α : Type} {e : Error}
    (h : Effect token m (.error e m' : EStateM.Result Error Machine α)) :
    Moves (fun _ => False) m.reader.lexer m'.reader.lexer := by
  cases h with
  | quiet hquiet => exact hquiet.1
  | refused hwrote =>
      obtain ⟨_, _, _, hmoves, _, rfl⟩ := hwrote
      exact hmoves
  | drained hmoves => exact hmoves
  | opened _ _ hmoves hfinal =>
      rw [show m' = _ from hfinal]
      exact hmoves

theorem Effect.moves_of_ok {α : Type} {a : α}
    (h : Effect token m (.ok a m' : EStateM.Result Error Machine α)) :
    Moves m.IsTarget m.reader.lexer m'.reader.lexer := by
  have hmono {reader : Reader} (hmoves : Reader.Moves m.reader reader) :
      Moves m.IsTarget m.reader.lexer reader.lexer := hmoves.mono fun _ hfalse => hfalse.elim
  cases h with
  | quiet hquiet => exact hmono hquiet.1
  | wrote hwrote =>
      obtain ⟨_, _, _, hmoves, _, rfl⟩ := hwrote
      exact hmono hmoves
  | assigned _ _ hmoves => exact hmono hmoves
  | loaded _ _ _ hmoves => exact hmono hmoves
  | jumped _ hlabel hmoves =>
      exact (hmono hmoves).trans (Move.seek _ (.inl ⟨_, hlabel, rfl⟩)).moves
  | opened _ _ hmoves hfinal =>
      rw [show m' = _ from hfinal]
      exact hmono hmoves
  | returned _ hpop hmoves =>
      have hmarker := (LoopStack.pop_eq_ok.mp hpop).1
      exact (hmono hmoves).trans (Move.seek _ (.inr (by rw [hmarker]; simp))).moves

/-- A step that succeeds moves the lexer and jumps to known places only, and one that
fails does not jump. -/
theorem step_moves (m : Machine) :
    match step m with
    | .ok _ m' => Moves m.IsTarget m.reader.lexer m'.reader.lexer
    | .error _ m' => Moves (fun _ => False) m.reader.lexer m'.reader.lexer := by
  have hfirst (targets : Cursor → Prop) :
      Moves targets m.reader.lexer m.taken.reader.lexer := (Move.next _).moves
  rcases step_effect m with ⟨e, herror⟩ | ⟨token, _, heffect⟩
  · rw [herror]
    exact hfirst _
  · cases hs : step m with
    | ok outcome m' =>
        rw [hs] at heffect
        exact (hfirst _).trans heffect.moves_of_ok
    | error e m' =>
        rw [hs] at heffect
        exact (hfirst _).trans heffect.moves_of_error

/-! ## Collecting the labels -/

/-- The machine after labels have been collected from the first `count` tokens. -/
def collecting (m : Machine) (count : Nat) : Machine :=
  let found := LabelIndex.collectFrom m.limits.maxLabels count {} m.reader.lexer.reset []
  { m with
    reader := { m.reader with lexer := found.lexer }
    labels := match found.outcome with
      | .ok index => index
      | .error _ => m.labels }

theorem moves_collecting (m : Machine) (count : Nat) :
    Moves (fun _ => False) m.reader.lexer.reset (m.collecting count).reader.lexer :=
  (LabelIndex.collectFrom_located _ count {} [] (sound_reset _) (fun _ h => nomatch h)).1

theorem Located.collecting (hm : Located source params m) (count : Nat) :
    Located source params (m.collecting count) := by
  obtain ⟨hmoves, hfound⟩ := LabelIndex.collectFrom_located m.limits.maxLabels count {} []
    (sound_reset m.reader.lexer) (fun _ h => nomatch h)
  refine
    { source_eq := hmoves.source_eq.trans hm.source_eq
      params_eq := hmoves.params_eq.trans hm.params_eq
      sound := hmoves.sound (fun _ h => h.elim) (sound_reset _)
      labels := ?_
      markers := hm.markers
      depth := hm.depth
      capacity := hm.capacity }
  intro label hlabel
  unfold Machine.collecting at hlabel
  simp only at hlabel
  split at hlabel
  · rename_i index hindex
    have hends := hfound index hindex label hlabel
    rwa [show m.reader.lexer.reset.source = source from hm.source_eq,
      show m.reader.lexer.reset.params = params from hm.params_eq] at hends
  · exact hm.labels label hlabel

/-- The labels of the script, collected from all of its tokens. -/
def collected (m : Machine) : LabelIndex.Collected :=
  LabelIndex.collectFrom m.limits.maxLabels m.reader.lexer.tokenBound {} m.reader.lexer.reset []

theorem prepare_of_error {e : Error} (h : m.collected.outcome = .error e) :
    ∃ journal, let stopped := { m with reader := ⟨m.collected.lexer, journal⟩ }
      prepare m = (.error (stopped.diagnose e), stopped) := by
  have hfound : LabelIndex.collect m.limits.maxLabels m.reader.lexer = m.collected := by
    unfold collected at h ⊢
    simp only [LabelIndex.collect, h]
  unfold prepare
  simp only [hfound, h]
  exact ⟨_, rfl⟩

theorem prepare_of_ok {index : LabelIndex} (h : m.collected.outcome = .ok index) :
    ∃ journal, let ready :=
        { m with
          reader := ⟨m.collected.lexer.reset, journal⟩
          labels := index
          loops := { capacity := m.limits.maxLoopDepth } }
      prepare m = (.ok ready, ready) := by
  obtain ⟨notes, hfound⟩ : ∃ notes, LabelIndex.collect m.limits.maxLabels m.reader.lexer =
      ⟨.ok index, m.collected.lexer.reset, notes⟩ := by
    unfold collected at h ⊢
    simp only [LabelIndex.collect, h]
    exact ⟨_, rfl⟩
  unfold prepare
  simp only [hfound]
  exact ⟨_, rfl⟩

theorem run_of_prepare {ready : Machine} (h : (prepare m).1 = .ok ready) (fuel : Nat) :
    run fuel m = runFrom fuel ready := by
  unfold run
  rcases hfound : prepare m with ⟨result, stopped⟩
  rw [hfound] at h
  cases h
  rfl

/-- More steps than a run needs do not change it. -/
theorem runFrom_mono {fuel fuel' : Nat} {m' : Machine} {result : Except ScriptError Outcome}
    (h : runFrom fuel m = (some result, m')) (hle : fuel ≤ fuel') :
    runFrom fuel' m = (some result, m') := by
  induction fuel generalizing m fuel' with
  | zero => cases h
  | succ fuel ih =>
      obtain ⟨fuel', rfl⟩ : ∃ k, fuel' = k + 1 := ⟨fuel' - 1, by omega⟩
      rw [runFrom] at h ⊢
      cases hstep : step m with
      | error e m₁ => rw [hstep] at h; exact h
      | ok outcome m₁ =>
          rw [hstep] at h
          cases outcome with
          | some outcome => exact h
          | none => exact ih h (by omega)

theorem run_mono {fuel fuel' : Nat} {m' : Machine} {result : Except ScriptError Outcome}
    (h : run fuel m = (some result, m')) (hle : fuel ≤ fuel') :
    run fuel' m = (some result, m') := by
  unfold run at h ⊢
  cases hprepare : prepare m with
  | mk prepared stopped =>
      rw [hprepare] at h
      cases prepared with
      | error e => exact h
      | ok ready => exact runFrom_mono h hle

theorem Located.prepare (hm : Located source params m) :
    Located source params (prepare m).2 ∧
      ∀ ready, (prepare m).1 = .ok ready → Located source params ready := by
  have hall := hm.collecting m.reader.lexer.tokenBound
  cases hfound : m.collected.outcome with
  | error e =>
      obtain ⟨journal, hrun⟩ := prepare_of_error hfound
      rw [hrun]
      exact ⟨{ hall with labels := hm.labels }, fun _ h => nomatch h⟩
  | ok index =>
      have hlabels : (m.collecting m.reader.lexer.tokenBound).labels = index := by
        unfold collected at hfound
        simp only [Machine.collecting, hfound]
      obtain ⟨journal, hrun⟩ := prepare_of_ok hfound
      rw [hrun]
      have hready : Located source params
          { m with
            reader := ⟨m.collected.lexer.reset, journal⟩
            labels := index
            loops := { capacity := m.limits.maxLoopDepth } } :=
        { hall.seek (isPlace_start source) with
          labels := hlabels ▸ hall.labels
          markers := fun _ h => nomatch h
          depth := Nat.zero_le _
          capacity := rfl }
      refine ⟨hready, ?_⟩
      rintro _ ⟨⟩
      exact hready

theorem Located.run (hm : Located source params m) (fuel : Nat) :
    Located source params (run fuel m).2 :=
  run_invariant hm.prepare (fun _ h => h.step) (fun _ _ _ h => { h with }) fuel

theorem located_new (source : String) (params : List String) (limits : Limits) (world : World)
    (store : Store) :
    Located source.toList params
      { Machine.new source params limits world with store := store } where
  source_eq := rfl
  params_eq := rfl
  sound := sound_of_start rfl rfl rfl
  labels := fun _ h => nomatch h
  markers := fun _ h => nomatch h
  depth := Nat.zero_le _
  capacity := rfl

/-! ## Whole runs -/

/-- What is true of the places that a machine keeps: they are in the text, on
boundaries between characters and on the line that they say; loops are open at
`while` commands, and not too many; labels go on right after the label of their name. -/
structure Placed (source : String) (params : List String) (m : Machine) : Prop where
  exact : ∀ cursor, m.Holds cursor → cursor.Exact source
  depth : m.loops.depth ≤ m.limits.maxLoopDepth
  markers : ∀ marker ∈ m.loops.markers, ∃ token,
    (scanAt source.toList params marker).outcome = .ok token ∧
      token.kind = .command .whileBlock ∧ token.start = marker
  labels : ∀ label ∈ m.labels.labels, ∃ start, start.Exact source ∧
    (scanAt source.toList params start).outcome = .ok ⟨.label, label.name, start⟩ ∧
      (scanAt source.toList params start).cursor = label.target

theorem Located.placed {source : String} (h : Located source.toList params m) :
    Placed source params m where
  exact := fun _ hholds => (h.isPlace_of_holds hholds).exact
  depth := h.capacity ▸ h.depth
  markers := fun marker hmarker => (h.markers marker hmarker).2
  labels := fun label hlabel => by
    obtain ⟨start, hstart, hends⟩ := h.labels label hlabel
    exact ⟨start, hstart.exact, hends⟩

/-- On the way from one lexer to another tokens of the source are taken, and the line
for errors is the line of the last one. -/
def TellsLine (source : String) (lexer lexer' : Lexer) : Prop :=
  ∃ tokens, Takes lexer tokens lexer' ∧ (∀ token ∈ tokens, token.start.Exact source) ∧
    lexer'.line = (tokens.getLast?.map (·.start.line)).getD lexer.line

theorem tellsLine_of_moves {source : String} {lexer lexer' : Lexer}
    (hsource : lexer.source = source.toList) (hsound : lexer.Sound)
    (hmoves : Moves (fun _ => False) lexer lexer') : TellsLine source lexer lexer' := by
  obtain ⟨tokens, htakes⟩ := hmoves.takes
  refine ⟨tokens, htakes, ?_, htakes.line_eq⟩
  intro token hmem
  exact IsPlace.exact (hsource ▸ (htakes.token_mem hsound hmem).1)

end Machine

open Machine in
/-- In every state of every run, while the labels are collected and after any number
of steps, all cursors are placed in the text.  So are the cursors that the lexer goes
through during a step, and an error is reported on the line of the last token
taken. -/
theorem Machine.run_placed (source : String) (params : List String) (limits : Limits)
    (world : World) (store : Store) :
    let m := { Machine.new source params limits world with store := store }
    (∀ count, Placed source params (m.collecting count) ∧
      TellsLine source m.reader.lexer.reset (m.collecting count).reader.lexer) ∧
    ∀ fuel,
      let now := (run fuel m).2
      Placed source params now ∧
      (∀ lexer, Moves now.IsTarget now.reader.lexer lexer →
        lexer.cursor.Exact source ∧ lexer.position.Exact source) ∧
      match step now with
      | .ok _ after => Moves now.IsTarget now.reader.lexer after.reader.lexer
      | .error e after => TellsLine source now.reader.lexer after.reader.lexer ∧
          (after.diagnose e).line = after.reader.lexer.line := by
  intro m
  have hm : Located source.toList params m :=
    { source_eq := rfl
      params_eq := rfl
      sound := sound_of_start rfl rfl rfl
      labels := fun _ h => nomatch h
      markers := fun _ h => nomatch h
      depth := Nat.zero_le _
      capacity := rfl }
  refine ⟨fun count => ⟨(hm.collecting count).placed, ?_⟩, fun fuel => ?_⟩
  · exact tellsLine_of_moves rfl (sound_reset _) (moves_collecting m count)
  · intro now
    have hnow : Located source.toList params now := hm.run fuel
    refine ⟨hnow.placed, ?_, ?_⟩
    · intro lexer hmoves
      have hsound := hmoves.sound
        (fun _ htarget => hnow.source_eq.symm ▸ hnow.isPlace_of_isTarget htarget) hnow.sound
      have hsource := hmoves.source_eq.trans hnow.source_eq
      exact ⟨IsPlace.exact (hsource ▸ hsound.cursor), IsPlace.exact (hsource ▸ hsound.position)⟩
    · have hstep := step_moves now
      cases hs : step now with
      | ok outcome after =>
          rw [hs] at hstep
          exact hstep
      | error e after =>
          rw [hs] at hstep
          exact ⟨tellsLine_of_moves hnow.source_eq hnow.sound hstep, rfl⟩

end MatrixScript
