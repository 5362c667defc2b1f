import Mathlib.Data.List.Forall2
import MatrixScript.Proofs.Lexing.Labels
import MatrixScript.Proofs.Lockstep.Alignment
import MatrixScript.Proofs.Lockstep.Statement
import MatrixScript.Proofs.Run.Effect

/-!
# Control flow in step

Aligned machines jump to corresponding places, pass over corresponding blocks and open and
close their loops together.  Their labels are related one by one: the names are spelled
alike, and the targets are places where reading can go on in both scripts.
-/

namespace MatrixScript

open Lexer Machine

namespace Alignment

variable {A : Alignment} {phase : Phase} {a b : Lexer} {α β : Type}

/-! ## Blocks -/

/-- Passing over the rest of a line leaves no more ahead than taking the token did. -/
theorem Aligned.ahead_skipLine_lt {token token' : Token} (h : A.Aligned phase a b)
    (left : a.next.outcome = .ok token) (right : b.next.outcome = .ok token')
    (hkind : token.kind ≠ .delimiter .endOfScript) (kind_eq : token'.kind = token.kind) :
    min a.next.lexer.skipLine.2.ahead b.next.lexer.skipLine.2.ahead < min a.ahead b.ahead := by
  have hlt := h.ahead_next_lt left right hkind kind_eq
  have hleft := h.sound_left.next.ahead_skipLine_le
  have hright := h.sound_right.next.ahead_skipLine_le
  omega

theorem Aligned.sameLine_next {token token' : Token} (left : a.next.outcome = .ok token)
    (right : b.next.outcome = .ok token') (line_eq : token'.start.line = token.start.line) :
    SameLine a.next.lexer b.next.lexer := by
  rw [SameLine, line_next left, line_next right, line_eq]

/-- Both scripts pass over a block in step.  The bounds on the numbers of tokens may
differ, and both are larger than what is ahead. -/
theorem paired_skipFrom (block : Flow.Block) {n bound bound' : Nat} (hn : n < bound)
    (hn' : n < bound') (depth : Nat) :
    ReadPaired A.spelling SameLine
      (fun a b => A.Aligned .start a b ∧ min a.ahead b.ahead ≤ n) Eq (A.Aligned .start)
      (Flow.skipFrom block bound depth) (Flow.skipFrom block bound' depth) := by
  induction bound generalizing n bound' depth with
  | zero => omega
  | succ bound ih =>
      obtain ⟨bound', rfl⟩ : ∃ c, bound' = c + 1 := ⟨bound' - 1, by omega⟩
      rintro r s ⟨h, hle⟩
      unfold Flow.skipFrom
      cases h.next with
      | fault left right accord =>
          rw [bind_of_eq_error (Reader.next_of_error left),
            bind_of_eq_error (Reader.next_of_error right)]
          refine .error (Error.accords_parse accord) ?_
          rw [SameLine, line_next_of_error left, line_next_of_error right, h.line_eq]
      | finish left right accord line_eq kind_eq =>
          rw [bind_of_eq_ok (Reader.next_of_ok left), bind_of_eq_ok (Reader.next_of_ok right),
            accord.kind_eq, kind_eq]
          exact .error (.refl _) (Aligned.sameLine_next left right line_eq)
      | @token token token' left right accord kind_ne place start _ remark =>
          rw [bind_of_eq_ok (Reader.next_of_ok left), bind_of_eq_ok (Reader.next_of_ok right),
            accord.kind_eq]
          have hless := (h.ahead_next_lt left right kind_ne accord.kind_eq).trans_le hle
          have hlt : min r.lexer.next.lexer.ahead s.lexer.next.lexer.ahead ≤ n - 1 :=
            Nat.le_sub_one_of_lt hless
          have hpos : 0 < n := (Nat.zero_le _).trans_lt hless
          -- All but remarks go on with the next token.
          have hgo (hkind : token.kind ≠ .command .rem) (depth : Nat) :=
            ih (show n - 1 < bound by omega) (show n - 1 < bound' by omega) depth
              ⟨r.lexer.next.lexer, r.journal ++ r.lexer.next.notes⟩
              ⟨s.lexer.next.lexer, s.journal ++ s.lexer.next.notes⟩
              ⟨(start hkind).1, hlt⟩
          cases hkind : token.kind with
          | command command =>
              dsimp only
              by_cases hrem : command = .rem
              · subst hrem
                have hlt' := Nat.le_sub_one_of_lt
                  ((h.ahead_skipLine_lt left right kind_ne accord.kind_eq).trans_le hle)
                rw [if_pos rfl, if_pos rfl]
                exact ih (show n - 1 < bound by omega) (by omega) depth _ _
                  ⟨(remark hkind).2, hlt'⟩
              · have hne : token.kind ≠ .command .rem := by simpa [hkind] using hrem
                rw [if_neg hrem, if_neg hrem]
                split
                · exact hgo hne _
                · split
                  · cases depth with
                    | zero => exact .ok ⟨rfl, (start hne).1⟩
                    | succ depth => exact hgo hne _
                  · exact hgo hne _
          | delimiter mark =>
              have hne : token.kind ≠ .command .rem := by simp [hkind]
              cases mark with
              | endOfScript => exact absurd hkind kind_ne
              | _ => exact hgo hne _
          | word | number | function _ | string | quote | label =>
              exact hgo (by simp [hkind]) _

theorem paired_skip (block : Flow.Block) :
    ReadPaired A.spelling SameLine (A.Aligned .start) Eq (A.Aligned .start) (Flow.skip block)
      (Flow.skip block) := by
  intro r s h
  have hleft := h.sound_left.ahead_lt_tokenBound
  have hright := h.sound_right.ahead_lt_tokenBound
  exact paired_skipFrom block (show min r.lexer.ahead s.lexer.ahead < _ by omega) (by omega) 0 r s
    ⟨h, le_rfl⟩

/-! ## Labels -/

/-- Labels that are spelled alike and have corresponding targets. -/
structure SameLabel (A : Alignment) (label label' : Label) : Prop where
  name_eq : A.spelling.fold label'.name = A.spelling.fold label.name
  target : A.SamePlace label.target label'.target

/-- The labels are the same, one by one. -/
def SameIndex (A : Alignment) (index index' : LabelIndex) : Prop :=
  List.Forall₂ A.SameLabel index.labels index'.labels

variable {index index' : LabelIndex}

theorem SameIndex.size_eq (h : A.SameIndex index index') : index'.size = index.size :=
  h.length_eq.symm

/-- The same label is found by a name in any spelling that counts the same. -/
theorem SameIndex.find? {name name' : String} (h : A.SameIndex index index')
    (hname : A.spelling.fold name' = A.spelling.fold name) :
    (index.find? name = none ∧ index'.find? name' = none) ∨
      ∃ label label', index.find? name = some label ∧ index'.find? name' = some label' ∧
        A.SameLabel label label' := by
  unfold LabelIndex.find?
  unfold SameIndex at h
  rw [Spelling.foldCase_eq_of_fold_eq hname]
  generalize index.labels = labels at h
  generalize index'.labels = labels' at h
  induction h with
  | nil => exact .inl ⟨rfl, rfl⟩
  | @cons label label' _ _ hlabel _ ih =>
      have hcase := Spelling.foldCase_eq_of_fold_eq hlabel.name_eq
      rw [List.find?_cons, List.find?_cons, hcase]
      split
      · exact .inr ⟨label, label', rfl, rfl, hlabel⟩
      · exact ih

theorem SameIndex.push {label label' : Label} (h : A.SameIndex index index')
    (hlabel : A.SameLabel label label') :
    A.SameIndex ⟨index.labels ++ [label]⟩ ⟨index'.labels ++ [label']⟩ :=
  List.rel_append h (.cons hlabel .nil)

/-- What is collected from both scripts: errors that accord, on the same line, or the same
labels. -/
inductive SameLabels (A : Alignment) (found found' : LabelIndex.Collected) : Prop where
  | error {e e' : Error} (left : found.outcome = .error e) (right : found'.outcome = .error e')
      (accord : e.Accords A.spelling e') (line : SameLine found.lexer found'.lexer)
  | ok {index index' : LabelIndex} (left : found.outcome = .ok index)
      (right : found'.outcome = .ok index') (h : A.SameIndex index index')

open LabelIndex in
theorem sameLabels_collectFrom (max : Nat) {n bound bound' : Nat} (hn : n < bound)
    (hn' : n < bound') (hindex : A.SameIndex index index') (h : A.Aligned .start a b)
    (hle : min a.ahead b.ahead ≤ n) (notes notes' : List Note) :
    A.SameLabels (collectFrom max bound index a notes)
      (collectFrom max bound' index' b notes') := by
  induction bound generalizing n bound' index index' a b notes notes' with
  | zero => omega
  | succ bound ih =>
      obtain ⟨bound', rfl⟩ : ∃ c, bound' = c + 1 := ⟨bound' - 1, by omega⟩
      cases h.next with
      | fault left right accord =>
          rw [collectFrom_of_error left, collectFrom_of_error right]
          refine .error rfl rfl (Error.accords_parse accord) ?_
          rw [SameLine, line_next_of_error left, line_next_of_error right, h.line_eq]
      | finish left right accord line_eq kind_eq =>
          rw [collectFrom_of_end left kind_eq,
            collectFrom_of_end right (accord.kind_eq.trans kind_eq)]
          exact .ok rfl rfl hindex
      | @token token token' left right accord kind_ne place start _ remark =>
          have hlt := h.ahead_next_lt left right kind_ne accord.kind_eq
          have hlt' := h.ahead_skipLine_lt left right kind_ne accord.kind_eq
          by_cases hrem : token.kind = .command .rem
          · rw [collectFrom_of_rem left hrem, collectFrom_of_rem right (accord.kind_eq.trans hrem)]
            exact ih (show n - 1 < bound by omega) (by omega) hindex (remark hrem).2 (by omega) _ _
          obtain ⟨haligned, hposition⟩ := start hrem
          by_cases hlabel : token.kind = .label
          · have hlabel' := accord.kind_eq.trans hlabel
            rw [collectFrom, collectFrom]
            simp only [left, right, hlabel, hlabel']
            rcases hindex.find? accord.fold_eq with
              ⟨hnone, hnone'⟩ | ⟨known, known', hknown, hknown', _⟩
            · rw [hnone, hnone', hindex.size_eq]
              by_cases hfull : max ≤ index.size
              · simp only [Option.isSome_none, Bool.false_eq_true, hfull, if_true, if_false]
                exact .error rfl rfl (.refl _) haligned.line_eq
              · simp only [Option.isSome_none, Bool.false_eq_true, hfull, if_false]
                exact ih (show n - 1 < bound by omega) (by omega)
                  (hindex.push ⟨accord.fold_eq, hposition⟩) haligned (by omega) _ _
            · rw [hknown, hknown']
              simp only [Option.isSome_some, if_true]
              exact ih (show n - 1 < bound by omega) (by omega) hindex haligned (by omega) _ _
          · rw [collectFrom_of_other left kind_ne hrem hlabel,
              collectFrom_of_other right (accord.kind_eq ▸ kind_ne) (accord.kind_eq ▸ hrem)
                (accord.kind_eq ▸ hlabel)]
            exact ih (show n - 1 < bound by omega) (by omega) hindex haligned (by omega) _ _

/-! ## Jumps, conditions and loops -/

/-- Labels and loops with corresponding places. -/
structure SameControl (A : Alignment) (index : LabelIndex) (loops : LoopStack)
    (index' : LabelIndex) (loops' : LoopStack) : Prop where
  index : A.SameIndex index index'
  markers : List.Forall₂ A.SamePlace loops.markers loops'.markers
  capacity_eq : loops'.capacity = loops.capacity

/-- The programs run in step on aligned machines, with lexers related by `P` before and at
corresponding places after. -/
abbrev Steps (A : Alignment) (P : Lexer → Lexer → Prop) (V : α → β → Prop) (x : ExecM α)
    (y : ExecM β) : Prop :=
  ExecPaired A.spelling SameLine A.SameControl P V (A.Aligned .start) x y

theorem sameLine_of_near {n : Nat} : ∀ a b, A.Near n a b → SameLine a b :=
  fun _ _ h => h.1.line_eq

theorem start_of_near {n : Nat} : ∀ a b, A.Near n a b → A.Aligned .start a b :=
  fun _ _ h => h.1.start

theorem steps_seek {cursor cursor' : Cursor} (h : A.SamePlace cursor cursor') :
    A.Steps (A.Aligned phase) Eq (ExecM.read (Reader.seek cursor))
      (ExecM.read (Reader.seek cursor')) :=
  fun _ _ hjoined => .ok ⟨rfl, { hjoined with lexer := hjoined.lexer.seek h }⟩

/-- A statement takes a token, and fails if it ends there. -/
theorem steps_next_bind {V : α → β → Prop} {f : Token → ExecM α} {g : Token → ExecM β}
    (hend : ∀ token token', token.Accords A.spelling token' → token.endsStatement = true →
      Paired (Error.Accords A.spelling) (Parted SameLine) (Parted SameLine) V
        (Joined A.SameControl (A.Aligned .start)) (f token) (g token'))
    (hgo : ∀ token token', token.Accords A.spelling token' → token.endsStatement = false →
      A.Steps (A.Aligned .within) V (f token) (g token')) :
    A.Steps (A.Aligned .within) V (ExecM.read Reader.next >>= f)
      (ExecM.read Reader.next >>= g) := by
  intro m m' h
  cases h.lexer.next with
  | fault left right accord =>
      rw [bind_of_eq_error (read_next_of_error left), bind_of_eq_error (read_next_of_error right)]
      refine .error (Error.accords_parse accord) { h with lexer := ?_ }
      exact (line_next_of_error right).trans
        (h.lexer.line_eq.trans (line_next_of_error left).symm)
  | finish left right accord line_eq kind_eq =>
      rw [bind_of_eq_ok (read_next_of_ok left), bind_of_eq_ok (read_next_of_ok right)]
      exact hend _ _ accord (Token.endsStatement_iff.mpr (.inr kind_eq)) _ _
        { h with lexer := Aligned.sameLine_next left right line_eq }
  | @token token token' left right accord _ place _ within _ =>
      rw [bind_of_eq_ok (read_next_of_ok left), bind_of_eq_ok (read_next_of_ok right)]
      cases hends : token.endsStatement with
      | true =>
          exact hend _ _ accord hends _ _
            { h with lexer := Aligned.sameLine_next left right place.line_eq }
      | false => exact hgo _ _ accord hends _ _ { h with lexer := within hends nofun }

theorem steps_goto : A.Steps (A.Aligned .within) Eq Flow.goto Flow.goto := by
  refine steps_next_bind (fun token token' accord hends => ?_) fun token token' accord hends => ?_
  · rw [accord.endsStatement_eq, hends]
    exact fun _ _ h => .error (.refl _) h
  · rw [accord.endsStatement_eq, hends]
    refine paired_get_bind fun m m' h => ?_
    rcases h.control.index.find? accord.fold_eq with
      ⟨hnone, hnone'⟩ | ⟨label, label', hfound, hfound', hlabel⟩
    · simp only [hnone, hnone']
      exact execPaired_throw (congrArg (Error.flow ∘ FlowError.unknownLabel) accord.fold_eq)
        fun _ _ h => h.line_eq
    · simp only [hfound, hfound']
      exact (execPaired_note _ _ _ _).bind fun _ _ _ => steps_seek hlabel.target

theorem steps_skip (block : Flow.Block) :
    A.Steps (A.Aligned .start) Eq (ExecM.read (Flow.skip block)) (ExecM.read (Flow.skip block)) :=
  execPaired_read (paired_skip block)

theorem steps_ifStatement {n : Nat} :
    A.Steps (A.Near n) Eq Flow.ifStatement Flow.ifStatement := by
  refine execPaired_env.bind ?_
  rintro env _ rfl
  refine (execPaired_read A.pacing.alike_condition).bind ?_
  rintro holds _ rfl
  refine Paired.imp ?_ (fun _ _ h => h.imp start_of_near) (fun _ _ h => h) fun _ _ h => h
  cases holds with
  | true => exact paired_pure rfl
  | false => exact steps_skip _

section Loops

variable {P : Lexer → Lexer → Prop} (hP : ∀ a b, P a b → SameLine a b)

include hP

theorem paired_pushLoop {start start' : Cursor} (h : A.SamePlace start start') :
    ExecPaired A.spelling SameLine A.SameControl P Eq P (Flow.pushLoop start)
      (Flow.pushLoop start') := by
  intro m m' hjoined
  have hdepth : m'.loops.depth = m.loops.depth := hjoined.control.markers.length_eq.symm
  have hcapacity := hjoined.control.capacity_eq
  by_cases hfull : m.loops.capacity ≤ m.loops.depth
  · have hfull' : m'.loops.capacity ≤ m'.loops.depth := by omega
    rw [Flow.pushLoop_of_error (if_pos hfull), Flow.pushLoop_of_error (if_pos hfull'), hcapacity]
    exact .error (.refl _) (hjoined.parted hP)
  · have hfull' : ¬ m'.loops.capacity ≤ m'.loops.depth := by omega
    rw [Flow.pushLoop_of_ok (if_neg hfull), Flow.pushLoop_of_ok (if_neg hfull')]
    exact .ok ⟨rfl, { hjoined with
      control := ⟨hjoined.control.index, .cons h hjoined.control.markers, hcapacity⟩ }⟩

theorem paired_popLoop :
    ExecPaired A.spelling SameLine A.SameControl P A.SamePlace P Flow.popLoop Flow.popLoop := by
  intro m m' hjoined
  obtain ⟨hindex, hmarkers, hcapacity⟩ := hjoined.control
  cases hloops : m.loops with
  | mk markers capacity =>
      cases hloops' : m'.loops with
      | mk markers' capacity' =>
          rw [hloops, hloops'] at hmarkers hcapacity
          dsimp only at hmarkers hcapacity
          cases hmarkers with
          | nil =>
              rw [Flow.popLoop_of_error (by rw [hloops]; rfl),
                Flow.popLoop_of_error (by rw [hloops']; rfl)]
              exact .error (.refl _) (hjoined.parted hP)
          | cons hfirst hrest =>
              rw [Flow.popLoop_of_ok (by rw [hloops]; rfl),
                Flow.popLoop_of_ok (by rw [hloops']; rfl)]
              exact .ok ⟨hfirst, { hjoined with control := ⟨hindex, hrest, hcapacity⟩ }⟩

end Loops

theorem steps_whileStatement {n : Nat} {start start' : Cursor} (h : A.SamePlace start start') :
    A.Steps (A.Near n) Eq (Flow.whileStatement start) (Flow.whileStatement start') := by
  refine (paired_pushLoop sameLine_of_near h).bind fun _ _ _ => ?_
  refine paired_get_bind fun m m' _ => ?_
  refine (execPaired_note _ _ _ _).bind fun _ _ _ => execPaired_env.bind ?_
  rintro env _ rfl
  refine (execPaired_read A.pacing.alike_condition).bind ?_
  rintro holds _ rfl
  refine Paired.imp ?_ (fun _ _ h => h.imp start_of_near) (fun _ _ h => h) fun _ _ h => h
  cases holds with
  | true => exact paired_pure rfl
  | false =>
      exact (paired_popLoop fun _ _ h => h.line_eq).bind fun _ _ _ => steps_skip _

theorem steps_endWhile : A.Steps (A.Aligned phase) Eq Flow.endWhile Flow.endWhile := by
  refine (paired_popLoop fun _ _ h => h.line_eq).bind fun marker marker' hmarker => ?_
  refine paired_get_bind fun m m' _ => ?_
  exact (execPaired_note _ _ _ _).bind fun _ _ _ => steps_seek hmarker

end Alignment

end MatrixScript
