import MatrixScript.Proofs.Lexing.Labels
import MatrixScript.Proofs.Lexing.Survey
import MatrixScript.Proofs.Monad.Reading
import MatrixScript.Proofs.Structured.Program

/-!
# Passing over lines

Labels are collected and blocks are passed over token by token, with no regard to
lines.  `Passes` tells the kinds of the tokens that are met on the way.  Over a
program, they are balanced for both kinds of blocks and have no label among them
(`Program.passable`): so the collection finds nothing, and a block is passed over up to
the line that closes it.
-/

namespace MatrixScript

open Lexer

/-! ## The lines of a text -/

/-- Each of the texts is a line of the text that they make up. -/
def AreLines : List (List Char) → Prop
  | [] => True
  | line :: lines => IsLine line lines.flatten ∧ AreLines lines

theorem AreLines.of_append {lines more : List (List Char)} (h : AreLines (lines ++ more)) :
    AreLines more := by
  induction lines with
  | nil => exact h
  | cons line lines ih => exact ih h.2

theorem Text.flatten_linesWithEnds (text : List Char) :
    (Text.linesWithEnds text).flatten = text := by
  induction text with
  | nil => rfl
  | cons c rest ih =>
      rw [Text.linesWithEnds]
      by_cases hc : c = '\n'
      · rw [if_pos hc, List.flatten_cons, ih, hc]
        rfl
      · rw [if_neg hc]
        cases hrest : Text.linesWithEnds rest with
        | nil => rw [hrest] at ih; simp [← ih]
        | cons line lines => rw [hrest] at ih; simp [← ih]

theorem isLine_cons {c : Char} {line post : List Char} (hc : c ≠ '\n') (h : IsLine line post) :
    IsLine (c :: line) post := by
  rcases h with ⟨body, rfl, hbody⟩ | ⟨hline, hpost⟩
  · exact .inl ⟨c :: body, rfl, by simp [hbody, hc.symm]⟩
  · exact .inr ⟨by simp [hline, hc.symm], hpost⟩

theorem Text.areLines_linesWithEnds (text : List Char) :
    AreLines (Text.linesWithEnds text) := by
  induction text with
  | nil => trivial
  | cons c rest ih =>
      rw [Text.linesWithEnds]
      by_cases hc : c = '\n'
      · rw [if_pos hc]
        exact ⟨.inl ⟨[], rfl, by simp⟩, ih⟩
      · rw [if_neg hc]
        cases hrest : Text.linesWithEnds rest with
        | nil => exact ⟨.inr ⟨by simpa using Ne.symm hc, rfl⟩, trivial⟩
        | cons line lines =>
            rw [hrest] at ih
            exact ⟨isLine_cons hc ih.1, ih.2⟩

/-! ## The tokens of a line -/

theorem Lexer.upcoming_of_operands? {lexer : Lexer} {bound : Nat} {tokens : List Token}
    (h : lexer.operands? bound = some tokens) :
    ∃ last, last.endsStatement = true ∧ (∀ t ∈ tokens, t.endsStatement = false) ∧
      lexer.Upcoming (tokens ++ [last]) := by
  induction bound generalizing lexer tokens with
  | zero => cases h
  | succ bound ih =>
      rw [operands?] at h
      cases hnext : lexer.next.outcome with
      | error e => rw [hnext] at h; cases h
      | ok token =>
          simp only [hnext] at h
          cases hends : token.endsStatement with
          | true =>
              rw [hends, if_pos rfl] at h
              cases h
              exact ⟨token, hends, by simp, hnext, trivial⟩
          | false =>
              rw [hends, if_neg Bool.false_ne_true] at h
              obtain ⟨others, hothers, rfl⟩ := Option.map_eq_some_iff.mp h
              obtain ⟨last, hlast, hgo, hup⟩ := ih hothers
              refine ⟨last, hlast, ?_, hnext, hup⟩
              rintro t (_ | ⟨_, ht⟩)
              · exact hends
              · exact hgo t ht

theorem next_of_lineStart? {params : List String} {line : List Char} {token : Token}
    (h : lineStart? params line = some token) :
    (ofLine params line).next.outcome = .ok token := by
  unfold lineStart? at h
  cases hnext : (ofLine params line).next.outcome with
  | error e => rw [hnext] at h; cases h
  | ok found => rw [hnext] at h; cases h; rfl

/-- A line is the same to the lexer of the script as to a lexer of its own. -/
theorem beside_ofLine {lexer : Lexer} {params : List String} {before line post : List Char}
    (hfaces : lexer.Faces before (line ++ post)) (hparams : lexer.params = params)
    (hline : IsLine line post) : Beside before post lexer (.ofLine params line) [] line where
  here_faces := by rwa [List.append_nil]
  alone_faces := faces_of_standsAt ⟨rfl, rfl⟩ rfl (sound_of_start rfl rfl rfl)
  params_eq := hparams
  closed := hline.closed

/-! ## Ways over tokens -/

section Passes

variable {lexer : Lexer} {before rest post : List Char}

theorem Lexer.Nears.passes (h : lexer.Nears before rest) :
    ∃ kinds lexer', Passes lexer kinds lexer' ∧ lexer'.Faces before rest ∧
      ∀ kind ∈ kinds, kind = .delimiter .endOfLine := by
  rcases h.2 with hfaces | ⟨token, hnext, hkind, hfaces⟩
  · exact ⟨[], lexer, .refl lexer, hfaces, by simp⟩
  · exact ⟨[.delimiter .endOfLine], lexer.next.lexer,
      .take hnext hkind (by decide) (by decide) (.refl _), hfaces, by simp⟩

theorem Lexer.Beside.passes {pre done : List Char} {here alone : Lexer} {tokens : List Token}
    {last : Token} (h : Beside pre post here alone done rest)
    (hline : IsLine (done ++ rest) post) (hup : alone.Upcoming (tokens ++ [last]))
    (hlast : last.endsStatement = true) (htokens : ∀ t ∈ tokens, t.endsStatement = false)
    (hrem : ∀ t ∈ tokens, t.kind ≠ .command .rem) :
    ∃ kinds here', Passes here (tokens.map (·.kind) ++ kinds) here' ∧
      here'.Faces (pre ++ (done ++ rest)) post ∧
      ∀ kind ∈ kinds, kind = .delimiter .endOfLine := by
  induction tokens generalizing here alone done rest with
  | nil => exact (h.nears hline hup.1 hlast).passes
  | cons first tokens ih =>
      have hgo := htokens first (by simp)
      obtain ⟨token, text, rest', hhere, hsame, rfl, _, _, hbeside⟩ := h.take hup.1 hgo
      rw [← List.append_assoc done] at hline ⊢
      obtain ⟨kinds, here', hpasses, hfaces, hkinds⟩ := ih hbeside hline hup.2
        (fun t ht => htokens t (by simp [ht])) (fun t ht => hrem t (by simp [ht]))
      refine ⟨kinds, here', .take hhere hsame.1 ?_ (hrem first (by simp)) hpasses, hfaces, hkinds⟩
      intro hkind
      simp [Token.endsStatement_eq_false_iff, hkind] at hgo

end Passes

/-! ## Balanced kinds -/

namespace Flow.Block

/-- The two commands of a block differ, and neither of them is a remark. -/
structure IsProper (block : Block) : Prop where
  opening_ne_rem : block.opening ≠ .rem
  closing_ne_rem : block.closing ≠ .rem
  closing_ne_opening : block.closing ≠ block.opening

/-- The blocks of the language are two. -/
def IsKnown (block : Block) : Prop := block = .ifBlock ∨ block = .whileBlock

theorem IsKnown.isProper {block : Block} (h : block.IsKnown) : block.IsProper := by
  rcases h with rfl | rfl
  · constructor <;> decide
  · constructor <;> decide

/-- Each command that opens a block is followed by the one that closes it. -/
inductive Balanced (block : Block) : List TokenKind → Prop where
  | nil : Balanced block []
  | other {kind : TokenKind} {kinds : List TokenKind} (hopening : kind ≠ .command block.opening)
      (hclosing : kind ≠ .command block.closing) (h : Balanced block kinds) :
      Balanced block (kind :: kinds)
  | nested {inner kinds : List TokenKind} (hinner : Balanced block inner)
      (h : Balanced block kinds) :
      Balanced block (.command block.opening :: (inner ++ .command block.closing :: kinds))

variable {block : Block} {kinds more : List TokenKind}

theorem Balanced.append (h : block.Balanced kinds) (h' : block.Balanced more) :
    block.Balanced (kinds ++ more) := by
  induction h with
  | nil => exact h'
  | other hopening hclosing _ ih => exact .other hopening hclosing ih
  | @nested inner kinds hinner _ _ ih =>
      rw [List.cons_append, List.append_assoc, List.cons_append]
      exact .nested hinner ih

theorem balanced_of_forall (h : ∀ kind ∈ kinds, kind ≠ .command block.opening ∧
    kind ≠ .command block.closing) : block.Balanced kinds := by
  induction kinds with
  | nil => exact .nil
  | cons kind kinds ih =>
      obtain ⟨hopening, hclosing⟩ := h kind (by simp)
      exact .other hopening hclosing (ih fun k hk => h k (by simp [hk]))

end Flow.Block

section Skipping

open MatrixScript.Flow

variable {block : Block} {kinds : List TokenKind} {token : Token} {lexer lexer' : Lexer}

section Tokens

variable {bound depth : Nat} {r : Reader}

theorem Flow.skipFrom_of_other (hnext : r.lexer.next.outcome = .ok token)
    (hend : token.kind ≠ .delimiter .endOfScript) (hrem : token.kind ≠ .command .rem)
    (hopening : token.kind ≠ .command block.opening)
    (hclosing : token.kind ≠ .command block.closing) :
    ∃ r', r'.lexer = r.lexer.next.lexer ∧
      skipFrom block (bound + 1) depth r = skipFrom block bound depth r' := by
  refine ⟨_, rfl, (bind_of_eq_ok (Reader.next_of_ok hnext)).trans (congrFun ?_ _)⟩
  split
  · rename_i hkind
    exact absurd hkind hend
  · rename_i command hkind
    rw [hkind, ne_eq, TokenKind.command.injEq] at hrem hopening hclosing
    rw [if_neg hrem, if_neg hopening, if_neg hclosing]
  · rfl

theorem Flow.skipFrom_of_remark (hnext : r.lexer.next.outcome = .ok token)
    (hkind : token.kind = .command .rem) :
    ∃ r', r'.lexer = r.lexer.next.lexer.skipLine.2 ∧
      skipFrom block (bound + 1) depth r = skipFrom block bound depth r' := by
  refine ⟨⟨r.lexer.next.lexer.skipLine.2, r.journal ++ r.lexer.next.notes⟩, rfl, ?_⟩
  refine (bind_of_eq_ok (Reader.next_of_ok hnext)).trans ?_
  simp only [hkind, if_true]
  rfl

theorem Flow.skipFrom_of_opening (hblock : block.IsProper)
    (hnext : r.lexer.next.outcome = .ok token) (hkind : token.kind = .command block.opening) :
    ∃ r', r'.lexer = r.lexer.next.lexer ∧
      skipFrom block (bound + 1) depth r = skipFrom block bound (depth + 1) r' := by
  refine ⟨⟨r.lexer.next.lexer, r.journal ++ r.lexer.next.notes⟩, rfl,
    (bind_of_eq_ok (Reader.next_of_ok hnext)).trans ?_⟩
  simp only [hkind, if_neg hblock.opening_ne_rem, if_true]

/-- The command that closes the block ends the passing, unless more blocks are open. -/
theorem Flow.skipFrom_of_closing (hblock : block.IsProper)
    (hnext : r.lexer.next.outcome = .ok token) (hkind : token.kind = .command block.closing) :
    ∃ r', r'.lexer = r.lexer.next.lexer ∧ skipFrom block (bound + 1) 0 r = .ok () r' ∧
      skipFrom block (bound + 1) (depth + 1) r = skipFrom block bound depth r' := by
  have hnext' := Reader.next_of_ok hnext
  refine ⟨⟨r.lexer.next.lexer, r.journal ++ r.lexer.next.notes⟩, rfl,
    (bind_of_eq_ok hnext').trans ?_, (bind_of_eq_ok hnext').trans ?_⟩
  · simp only [hkind, if_neg hblock.closing_ne_rem, if_neg hblock.closing_ne_opening, if_true]
    rfl
  · simp only [hkind, if_neg hblock.closing_ne_rem, if_neg hblock.closing_ne_opening, if_true]

end Tokens

theorem Flow.skipFrom_of_balanced (hblock : block.IsProper) (hbalanced : block.Balanced kinds)
    (hpasses : Passes lexer kinds lexer') (bound depth : Nat) {r : Reader}
    (hr : r.lexer = lexer) :
    ∃ r', r'.lexer = lexer' ∧
      skipFrom block (kinds.length + bound) depth r = skipFrom block bound depth r' := by
  induction hbalanced generalizing lexer lexer' bound depth r with
  | nil =>
      cases hpasses
      exact ⟨r, hr, by rw [List.length_nil, Nat.zero_add]⟩
  | @other kind kinds hopening hclosing _ ih =>
      subst hr
      rw [List.length_cons, Nat.add_right_comm]
      cases hpasses with
      | take hnext hkind hend hrem hrest =>
          subst hkind
          obtain ⟨r₁, hr₁, hskip⟩ := Flow.skipFrom_of_other hnext hend hrem hopening hclosing
          rw [hskip]
          exact ih hrest bound depth hr₁
      | remark hnext hkind hrest =>
          obtain ⟨r₁, hr₁, hskip⟩ := Flow.skipFrom_of_remark hnext hkind
          rw [hskip]
          exact ih hrest bound depth hr₁
  | @nested inner kinds _ _ ihinner ih =>
      subst hr
      -- The count goes up with the opening command and down again with the closing one.
      obtain ⟨_, hnext, hkind, hpasses⟩ := hpasses.next (by simp [hblock.opening_ne_rem])
      obtain ⟨_, hinside, hpasses⟩ := hpasses.of_append
      obtain ⟨_, hnext', hkind', hrest⟩ := hpasses.next (by simp [hblock.closing_ne_rem])
      obtain ⟨r₁, hr₁, hskip₁⟩ := Flow.skipFrom_of_opening hblock hnext hkind
      obtain ⟨r₂, rfl, hskip₂⟩ := ihinner hinside (kinds.length + bound + 1) (depth + 1) hr₁
      obtain ⟨r₃, hr₃, _, hskip₃⟩ := Flow.skipFrom_of_closing hblock hnext' hkind'
      obtain ⟨r₄, hr₄, hskip₄⟩ := ih hrest bound depth hr₃
      refine ⟨r₄, hr₄, ?_⟩
      have hlength : (TokenKind.command block.opening ::
          (inner ++ .command block.closing :: kinds)).length + bound =
            inner.length + (kinds.length + bound + 1) + 1 := by
        simp only [List.length_cons, List.length_append]
        omega
      rw [hlength, hskip₁, hskip₂, hskip₃, hskip₄]

/-- A block is passed over up to the command that closes it. -/
theorem Flow.skip_of_balanced {r : Reader} (hblock : block.IsProper)
    (hbalanced : block.Balanced kinds) (hpasses : Passes r.lexer kinds lexer')
    (hsound : r.lexer.Sound) (hnext : lexer'.next.outcome = .ok token)
    (hkind : token.kind = .command block.closing) :
    ∃ r', skip block r = .ok () r' ∧ r'.lexer = lexer'.next.lexer := by
  obtain ⟨bound, htokens⟩ := hpasses.tokenBound_eq hsound
  obtain ⟨r₁, rfl, hskip⟩ := Flow.skipFrom_of_balanced hblock hbalanced hpasses (bound + 1) 0 rfl
  obtain ⟨r₂, hr₂, hlast, _⟩ := @Flow.skipFrom_of_closing block token bound 0 r₁ hblock hnext hkind
  refine ⟨r₂, ?_, hr₂⟩
  rw [skip, get_bind_apply, htokens, hskip, hlast]

end Skipping

section Collecting

variable {kinds : List TokenKind} {token : Token} {lexer lexer' : Lexer} {max : Nat}
  {index : LabelIndex}

theorem LabelIndex.collectFrom_of_passes (hpasses : Passes lexer kinds lexer')
    (hlabels : ∀ kind ∈ kinds, kind ≠ .label) (bound : Nat) (notes : List Note) :
    ∃ notes', collectFrom max (kinds.length + bound) index lexer notes =
      collectFrom max bound index lexer' notes' := by
  induction hpasses generalizing notes with
  | refl lexer => exact ⟨notes, by rw [List.length_nil, Nat.zero_add]⟩
  | take hnext hkind hend hrem _ ih =>
      subst hkind
      rw [List.length_cons, Nat.add_right_comm,
        collectFrom_of_other hnext hend hrem (hlabels _ (by simp))]
      exact ih (fun kind hmem => hlabels kind (by simp [hmem])) _
  | remark hnext hkind _ ih =>
      rw [List.length_cons, Nat.add_right_comm, collectFrom_of_rem hnext hkind]
      exact ih (fun kind hmem => hlabels kind (by simp [hmem])) _

/-- No label is found where there is none. -/
theorem LabelIndex.outcome_collectFrom_of_passes (hpasses : Passes lexer kinds lexer')
    (hlabels : ∀ kind ∈ kinds, kind ≠ .label) (hsound : lexer.Sound)
    (hnext : lexer'.next.outcome = .ok token) (hkind : token.kind = .delimiter .endOfScript)
    (notes : List Note) :
    (collectFrom max lexer.tokenBound index lexer notes).outcome = .ok index := by
  obtain ⟨bound, htokens⟩ := hpasses.tokenBound_eq hsound
  obtain ⟨notes', hcollect⟩ :=
    @collectFrom_of_passes kinds lexer lexer' max index hpasses hlabels (bound + 1) notes
  rw [htokens, hcollect, collectFrom_of_end hnext hkind]

end Collecting

/-! ## Programs -/

/-- The kinds of tokens that are neither labels nor parts of a block. -/
def TokenKind.isPlain : TokenKind → Bool
  | .label | .command .ifBlock | .command .endIf | .command .whileBlock
  | .command .endWhile => false
  | _ => true

/-- There are no labels, and all blocks are balanced. -/
structure Tidy (kinds : List TokenKind) : Prop where
  label : ∀ kind ∈ kinds, kind ≠ .label
  ifs : Flow.Block.ifBlock.Balanced kinds
  whiles : Flow.Block.whileBlock.Balanced kinds

section Tidy

variable {kinds more : List TokenKind}

theorem Tidy.append (h : Tidy kinds) (h' : Tidy more) : Tidy (kinds ++ more) where
  label := fun kind hmem => (List.mem_append.mp hmem).elim (h.label kind) (h'.label kind)
  ifs := h.ifs.append h'.ifs
  whiles := h.whiles.append h'.whiles

theorem tidy_of_isPlain (h : ∀ kind ∈ kinds, kind.isPlain = true) : Tidy kinds := by
  have hne {kind : TokenKind} (hmem : kind ∈ kinds) {other : TokenKind}
      (hother : other.isPlain = false) : kind ≠ other := by
    rintro rfl
    rw [h kind hmem] at hother
    cases hother
  exact
    { label := fun kind hmem => hne hmem rfl
      ifs := Flow.Block.balanced_of_forall fun kind hmem => ⟨hne hmem rfl, hne hmem rfl⟩
      whiles := Flow.Block.balanced_of_forall fun kind hmem => ⟨hne hmem rfl, hne hmem rfl⟩ }

theorem tidy_of_newline (h : ∀ kind ∈ kinds, kind = .delimiter .endOfLine) : Tidy kinds :=
  tidy_of_isPlain fun kind hmem => h kind hmem ▸ rfl

theorem tidy_of_tokens {tokens : List Token} (h : ∀ t ∈ tokens, t.kind.isPlain = true)
    (hkinds : ∀ kind ∈ kinds, kind = .delimiter .endOfLine) :
    Tidy (tokens.map (·.kind) ++ kinds) := by
  refine .append (tidy_of_isPlain fun kind hmem => ?_) (tidy_of_newline hkinds)
  obtain ⟨t, ht, rfl⟩ := List.mem_map.mp hmem
  exact h t ht

theorem Tidy.balanced {block : Flow.Block} (hblock : block.IsKnown) (h : Tidy kinds) :
    block.Balanced kinds := by
  rcases hblock with rfl | rfl
  · exact h.ifs
  · exact h.whiles

theorem Tidy.nested {block : Flow.Block} (hblock : block.IsKnown) (h : Tidy kinds)
    (h' : Tidy more) :
    Tidy (.command block.opening :: (kinds ++ .command block.closing :: more)) := by
  have hlabel : ∀ kind ∈ TokenKind.command block.opening ::
      (kinds ++ .command block.closing :: more), kind ≠ .label := by
    simp only [List.mem_cons, List.mem_append]
    rintro kind (rfl | hmem | rfl | hmem)
    · simp
    · exact h.label kind hmem
    · simp
    · exact h'.label kind hmem
  rcases hblock with rfl | rfl
  · exact
      { label := hlabel
        ifs := .nested h.ifs h'.ifs
        whiles := .other (by decide) (by decide)
          (h.whiles.append (.other (by decide) (by decide) h'.whiles)) }
  · exact
      { label := hlabel
        ifs := .other (by decide) (by decide)
          (h.ifs.append (.other (by decide) (by decide) h'.ifs))
        whiles := .nested h.whiles h'.whiles }

end Tidy

section Lines

variable {lexer : Lexer} {params : List String} {before line post : List Char}
  {tokens : List Token} {token : Token}

theorem isPlain_of_isOperand (h : token.isOperand = true) :
    token.kind.isPlain = true ∧ token.kind ≠ .command .rem := by
  unfold Token.isOperand at h
  cases hkind : token.kind with
  | command _ | label => rw [hkind] at h; cases h
  | delimiter _ | word | number | function _ | string | quote => exact ⟨rfl, by simp⟩

theorem isPlain_of_isStatement (h : isStatement tokens = true) :
    ∀ t ∈ tokens, t.kind.isPlain = true ∧ t.kind ≠ .command .rem := by
  cases tokens with
  | nil => simp
  | cons first operands =>
      obtain ⟨hoperands, hfirst⟩ := Bool.and_eq_true_iff.mp h
      rintro t (_ | ⟨_, hmem⟩)
      · cases hkind : first.kind with
        | command command =>
            rw [hkind] at hfirst
            cases command with
            | load | save | print | tridiag | compocor | composupp | compocsupp =>
                exact ⟨rfl, by decide⟩
            | goto | rem | quit | ifBlock | endIf | whileBlock | endWhile => cases hfirst
        | label => rw [hkind] at hfirst; cases hfirst
        | delimiter _ | word | number | function _ | string | quote => exact ⟨rfl, by simp⟩
      · exact isPlain_of_isOperand (List.all_eq_true.mp hoperands t hmem)

theorem passes_of_lineTokens? (htokens : lineTokens? params line = some tokens)
    (hrem : ∀ t ∈ tokens, t.kind ≠ .command .rem) (hline : IsLine line post)
    (hparams : lexer.params = params) (hfaces : lexer.Faces before (line ++ post)) :
    ∃ kinds lexer', Passes lexer (tokens.map (·.kind) ++ kinds) lexer' ∧
      lexer'.Faces (before ++ line) post ∧ ∀ kind ∈ kinds, kind = .delimiter .endOfLine := by
  obtain ⟨last, hlast, hgo, hup⟩ := upcoming_of_operands? htokens
  exact (beside_ofLine hfaces hparams hline).passes hline hup hlast hgo hrem

theorem IsSimple.passes (h : IsSimple params line) (hline : IsLine line post)
    (hparams : lexer.params = params) (hfaces : lexer.Faces before (line ++ post)) :
    ∃ kinds lexer', Passes lexer kinds lexer' ∧ Tidy kinds ∧
      lexer'.Faces (before ++ line) post := by
  rcases h with ⟨token, htoken, hkind⟩ | ⟨tokens, htokens, hstatement⟩
  · have hnext := next_of_lineStart? htoken
    have hgo : token.endsStatement = false := by
      simp [Token.endsStatement_eq_false_iff, hkind]
    obtain ⟨token', text, rest, hhere, hsame, rfl, hhere_at, halone_at, hbeside⟩ :=
      (beside_ofLine hfaces hparams hline).take hnext hgo
    have hnears := hbeside.nears_skipLine hline hhere_at halone_at (peeked_next _) (peeked_next _)
    obtain ⟨kinds, lexer', hpasses, hfaces', hkinds⟩ := hnears.passes
    refine ⟨_, lexer', .remark hhere (hsame.1.trans hkind) hpasses, ?_, hfaces'⟩
    have hremark : Tidy [.command .rem] := tidy_of_isPlain (by simp [TokenKind.isPlain])
    exact hremark.append (tidy_of_newline hkinds)
  · have hplain := isPlain_of_isStatement hstatement
    obtain ⟨kinds, lexer', hpasses, hfaces', hkinds⟩ := passes_of_lineTokens? htokens
      (fun t ht => (hplain t ht).2) hline hparams hfaces
    exact ⟨_, lexer', hpasses, tidy_of_tokens (fun t ht => (hplain t ht).1) hkinds, hfaces'⟩

theorem IsHead.passes {command : Command} (h : IsHead params command line)
    (hcommand : command ≠ .rem) (hline : IsLine line post) (hparams : lexer.params = params)
    (hfaces : lexer.Faces before (line ++ post)) :
    ∃ kinds lexer', Passes lexer (.command command :: kinds) lexer' ∧ Tidy kinds ∧
      lexer'.Faces (before ++ line) post := by
  obtain ⟨first, operands, htokens, hfirst, hoperands⟩ := h.tokens
  have hplain : ∀ t ∈ operands, t.kind.isPlain = true ∧ t.kind ≠ .command .rem :=
    fun t ht => isPlain_of_isOperand (List.all_eq_true.mp hoperands t ht)
  have hrem : ∀ t ∈ first :: operands, t.kind ≠ .command .rem := by
    rintro t (_ | ⟨_, ht⟩)
    · simp [hfirst, hcommand]
    · exact (hplain t ht).2
  obtain ⟨kinds, lexer', hpasses, hfaces', hkinds⟩ :=
    passes_of_lineTokens? htokens hrem hline hparams hfaces
  rw [List.map_cons, List.cons_append, hfirst] at hpasses
  exact ⟨_, lexer', hpasses, tidy_of_tokens (fun t ht => (hplain t ht).1) hkinds, hfaces'⟩

/-- The command of a line that has nothing else is taken, and then what follows the line
is next. -/
theorem IsFoot.nears {command : Command} (h : IsFoot params command line)
    (hline : IsLine line post) (hparams : lexer.params = params)
    (hfaces : lexer.Faces before (line ++ post)) :
    ∃ token, lexer.next.outcome = .ok token ∧ token.kind = .command command ∧
      lexer.next.lexer.Nears (before ++ line) post := by
  obtain ⟨tokens, htokens, hkinds⟩ := h
  obtain ⟨first, rfl, hfirst⟩ := List.map_eq_singleton_iff.mp hkinds
  obtain ⟨last, hlast, hgo, hup⟩ := upcoming_of_operands? htokens
  obtain ⟨token, text, rest, hhere, hsame, rfl, _, _, hbeside⟩ :=
    (beside_ofLine hfaces hparams hline).take hup.1 (hgo first (by simp))
  exact ⟨token, hhere, hsame.1.trans hfirst, hbeside.nears hline hup.2.1 hlast⟩

end Lines

/-- Wherever these lines stand in a script, they can be passed over as a whole. -/
def Passable (params : List String) (lines : List (List Char)) : Prop :=
  ∀ (before : List Char) (after : List (List Char)) (lexer : Lexer),
    AreLines (lines ++ after) → lexer.params = params →
    lexer.Faces before (lines ++ after).flatten →
    ∃ kinds lexer', Passes lexer kinds lexer' ∧ Tidy kinds ∧
      lexer'.Faces (before ++ lines.flatten) after.flatten

section Passable

variable {params : List String} {line head foot : List Char} {lines body : List (List Char)}

theorem Passable.cons (hsimple : IsSimple params line) (h : Passable params lines) :
    Passable params (line :: lines) := by
  intro before after lexer harelines hparams hfaces
  rw [List.cons_append, List.flatten_cons] at hfaces
  obtain ⟨kinds, lexer₁, hpasses, htidy, hfaces₁⟩ :=
    hsimple.passes harelines.1 hparams hfaces
  obtain ⟨more, lexer₂, hmore, htidy', hfaces₂⟩ :=
    h _ after lexer₁ harelines.2 (hpasses.params_eq.trans hparams) hfaces₁
  refine ⟨kinds ++ more, lexer₂, hpasses.trans hmore, htidy.append htidy', ?_⟩
  rwa [List.flatten_cons, ← List.append_assoc]

/-- A block with its two lines, and what follows it. -/
theorem Passable.block {block : Flow.Block} (hblock : block.IsKnown)
    (hhead : IsHead params block.opening head) (hbody : Passable params body)
    (hfoot : IsFoot params block.closing foot) (h : Passable params lines) :
    Passable params (head :: (body ++ foot :: lines)) := by
  intro before after lexer harelines hparams hfaces
  have hproper := hblock.isProper
  rw [List.cons_append, List.append_assoc, List.cons_append] at harelines hfaces
  rw [List.flatten_cons] at hfaces
  have harelines' := harelines.2.of_append
  obtain ⟨kinds₁, lexer₁, hpasses₁, htidy₁, hfaces₁⟩ :=
    hhead.passes hproper.opening_ne_rem harelines.1 hparams hfaces
  have hparams₁ := hpasses₁.params_eq.trans hparams
  obtain ⟨kinds₂, lexer₂, hpasses₂, htidy₂, hfaces₂⟩ :=
    hbody _ _ lexer₁ harelines.2 hparams₁ hfaces₁
  have hparams₂ := hpasses₂.params_eq.trans hparams₁
  rw [List.flatten_cons] at hfaces₂
  obtain ⟨token, hnext, hkind, hnears⟩ := hfoot.nears harelines'.1 hparams₂ hfaces₂
  obtain ⟨kinds₃, lexer₃, hpasses₃, hfaces₃, hkinds₃⟩ := hnears.passes
  have hclosing : Passes lexer₂ (.command block.closing :: kinds₃) lexer₃ :=
    .take hnext hkind (by simp) (by simp [hproper.closing_ne_rem]) hpasses₃
  obtain ⟨kinds₄, lexer₄, hpasses₄, htidy₄, hfaces₄⟩ :=
    h _ after lexer₃ harelines'.2 (hclosing.params_eq.trans hparams₂) hfaces₃
  refine ⟨_, lexer₄, (hpasses₁.trans hpasses₂).trans (hclosing.trans hpasses₄), ?_, ?_⟩
  · exact (htidy₁.append htidy₂).nested hblock ((tidy_of_newline hkinds₃).append htidy₄)
  · simpa [List.append_assoc] using hfaces₄

/-- A block whose first line has been read is passed over, up to its last line. -/
theorem Passable.skip {block : Flow.Block} {before : List Char} {r : Reader}
    (hblock : block.IsKnown) (hbody : Passable params body)
    (hfoot : IsFoot params block.closing foot) (hlines : AreLines (body ++ foot :: lines))
    (hparams : r.lexer.params = params)
    (hnears : r.lexer.Nears before (body ++ foot :: lines).flatten) :
    ∃ r', Flow.skip block r = .ok () r' ∧
      r'.lexer.Nears (before ++ (body.flatten ++ foot)) lines.flatten ∧
      r'.lexer.params = params := by
  obtain ⟨kinds₁, lexer₁, hpasses₁, hfaces₁, hkinds₁⟩ := hnears.passes
  have hparams₁ := hpasses₁.params_eq.trans hparams
  obtain ⟨kinds₂, lexer₂, hpasses₂, htidy, hfaces₂⟩ := hbody _ _ lexer₁ hlines hparams₁ hfaces₁
  have hparams₂ := hpasses₂.params_eq.trans hparams₁
  rw [List.flatten_cons] at hfaces₂
  obtain ⟨token, hnext, hkind, hfootnears⟩ := hfoot.nears hlines.of_append.1 hparams₂ hfaces₂
  have hbalanced := ((tidy_of_newline hkinds₁).append htidy).balanced hblock
  obtain ⟨r', hskip, hr'⟩ := Flow.skip_of_balanced hblock.isProper hbalanced
    (hpasses₁.trans hpasses₂) hnears.1 hnext hkind
  refine ⟨r', hskip, ?_, ?_⟩
  · rw [hr', ← List.append_assoc]
    exact hfootnears
  · rw [hr', params_next, hparams₂]

theorem Program.passable (program : Program) (h : program.WellFormed params) :
    Passable params program.lines := by
  induction program with
  | done =>
      intro before after lexer _ _ hfaces
      refine ⟨[], lexer, .refl lexer, tidy_of_newline (by simp), ?_⟩
      simpa [lines] using hfaces
  | line text next ih => exact .cons h.1 (ih h.2)
  | ifBlock head body foot next ihbody ihnext =>
      obtain ⟨hhead, hbody, hfoot, hnext⟩ := h
      exact .block (.inl rfl) hhead (ihbody hbody) hfoot (ihnext hnext)
  | whileBlock head body foot next ihbody ihnext =>
      obtain ⟨hhead, hbody, hfoot, hnext⟩ := h
      exact .block (.inr rfl) hhead (ihbody hbody) hfoot (ihnext hnext)

end Passable

end MatrixScript
