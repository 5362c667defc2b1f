import Mathlib.Data.List.Infix
import MatrixScript.Proofs.Run.Quiet
import MatrixScript.Proofs.Structured.Passing

/-!
# Matching keywords

A block that is passed over ends with the keyword that closes it.  Of the tokens on the way,
those that open a block count up and those that close one count down (`Block.depth`), and the
block is left with the first token that brings the count below zero.
-/

namespace MatrixScript

open Lexer

namespace Flow

/-! ## Depths -/

namespace Block

/-- How many more blocks have been opened than closed by some tokens. -/
def depth (block : Block) (tokens : List Token) : Int :=
  tokens.countP (fun token => token.kind = .command block.opening) -
    tokens.countP fun token => token.kind = .command block.closing

/-- None of the tokens closes the block in which `level` more are open at first: the count does
not come to -1 on the way. -/
def StaysOpen (block : Block) (level : Int) (tokens : List Token) : Prop :=
  ∀ seen, seen <+: tokens → level + block.depth seen ≠ -1

variable {block : Block} {level : Int} {token : Token} {tokens : List Token}

theorem staysOpen_iff_inits : (∀ seen ∈ tokens.inits, level + block.depth seen ≠ -1) ↔
    block.StaysOpen level tokens := by
  simp only [List.mem_inits, StaysOpen]

instance (block : Block) (level : Int) (tokens : List Token) :
    Decidable (block.StaysOpen level tokens) :=
  decidable_of_iff _ staysOpen_iff_inits

@[simp] theorem depth_nil (block : Block) : block.depth [] = 0 := rfl

theorem depth_append (block : Block) (tokens more : List Token) :
    block.depth (tokens ++ more) = block.depth tokens + block.depth more := by
  simp only [depth, List.countP_append]
  omega

theorem depth_cons (block : Block) (token : Token) (tokens : List Token) :
    block.depth (token :: tokens) = block.depth [token] + block.depth tokens :=
  block.depth_append [token] tokens

theorem depth_of_opening (hblock : block.IsProper) (hkind : token.kind = .command block.opening) :
    block.depth [token] = 1 := by
  simp [depth, hkind, hblock.closing_ne_opening.symm]

theorem depth_of_closing (hblock : block.IsProper) (hkind : token.kind = .command block.closing) :
    block.depth [token] = -1 := by
  simp [depth, hkind, hblock.closing_ne_opening]

theorem depth_of_other (hopening : token.kind ≠ .command block.opening)
    (hclosing : token.kind ≠ .command block.closing) : block.depth [token] = 0 := by
  simp [depth, hopening, hclosing]

theorem neg_one_le_depth (block : Block) (token : Token) : -1 ≤ block.depth [token] := by
  have hcount := List.countP_le_length (l := [token])
    (p := fun token => token.kind = .command block.closing)
  rw [List.length_singleton] at hcount
  unfold depth
  omega

theorem closing_of_depth (hblock : block.IsProper) (h : block.depth [token] = -1) :
    token.kind = .command block.closing := by
  by_contra hclosing
  by_cases hopening : token.kind = .command block.opening
  · rw [depth_of_opening hblock hopening] at h
    omega
  · rw [depth_of_other hopening hclosing] at h
    omega

theorem staysOpen_nil (h : level ≠ -1) : block.StaysOpen level [] := by
  intro seen hseen
  rwa [List.prefix_nil.mp hseen, depth_nil, Int.add_zero]

theorem staysOpen_cons : block.StaysOpen level (token :: tokens) ↔
    level ≠ -1 ∧ block.StaysOpen (level + block.depth [token]) tokens := by
  constructor
  · intro h
    refine ⟨by simpa using h [] (List.nil_prefix), fun seen hseen => ?_⟩
    have hmore := h (token :: seen) (List.cons_prefix_cons.mpr ⟨rfl, hseen⟩)
    rwa [depth_cons, ← Int.add_assoc] at hmore
  · rintro ⟨hlevel, h⟩ seen hseen
    cases seen with
    | nil => simpa using hlevel
    | cons first seen =>
        obtain ⟨rfl, hrest⟩ := List.cons_prefix_cons.mp hseen
        rw [depth_cons, ← Int.add_assoc]
        exact h seen hrest

theorem StaysOpen.level_ne (h : block.StaysOpen level tokens) : level ≠ -1 := by
  simpa using h [] List.nil_prefix

end Block

/-! ## The way through a block -/

variable {block : Block} {token : Token} {tokens : List Token} {lexer last : Lexer}

/-- A token that does not close the block changes the count of open blocks by its depth. -/
theorem skipFrom_of_token {r : Reader} {level level' : Nat} (bound : Nat)
    (hblock : block.IsProper) (hnext : r.lexer.next.outcome = .ok token)
    (hend : token.kind ≠ .delimiter .endOfScript)
    (hlevel : (level' : Int) = level + block.depth [token]) :
    ∃ r', r'.lexer = r.lexer.past token ∧
      skipFrom block (bound + 1) level r = skipFrom block bound level' r' := by
  by_cases hrem : token.kind = .command .rem
  · have hdepth : block.depth [token] = 0 := by
      apply Block.depth_of_other <;> simp only [hrem, ne_eq, TokenKind.command.injEq]
      · exact hblock.opening_ne_rem.symm
      · exact hblock.closing_ne_rem.symm
    obtain rfl : level' = level := by omega
    rw [past_of_rem hrem]
    exact skipFrom_of_remark hnext hrem
  rw [past_of_ne_rem hrem]
  by_cases hopening : token.kind = .command block.opening
  · have hdepth := Block.depth_of_opening hblock hopening
    obtain rfl : level' = level + 1 := by omega
    exact skipFrom_of_opening hblock hnext hopening
  by_cases hclosing : token.kind = .command block.closing
  · have hdepth := Block.depth_of_closing hblock hclosing
    obtain rfl : level = level' + 1 := by omega
    obtain ⟨r', hlexer, _, hskip⟩ := skipFrom_of_closing hblock hnext hclosing
    exact ⟨r', hlexer, hskip⟩
  · have hdepth := Block.depth_of_other hopening hclosing
    obtain rfl : level' = level := by omega
    exact skipFrom_of_other hnext hend hrem hopening hclosing

/-- As long as the block stays open, passing over it goes on. -/
theorem skipFrom_of_meets (hblock : block.IsProper) (h : Meets lexer tokens last)
    (bound level : Nat) (hopen : block.StaysOpen level tokens) {r : Reader} (hr : r.lexer = lexer) :
    ∃ (r' : Reader) (level' : Nat), r'.lexer = last ∧
      (level' : Int) = level + block.depth tokens ∧
        skipFrom block (tokens.length + bound) level r = skipFrom block bound level' r' := by
  induction h generalizing level r with
  | refl lexer => exact ⟨r, level, hr, by simp, by rw [List.length_nil, Nat.zero_add]⟩
  | @meet lexer last token tokens hnext hend _ ih =>
      subst hr
      obtain ⟨_, hopen⟩ := Block.staysOpen_cons.mp hopen
      -- The count is natural again after the token, for it is not below zero.
      have hne := hopen.level_ne
      have hge := block.neg_one_le_depth token
      obtain ⟨level₁, hlevel₁⟩ := Int.eq_ofNat_of_zero_le
        (show 0 ≤ (level : Int) + block.depth [token] by omega)
      rw [hlevel₁] at hopen
      obtain ⟨r₁, hr₁, hskip⟩ :=
        skipFrom_of_token (tokens.length + bound) hblock hnext hend hlevel₁.symm
      obtain ⟨r', level', hr', hlevel', hrest⟩ := ih level₁ hopen hr₁
      refine ⟨r', level', hr', ?_, ?_⟩
      · rw [Block.depth_cons]
        omega
      · rw [List.length_cons, Nat.add_right_comm, hskip, hrest]

/-- The tokens that are met leave the block open, or one of them is the first to close it. -/
theorem staysOpen_or_closes (block : Block) (h : Meets lexer tokens last) (level : Nat) :
    block.StaysOpen level tokens ∨ ∃ inner place token, Meets lexer inner place ∧
      block.StaysOpen level inner ∧ place.next.outcome = .ok token ∧
        (level : Int) + block.depth (inner ++ [token]) = -1 := by
  induction h generalizing level with
  | refl lexer => exact .inl (Block.staysOpen_nil (by omega))
  | @meet lexer last token tokens hnext hend _ ih =>
      by_cases hcloses : (level : Int) + block.depth [token] = -1
      · exact .inr ⟨[], lexer, token, .refl lexer, Block.staysOpen_nil (by omega), hnext, hcloses⟩
      have hge := block.neg_one_le_depth token
      obtain ⟨level₁, hlevel₁⟩ := Int.eq_ofNat_of_zero_le
        (show 0 ≤ (level : Int) + block.depth [token] by omega)
      rcases ih level₁ with hopen | ⟨inner, place, close, hmeets, hopen, hclose, hdepth⟩
      · left
        rw [Block.staysOpen_cons, hlevel₁]
        exact ⟨by omega, hopen⟩
      · right
        refine ⟨token :: inner, place, close, .meet hnext hend hmeets, ?_, hclose, ?_⟩
        · rw [Block.staysOpen_cons, hlevel₁]
          exact ⟨by omega, hopen⟩
        · rw [List.cons_append, Block.depth_cons]
          omega

/-! ## The end of the way -/

section Skip

variable {r : Reader}

/-- What comes after the tokens that leave a block open decides how it is left. -/
theorem skip_of_meets (hblock : block.IsProper) (hsound : r.lexer.Sound)
    (h : Meets r.lexer tokens last) (hopen : block.StaysOpen 0 tokens) :
    ∃ (r' : Reader) (bound level : Nat), r'.lexer = last ∧ (level : Int) = block.depth tokens ∧
      skip block r = skipFrom block (bound + 1) level r' := by
  obtain ⟨bound, hbound⟩ := h.tokenBound_eq hsound
  obtain ⟨r', level, hr', hlevel, hskip⟩ :=
    skipFrom_of_meets hblock h (bound + 1) 0 (by simpa using hopen) rfl
  refine ⟨r', bound, level, hr', by simpa using hlevel, ?_⟩
  rw [skip, get_bind_apply, hbound, hskip]

theorem skip_of_closes (hblock : block.IsProper) (hsound : r.lexer.Sound)
    (h : Meets r.lexer tokens last) (hopen : block.StaysOpen 0 tokens)
    (hnext : last.next.outcome = .ok token) (hdepth : block.depth (tokens ++ [token]) = -1) :
    token.kind = .command block.closing ∧
      ∃ r', skip block r = .ok () r' ∧ r'.lexer = last.next.lexer := by
  obtain ⟨r₁, bound, level, rfl, hlevel, hskip⟩ := skip_of_meets hblock hsound h hopen
  have hge := block.neg_one_le_depth token
  rw [Block.depth_append, ← hlevel] at hdepth
  obtain rfl : level = 0 := by omega
  have hclosing := Block.closing_of_depth hblock (by omega : block.depth [token] = -1)
  obtain ⟨r', hr', hlast, _⟩ :=
    @skipFrom_of_closing block token bound 0 r₁ hblock hnext hclosing
  exact ⟨hclosing, r', hskip.trans hlast, hr'⟩

theorem skip_of_ends (hblock : block.IsProper) (hsound : r.lexer.Sound)
    (h : Meets r.lexer tokens last) (hopen : block.StaysOpen 0 tokens)
    (hnext : last.next.outcome = .ok token) (hend : token.kind = .delimiter .endOfScript) :
    ∃ r', skip block r = .error (.flow block.unclosed) r' := by
  obtain ⟨r₁, bound, level, rfl, _, hskip⟩ := skip_of_meets hblock hsound h hopen
  refine ⟨⟨r₁.lexer.next.lexer, r₁.journal ++ r₁.lexer.next.notes⟩, ?_⟩
  rw [hskip]
  apply (bind_of_eq_ok (Reader.next_of_ok hnext)).trans
  simp only [hend]
  rfl

theorem skip_of_fault {e : ParseError} (hblock : block.IsProper) (hsound : r.lexer.Sound)
    (h : Meets r.lexer tokens last) (hopen : block.StaysOpen 0 tokens)
    (hnext : last.next.outcome = .error e) : ∃ r', skip block r = .error (.parse e) r' := by
  obtain ⟨r₁, bound, level, rfl, _, hskip⟩ := skip_of_meets hblock hsound h hopen
  refine ⟨⟨r₁.lexer.next.lexer, r₁.journal ++ r₁.lexer.next.notes⟩, ?_⟩
  rw [hskip]
  exact bind_of_eq_error (Reader.next_of_error hnext)

end Skip

/-- From every place of a script, one of the three ends of a block comes first. -/
theorem exists_end (block : Block) (hsound : lexer.Sound) :
    ∃ tokens last, Meets lexer tokens last ∧ block.StaysOpen 0 tokens ∧
      ((∃ token, last.next.outcome = .ok token ∧ block.depth (tokens ++ [token]) = -1) ∨
        (∃ token, last.next.outcome = .ok token ∧ token.kind = .delimiter .endOfScript) ∨
          ∃ e, last.next.outcome = .error e) := by
  obtain ⟨tokens, fault, hsurveys⟩ := exists_surveys hsound
  obtain ⟨last, hmeets, hlast⟩ := hsurveys.exists_last
  rcases staysOpen_or_closes block hmeets 0 with
    hopen | ⟨inner, place, token, hinner, hopen, hnext, hdepth⟩
  · exact ⟨tokens, last, hmeets, hopen, .inr hlast⟩
  · exact ⟨inner, place, hinner, hopen, .inl ⟨token, hnext, by simpa using hdepth⟩⟩

/-- A block is left right after the first token that closes it.  If the script ends before that,
the block is unclosed, and a fault on the way is reported as one.  Nothing but the reader
changes. -/
theorem skip_matches (hblock : block.IsKnown) (m : Machine) (hsound : m.reader.lexer.Sound) :
    (∃ tokens last, Meets m.reader.lexer tokens last ∧ block.StaysOpen 0 tokens ∧
      ((∃ token, last.next.outcome = .ok token ∧ block.depth (tokens ++ [token]) = -1) ∨
        (∃ token, last.next.outcome = .ok token ∧ token.kind = .delimiter .endOfScript) ∨
          ∃ e, last.next.outcome = .error e)) ∧
    (∀ tokens last, Meets m.reader.lexer tokens last → block.StaysOpen 0 tokens →
      (∀ token, last.next.outcome = .ok token → block.depth (tokens ++ [token]) = -1 →
        token.kind = .command block.closing ∧ ∃ m', ExecM.read (skip block) m = .ok () m' ∧
          m'.reader.lexer = last.next.lexer) ∧
      (∀ token, last.next.outcome = .ok token → token.kind = .delimiter .endOfScript →
        ∃ m', ExecM.read (skip block) m = .error (.flow block.unclosed) m') ∧
      ∀ e, last.next.outcome = .error e →
        ∃ m', ExecM.read (skip block) m = .error (.parse e) m') ∧
    ∃ reader, finalState (ExecM.read (skip block) m) = { m with reader := reader } ∧
      reader.lexer.source = m.reader.lexer.source ∧
        reader.lexer.params = m.reader.lexer.params := by
  have hproper := hblock.isProper
  refine ⟨exists_end block hsound, fun tokens last h hopen => ⟨?_, ?_, ?_⟩, ?_⟩
  · intro token hnext hdepth
    obtain ⟨hclosing, r', hskip, hr'⟩ := skip_of_closes hproper hsound h hopen hnext hdepth
    exact ⟨hclosing, { m with reader := r' }, ExecM.read_eq_ok.mpr ⟨r', hskip, rfl⟩, hr'⟩
  · intro token hnext hend
    obtain ⟨r', hskip⟩ := skip_of_ends hproper hsound h hopen hnext hend
    exact ⟨{ m with reader := r' }, ExecM.read_eq_error.mpr ⟨r', hskip, rfl⟩⟩
  · intro e hnext
    obtain ⟨r', hskip⟩ := skip_of_fault hproper hsound h hopen hnext
    exact ⟨{ m with reader := r' }, ExecM.read_eq_error.mpr ⟨r', hskip, rfl⟩⟩
  · obtain ⟨hmoves, hframe⟩ := ExecM.evolves_read (evolves_skip block) m
    exact ⟨_, hframe, hmoves.source_eq, hmoves.params_eq⟩

/-- The rest of a condition, with another one and a remark inside. -/
def nestedBlock : Machine :=
  .new "if\nendif rem endif\nendif b" [] {} {}

theorem skip_matches_nested :
    nestedBlock.reader.lexer.Sound ∧ ∃ m', ExecM.read (skip .ifBlock) nestedBlock = .ok () m' ∧
      m'.reader.lexer.cursor = ⟨24, 3⟩ := by
  have hsound : nestedBlock.reader.lexer.Sound := sound_of_start rfl rfl rfl
  have hmeets : Meets nestedBlock.reader.lexer [⟨.command .ifBlock, "if", ⟨0, 1⟩⟩,
      ⟨.delimiter .endOfLine, "\n", ⟨2, 1⟩⟩, ⟨.command .endIf, "endif", ⟨3, 2⟩⟩,
      ⟨.command .rem, "rem", ⟨9, 2⟩⟩, ⟨.delimiter .endOfLine, "\n", ⟨18, 2⟩⟩] _ :=
    .meet (by decide) (by decide) <| .meet (by decide) (by decide) <|
      .meet (by decide) (by decide) <| .meet (by decide) (by decide) <|
      .meet (by decide) (by decide) <| .refl _
  obtain ⟨_, hends, _⟩ := skip_matches (.inl rfl) nestedBlock hsound
  obtain ⟨_, m', hskip, hlexer⟩ := (hends _ _ hmeets (by decide)).1
    ⟨.command .endIf, "endif", ⟨19, 3⟩⟩ (by decide) (by decide)
  exact ⟨hsound, m', hskip, by rw [hlexer]; decide⟩

end Flow

end MatrixScript
