import Mathlib.Data.List.Forall2
import MatrixScript.Proofs.Lexing.Labels
import MatrixScript.Proofs.Lexing.Tokens
import MatrixScript.Proofs.Monad.Coupling
import MatrixScript.Proofs.Monad.Reading
import MatrixScript.Script.Flow

/-!
# Parameters are only values

Two lexers that read one source with different parameters go side by side
(`Parallel`): they stop at the same places, fail with the same errors, and their
tokens differ only where the source has a reference to a parameter, which gives a
string or a number with either list.  Labels, remarks and blocks are therefore found
at the same places, whatever text the parameters bring in.
-/

namespace MatrixScript

/-- The kinds of token that a parameter can give. -/
def TokenKind.IsValue (kind : TokenKind) : Prop :=
  kind = .string ∨ kind = .number

instance (kind : TokenKind) : Decidable kind.IsValue :=
  inferInstanceAs (Decidable (kind = .string ∨ kind = .number))

/-- Equal tokens, or two values at one place. -/
def Token.Agrees (token other : Token) : Prop :=
  other = token ∨ other.start = token.start ∧ token.kind.IsValue ∧ other.kind.IsValue

namespace Lexer

open Cursor

/-- Two tokens that are related, or the same error. -/
inductive SameOutcome (R : Token → Token → Prop) :
    Except ParseError Token → Except ParseError Token → Prop where
  | ok {token other : Token} (h : R token other) : SameOutcome R (.ok token) (.ok other)
  | error (e : ParseError) : SameOutcome R (.error e) (.error e)

/-- The source has a reference to a parameter, such as `%1`, at the place. -/
def HasReference (source : List Char) (place : Cursor) : Prop :=
  ∃ d rest, d.isDigit = true ∧ dropBytes place.offset source = '%' :: d :: rest

/-- Two tokens at one place of a source, which are values if a reference stands there, and
equal if none does. -/
structure AgreeAt (source : List Char) (token other : Token) : Prop where
  start_eq : other.start = token.start
  values : HasReference source token.start → token.kind.IsValue ∧ other.kind.IsValue
  eq : ¬ HasReference source token.start → other = token

/-! ## Scans -/

theorem isValue_substitute (value : String) : (substitute value).1.IsValue := by
  unfold substitute
  split
  · exact .inl rfl
  · split
    · exact .inl rfl
    · exact .inr rfl

/-- Only a reference has a content that depends on the parameters. -/
theorem Piece.content_cases (p q : List String) (piece : Piece) :
    (∃ index found found', piece.kind = .parameter index ∧
      piece.content p = .ok found ∧ piece.content q = .ok found' ∧
      found.1.IsValue ∧ found'.1.IsValue) ∨
    (∀ index, piece.kind ≠ .parameter index) ∧ piece.content q = piece.content p := by
  obtain ⟨kind, text, rest⟩ := piece
  cases kind with
  | parameter index =>
      exact .inl ⟨index, _, _, rfl, rfl, rfl, isValue_substitute _, isValue_substitute _⟩
  | newline | label | mark _ | quote _ | number | word | stray => exact .inr ⟨nofun, rfl⟩

theorem scan_agrees {a b : Lexer} (hsource : b.source = a.source) (hcursor : b.cursor = a.cursor) :
    b.scan.cursor = a.scan.cursor ∧
      SameOutcome Token.Agrees a.scan.outcome b.scan.outcome := by
  unfold scan
  simp only [hsource, hcursor]
  cases cut? ((dropBytes a.cursor.offset a.source).dropWhile isGap) with
  | none => exact ⟨rfl, .ok (.inl rfl)⟩
  | some piece =>
      refine ⟨rfl, ?_⟩
      rcases piece.content_cases a.params b.params with
        ⟨_, _, _, _, hcontent, hcontent', hvalue, hvalue'⟩ | ⟨_, hcontent⟩
      · simp only [hcontent, hcontent']
        exact .ok (.inr ⟨rfl, hvalue, hvalue'⟩)
      · simp only [hcontent]
        cases piece.content a.params with
        | ok found => exact .ok (.inl rfl)
        | error e => exact .error e

theorem kind_eq_parameter_iff {text : List Char} {piece : Piece} (h : cut? text = some piece) :
    (∃ index, piece.kind = .parameter index) ↔
      ∃ d rest, d.isDigit = true ∧ text = '%' :: d :: rest := by
  constructor
  · rintro ⟨index, hkind⟩
    cases cuts_of_cut? h with
    | newline | label | mark | number | word | stray => cases hkind
    | quote rest =>
        unfold cutQuote at hkind
        split at hkind <;> cases hkind
    | parameter rest =>
        unfold cutParameter at hkind
        split at hkind
        · rename_i d after
          split at hkind
          · rename_i hd
            exact ⟨d, after, hd, rfl⟩
          · cases hkind
        · cases hkind
  · rintro ⟨d, rest, hd, rfl⟩
    rw [(Cuts.parameter (d :: rest)).cut?_eq, cutParameter, if_pos hd] at h
    cases h
    exact ⟨_, rfl⟩

/-- Where a lexer stands at a place of its source, the text at the start of the token
tells whether the parameters matter. -/
theorem scan_agreeAt {a b : Lexer} (hsource : b.source = a.source)
    (hcursor : b.cursor = a.cursor) (hplace : IsPlace a.source a.cursor) :
    SameOutcome (AgreeAt a.source) a.scan.outcome b.scan.outcome := by
  obtain ⟨before, rest, hstand⟩ := isPlace_iff_standsAt.mp hplace
  have hstand' : b.StandsAt before rest :=
    ⟨by rw [hsource, hstand.source_eq], by rw [hcursor, hstand.cursor_eq]⟩
  cases hcut : cut? (rest.dropWhile isGap) with
  | none =>
      rw [scan_of_cut?_eq_none hstand hcut, scan_of_cut?_eq_none hstand' hcut]
      refine .ok ⟨rfl, ?_, fun _ => rfl⟩
      rintro ⟨d, after, _, htext⟩
      rw [hstand.source_eq] at htext
      have hend := dropBytes_byteLength (before ++ rest) []
      rw [List.append_nil] at hend
      rw [offset_after, hend] at htext
      cases htext
  | some piece =>
      have hsplit : a.source = before ++ rest.takeWhile isGap ++ rest.dropWhile isGap := by
        rw [hstand.source_eq, List.append_assoc, List.takeWhile_append_dropWhile]
      have hreference : HasReference a.source (after (before ++ rest.takeWhile isGap)) ↔
          ∃ index, piece.kind = .parameter index := by
        rw [HasReference, hsplit, offset_after, dropBytes_byteLength, kind_eq_parameter_iff hcut]
      rw [scan_of_cut?_eq_some hstand hcut, scan_of_cut?_eq_some hstand' hcut]
      rcases piece.content_cases a.params b.params with
        ⟨index, _, _, hkind, hcontent, hcontent', hvalue, hvalue'⟩ | ⟨hkind, hcontent⟩
      · simp only [hcontent, hcontent']
        have hhas := hreference.mpr ⟨index, hkind⟩
        exact .ok ⟨rfl, fun _ => ⟨hvalue, hvalue'⟩, fun hnot => absurd hhas hnot⟩
      · simp only [hcontent]
        have hnot : ¬ HasReference a.source (after (before ++ rest.takeWhile isGap)) := by
          intro hhas
          obtain ⟨index, hindex⟩ := hreference.mp hhas
          exact hkind index hindex
        cases piece.content a.params with
        | ok found => exact .ok ⟨rfl, fun hhas => absurd hhas hnot, fun _ => rfl⟩
        | error e => exact .error e

/-! ## Lexers side by side -/

/-- Two lexers that read one source from one place, whatever their parameters. -/
structure Parallel (a b : Lexer) : Prop where
  source_eq : b.source = a.source
  cursor_eq : b.cursor = a.cursor
  line_eq : b.line = a.line
  peeked : a.peeked = none ∧ b.peeked = none ∨
    ∃ token other, a.peeked = some token ∧ b.peeked = some other ∧ token.Agrees other

theorem parallel_seek {a b : Lexer} (h : b.source = a.source) (cursor : Cursor) :
    Parallel (a.seek cursor) (b.seek cursor) where
  source_eq := h
  cursor_eq := rfl
  line_eq := rfl
  peeked := .inl ⟨rfl, rfl⟩

end Lexer

namespace Token

variable {token other : Token}

theorem Agrees.start_eq (h : token.Agrees other) : other.start = token.start := by
  rcases h with rfl | ⟨hstart, _⟩
  · rfl
  · exact hstart

/-- What a script is divided by is no value, and the same on both sides. -/
theorem Agrees.eq_of_kind (h : token.Agrees other) (hkind : ¬ token.kind.IsValue) :
    other = token := by
  rcases h with heq | ⟨_, hvalue, _⟩
  · exact heq
  · exact absurd hvalue hkind

theorem Agrees.isValue (h : token.Agrees other) (hvalue : token.kind.IsValue) :
    other.kind.IsValue := by
  rcases h with rfl | ⟨_, _, hvalue'⟩
  · exact hvalue
  · exact hvalue'

theorem kind_ne_of_isValue (hvalue : token.kind.IsValue) {kind : TokenKind}
    (hkind : ¬ kind.IsValue) : token.kind ≠ kind := by
  rintro rfl
  exact hkind hvalue

theorem endsStatement_of_isValue (hvalue : token.kind.IsValue) :
    token.endsStatement = false :=
  endsStatement_eq_false_iff.mpr
    ⟨kind_ne_of_isValue hvalue (by decide), kind_ne_of_isValue hvalue (by decide)⟩

theorem Agrees.endsStatement_eq (h : token.Agrees other) :
    other.endsStatement = token.endsStatement := by
  rcases h with rfl | ⟨_, hvalue, hvalue'⟩
  · rfl
  · rw [endsStatement_of_isValue hvalue, endsStatement_of_isValue hvalue']

end Token

namespace Lexer

open Cursor

variable {a b : Lexer}

theorem Parallel.next (h : Parallel a b) :
    SameOutcome Token.Agrees a.next.outcome b.next.outcome ∧
      Parallel a.next.lexer b.next.lexer := by
  rcases h.peeked with ⟨hnone, hnone'⟩ | ⟨token, other, hsome, hsome', hagrees⟩
  · obtain ⟨hcursor, hscan⟩ := scan_agrees h.source_eq h.cursor_eq
    generalize hfound : a.scan.outcome = found, hfound' : b.scan.outcome = found' at hscan
    cases hscan with
    | ok hagrees =>
        rw [next_of_scan_ok hnone hfound, next_of_scan_ok hnone' hfound']
        exact ⟨.ok hagrees, h.source_eq, hcursor, congrArg Cursor.line hagrees.start_eq,
          .inl ⟨hnone, hnone'⟩⟩
    | error e =>
        rw [next_of_scan_error hnone hfound, next_of_scan_error hnone' hfound']
        exact ⟨.error e, h.source_eq, hcursor, h.line_eq, .inl ⟨hnone, hnone'⟩⟩
  · rw [next_of_peeked hsome, next_of_peeked hsome']
    exact ⟨.ok hagrees, h.source_eq, h.cursor_eq, congrArg Cursor.line hagrees.start_eq,
      .inl ⟨rfl, rfl⟩⟩

theorem Parallel.skipLine (h : Parallel a b) : Parallel a.skipLine.2 b.skipLine.2 := by
  unfold Lexer.skipLine
  rcases h.peeked with ⟨hnone, hnone'⟩ | ⟨token, other, hsome, hsome', hagrees⟩
  · simp only [hnone, hnone', h.source_eq, h.cursor_eq]
    exact ⟨rfl, rfl, h.line_eq, .inl ⟨rfl, rfl⟩⟩
  · simp only [hsome, hsome', hagrees.endsStatement_eq, h.source_eq, h.cursor_eq]
    split
    · exact h
    · exact ⟨rfl, rfl, h.line_eq, .inl ⟨rfl, rfl⟩⟩

theorem Parallel.position_eq (h : Parallel a b) : b.position = a.position := by
  rcases h.peeked with ⟨hnone, hnone'⟩ | ⟨token, other, hsome, hsome', hagrees⟩
  · simp only [position, hnone, hnone', h.cursor_eq]
  · simp only [position, hsome, hsome', hagrees.start_eq]

/-! ## Streams -/

/-- Parallel lexers at a place of their source, with nothing in lookahead. -/
structure Abreast (a b : Lexer) : Prop where
  parallel : Parallel a b
  place : IsPlace a.source a.cursor
  peeked : a.peeked = none

theorem abreast_start (source : List Char) (p q : List String) :
    Abreast { source := source, params := p } { source := source, params := q } :=
  ⟨⟨rfl, rfl, rfl, .inl ⟨rfl, rfl⟩⟩, isPlace_start source, rfl⟩

theorem Abreast.outcome (h : Abreast a b) :
    SameOutcome (AgreeAt a.source) a.next.outcome b.next.outcome := by
  have hpeeked : b.peeked = none := by
    rcases h.parallel.peeked with ⟨_, hnone⟩ | ⟨_, _, hsome, _⟩
    · exact hnone
    · rw [h.peeked] at hsome
      cases hsome
  rw [(next_outcome_of_peeked_eq_none h.peeked).1, (next_outcome_of_peeked_eq_none hpeeked).1]
  exact scan_agreeAt h.parallel.source_eq h.parallel.cursor_eq h.place

theorem Abreast.next (h : Abreast a b) : Abreast a.next.lexer b.next.lexer where
  parallel := h.parallel.next.2
  place := by
    rw [source_next, (next_outcome_of_peeked_eq_none h.peeked).2]
    exact isPlace_scan_cursor h.place
  peeked := peeked_next a

theorem Abreast.afterTokens (h : Abreast a b) (i : Nat) :
    (a.afterTokens i).source = a.source ∧ Abreast (a.afterTokens i) (b.afterTokens i) := by
  induction i generalizing a b with
  | zero => exact ⟨rfl, h⟩
  | succ i ih =>
      obtain ⟨hsource, hlater⟩ := ih h.next
      exact ⟨hsource.trans (source_next a), hlater⟩

/-- The end of the script is no value, so both streams end together. -/
theorem AgreeAt.is_endOfScript_eq {source : List Char} {token other : Token}
    (h : AgreeAt source token other) : other.is .endOfScript = token.is .endOfScript := by
  by_cases hhas : HasReference source token.start
  · have hnot : ∀ t : Token, t.kind.IsValue → t.is .endOfScript = false := fun t ht =>
      Token.is_eq_false_iff.mpr (Token.kind_ne_of_isValue ht (by decide))
    obtain ⟨hvalue, hvalue'⟩ := h.values hhas
    rw [hnot token hvalue, hnot other hvalue']
  · rw [h.eq hhas]

theorem Abreast.takeAll (h : Abreast a b) (bound : Nat) :
    List.Forall₂ (SameOutcome (AgreeAt a.source)) (a.takeAll bound).1 (b.takeAll bound).1 := by
  induction bound generalizing a b with
  | zero => exact .nil
  | succ bound ih =>
      have houtcome := h.outcome
      have hrest := ih h.next
      rw [source_next] at hrest
      generalize hfound : a.next.outcome = found, hfound' : b.next.outcome = found' at houtcome
      cases houtcome with
      | ok hagree =>
          simp only [Lexer.takeAll, hfound, hfound', hagree.is_endOfScript_eq]
          split
          · exact .cons (.ok hagree) .nil
          · exact .cons (.ok hagree) hrest
      | error e =>
          simp only [Lexer.takeAll, hfound, hfound']
          exact .cons (.error e) hrest

end Lexer

/-! ## Labels and blocks -/

namespace LabelIndex

open Lexer

theorem collectFrom_of_value {max bound : Nat} {index : LabelIndex} {lexer : Lexer}
    {notes : List Note} {token : Token} (hnext : lexer.next.outcome = .ok token)
    (hvalue : token.kind.IsValue) :
    collectFrom max (bound + 1) index lexer notes =
      collectFrom max bound index lexer.next.lexer (notes ++ lexer.next.notes) :=
  collectFrom_of_other hnext (Token.kind_ne_of_isValue hvalue (by decide))
    (Token.kind_ne_of_isValue hvalue (by decide)) (Token.kind_ne_of_isValue hvalue (by decide))

theorem outcome_collectFrom_of_parallel {a b : Lexer} (h : Parallel a b) (max bound : Nat)
    (index : LabelIndex) (notes notes' : List Note) :
    (collectFrom max bound index b notes').outcome =
      (collectFrom max bound index a notes).outcome := by
  induction bound generalizing a b index notes notes' with
  | zero => rfl
  | succ bound ih =>
      obtain ⟨houtcome, hnext⟩ := h.next
      generalize hfound : a.next.outcome = found, hfound' : b.next.outcome = found' at houtcome
      cases houtcome with
      | error e => rw [collectFrom_of_error hfound, collectFrom_of_error hfound']
      | @ok token other hagrees =>
          by_cases hvalue : token.kind.IsValue
          · rw [collectFrom_of_value hfound hvalue,
              collectFrom_of_value hfound' (hagrees.isValue hvalue)]
            exact ih hnext index _ _
          · obtain rfl := hagrees.eq_of_kind hvalue
            rw [collectFrom, collectFrom]
            simp only [hfound, hfound', hnext.position_eq]
            split
            · rfl
            · exact ih hnext.skipLine _ _ _
            · split
              · exact ih hnext _ _ _
              · split
                · rfl
                · exact ih hnext _ _ _
            · exact ih hnext _ _ _

/-- The labels of a script, or the error in collecting them, are the same. -/
theorem outcome_collect_of_source_eq {a b : Lexer} (h : b.source = a.source) (max : Nat) :
    (collect max b).outcome = (collect max a).outcome := by
  have hbound : b.tokenBound = a.tokenBound := by rw [tokenBound, tokenBound, h]
  have hfound := outcome_collectFrom_of_parallel (parallel_seek h .start) max a.tokenBound {} [] []
  have hcollect : ∀ lexer : Lexer, (collect max lexer).outcome =
      (collectFrom max lexer.tokenBound {} lexer.reset []).outcome := by
    intro lexer
    unfold collect
    cases hindex : (collectFrom max lexer.tokenBound {} lexer.reset []).outcome with
    | ok index => simp only [hindex]
    | error e => simp only [hindex]
  rw [hcollect, hcollect, hbound]
  exact hfound

end LabelIndex

/-- Two readers whose lexers read one source from one place. -/
def Reader.Parallel (r s : Reader) : Prop :=
  Lexer.Parallel r.lexer s.lexer

namespace Flow

open Lexer

/-- From parallel readers the two programs come to parallel readers, both with a value or
both with the same error. -/
def Accord {α : Type} (x y : ReadM α) : Prop :=
  ∀ r s : Reader, r.Parallel s →
    Alike Reader.Parallel (fun _ _ => Reader.Parallel) (x r) (y s)

theorem accord_throw {α : Type} (e : Error) : Accord (throw e : ReadM α) (throw e) :=
  fun _ _ h => .error h

theorem accord_pure {α : Type} (value : α) : Accord (pure value) (pure value) :=
  fun _ _ h => .ok h

theorem accord_skipLine_bind {α : Type} {x y : ReadM α} (h : Accord x y) :
    Accord (Reader.skipLine >>= fun _ => x) (Reader.skipLine >>= fun _ => y) :=
  fun _ _ hparallel => h _ _ (Lexer.Parallel.skipLine hparallel)

/-- Programs that go on alike after tokens that agree. -/
theorem accord_next_bind {α : Type} {f g : Token → ReadM α}
    (h : ∀ token other, token.Agrees other → Accord (f token) (g other)) :
    Accord (Reader.next >>= f) (Reader.next >>= g) := by
  intro r s hparallel
  obtain ⟨houtcome, hnext⟩ := Lexer.Parallel.next hparallel
  generalize hfound : r.lexer.next.outcome = found, hfound' : s.lexer.next.outcome = found'
    at houtcome
  cases houtcome with
  | ok hagrees =>
      rw [bind_of_eq_ok (Reader.next_of_ok hfound), bind_of_eq_ok (Reader.next_of_ok hfound')]
      exact h _ _ hagrees _ _ hnext
  | error e =>
      rw [bind_of_eq_error (Reader.next_of_error hfound),
        bind_of_eq_error (Reader.next_of_error hfound')]
      exact .error hnext

theorem accord_skipFrom (block : Block) (bound depth : Nat) :
    Accord (skipFrom block bound depth) (skipFrom block bound depth) := by
  induction bound generalizing depth with
  | zero => exact accord_throw _
  | succ bound ih =>
      refine accord_next_bind fun token other hagrees => ?_
      by_cases hvalue : token.kind.IsValue
      · rcases hvalue with hkind | hkind <;>
          rcases hagrees.isValue (by simp [hkind, TokenKind.IsValue]) with hkind' | hkind' <;>
          simp only [hkind, hkind'] <;> exact ih depth
      · obtain rfl := hagrees.eq_of_kind hvalue
        split
        · exact accord_throw _
        · split
          · exact accord_skipLine_bind (ih depth)
          · split
            · exact ih (depth + 1)
            · split
              · split
                · exact accord_pure ()
                · exact ih _
              · exact ih depth
        · exact ih depth

theorem accord_skip (block : Block) : Accord (skip block) (skip block) := by
  intro r s h
  have hbound : s.lexer.tokenBound = r.lexer.tokenBound := by
    rw [tokenBound, tokenBound, Lexer.Parallel.source_eq h]
  have hskip : ∀ t : Reader, skip block t = skipFrom block t.lexer.tokenBound 0 t := fun _ => rfl
  rw [hskip, hskip, hbound]
  exact accord_skipFrom block _ 0 r s h

end Flow

namespace Lexer

open Cursor

/-- Parameters cannot inject syntax: with any two lists of them a source has the same
tokens at the same places, but for the values at references, and the same errors.  The
labels are the same too, and passing over a block ends at the same place or with the same
error. -/
theorem parameters_inert (source : String) (p q : List String) :
    let a : Lexer := { source := source.toList, params := p }
    let b : Lexer := { source := source.toList, params := q }
    (∀ i, (b.afterTokens i).cursor = (a.afterTokens i).cursor ∧
      SameOutcome (AgreeAt source.toList) (a.afterTokens i).next.outcome
        (b.afterTokens i).next.outcome) ∧
    (∀ bound, List.Forall₂ (SameOutcome (AgreeAt source.toList))
      (a.takeAll bound).1 (b.takeAll bound).1) ∧
    (∀ max, (LabelIndex.collect max b).outcome = (LabelIndex.collect max a).outcome) ∧
    (∀ cursor, Parallel (a.seek cursor) (b.seek cursor)) ∧
    ∀ block, Flow.Accord (Flow.skip block) (Flow.skip block) := by
  intro a b
  have hstart : Abreast a b := abreast_start source.toList p q
  refine ⟨fun i => ?_, hstart.takeAll, fun max => ?_, @parallel_seek a b rfl,
    Flow.accord_skip⟩
  · obtain ⟨hsource, hlater⟩ := hstart.afterTokens i
    have houtcome := hlater.outcome
    rw [hsource] at houtcome
    exact ⟨hlater.parallel.cursor_eq, houtcome⟩
  · exact @LabelIndex.outcome_collect_of_source_eq a b rfl max

end Lexer

end MatrixScript
