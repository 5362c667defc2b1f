import MatrixScript.Proofs.Lockstep.Reading
import MatrixScript.Script.Statement

/-!
# Operands in step

Where case is disregarded, the names of files are an exception: a word can name a file,
and then its case matters, unless it means the console.  Labels of points are read from
files only, so for them not even that word may differ.  `Lexer.CaseFree` says that the
operands ahead are written in a way in which case does not matter; operands are read in
step then.
-/

namespace MatrixScript

/-- What an operand of a command stands for, as far as its case matters. -/
inductive OperandRole where
  /-- A file or the console. -/
  | file
  /-- A file with labels. -/
  | labels
  /-- Anything else. -/
  | other
  deriving DecidableEq, Repr

/-- The token can be written in any case in this role. -/
def OperandRole.Allows : OperandRole → Token → Prop
  | .file, token => token.kind = .word → isConsole token.lexeme = true
  | .labels, token => token.kind ≠ .word
  | .other, _ => True

instance : (role : OperandRole) → (token : Token) → Decidable (role.Allows token)
  | .file, _ => inferInstanceAs (Decidable (_ → _))
  | .labels, _ => inferInstanceAs (Decidable (_ ≠ _))
  | .other, _ => inferInstanceAs (Decidable True)

/-- The operands of a command, in their order. -/
def Command.operandRoles : Command → List OperandRole
  | .load => [.file, .other, .other, .other]
  | .save => [.other, .file]
  | .print => [.other]
  | .tridiag => [.other, .file, .file]
  | .compocor => [.other, .other, .other, .file, .file, .file, .labels, .labels]
  | .composupp | .compocsupp => [.other, .other, .other, .file]
  | _ => []

/-- The case of the operands ahead does not matter, up to the end of the statement. -/
def Lexer.CaseFree : List OperandRole → Lexer → Prop
  | [], _ => True
  | role :: roles, lexer => ∀ token, lexer.next.outcome = .ok token →
      token.endsStatement = false → role.Allows token ∧ lexer.next.lexer.CaseFree roles

/-- Whether the case of the operands ahead matters. -/
def Lexer.caseFree : List OperandRole → Lexer → Bool
  | [], _ => true
  | role :: roles, lexer =>
    match lexer.next.outcome with
    | .error _ => true
    | .ok token =>
      token.endsStatement || (decide (role.Allows token) && lexer.next.lexer.caseFree roles)

theorem Lexer.caseFree_iff {roles : List OperandRole} {lexer : Lexer} :
    lexer.caseFree roles = true ↔ lexer.CaseFree roles := by
  induction roles generalizing lexer with
  | nil => exact iff_of_true rfl trivial
  | cons role roles ih =>
      rw [caseFree, CaseFree]
      cases lexer.next.outcome with
      | error e => exact iff_of_true rfl nofun
      | ok token => cases hends : token.endsStatement <;> simp [ih, hends]

instance (roles : List OperandRole) (lexer : Lexer) : Decidable (lexer.CaseFree roles) :=
  decidable_of_iff _ Lexer.caseFree_iff

/-- The operands ahead are written in a way that does for the spelling. -/
def Lexer.Suits (spelling : Spelling) (roles : List OperandRole) (lexer : Lexer) : Prop :=
  spelling = .anyCase → lexer.CaseFree roles

theorem Lexer.CaseFree.peek {roles : List OperandRole} {lexer : Lexer} {token : Token}
    (h : lexer.CaseFree roles) (hpeek : lexer.peek.outcome = .ok token) :
    lexer.peek.lexer.CaseFree roles := by
  cases roles with
  | nil => trivial
  | cons role roles =>
      obtain ⟨hnext, hnext', hlexer⟩ := next_peek hpeek
      rw [CaseFree, hnext', hlexer, ← hnext]
      exact h

namespace OperandRole

variable {spelling : Spelling} {token token' : Token}

/-- Agreeing tokens name the same file. -/
theorem sameFile_of_allows (agree : token.Accords spelling token') (hlabel : token.kind ≠ .label)
    (h : spelling = .anyCase → file.Allows token) :
    SameFile spelling token.lexeme token'.lexeme := by
  by_cases hword : token.kind = .word
  · cases spelling with
    | exact => exact .inl agree.fold_eq
    | anyCase =>
        have hconsole := h rfl hword
        refine .inr ⟨rfl, hconsole, ?_⟩
        rw [isConsole_eq_of_foldCase_eq agree.fold_eq, hconsole]
  · exact .inl (agree.lexeme_eq hword hlabel)

/-- Agreeing tokens for labels are equal. -/
theorem lexeme_eq_of_allows (agree : token.Accords spelling token') (hlabel : token.kind ≠ .label)
    (h : spelling = .anyCase → labels.Allows token) : token'.lexeme = token.lexeme := by
  cases spelling with
  | exact => exact agree.fold_eq
  | anyCase => exact agree.lexeme_eq (h rfl) hlabel

end OperandRole

theorem SameFile.isEmpty_eq {spelling : Spelling} {path path' : String}
    (h : SameFile spelling path path') : path'.isEmpty = path.isEmpty := by
  have hconsole : ∀ name : String, isConsole name = true → name.isEmpty = false := by
    intro name hname
    refine Bool.eq_false_iff.mpr fun hempty => ?_
    rw [String.isEmpty_iff.mp hempty] at hname
    exact absurd hname (by decide)
  rcases h with rfl | ⟨_, hpath, hpath'⟩
  · rfl
  · rw [hconsole path hpath, hconsole path' hpath']

theorem Statement.labelFiles_eq : labelFiles = Reader.peek >>= fun token =>
    if token.endsStatement = true then pure none
    else fileOperand .compocor >>= fun columns => fileOperand .compocor >>= fun rows =>
      pure (some (columns, rows)) := by
  unfold labelFiles optionalFile
  rw [bind_assoc]
  congr 1
  funext token
  split
  · rw [pure_bind]
  · rw [map_eq_bind, bind_assoc]
    simp only [pure_bind]

namespace Pacing

open Statement

variable {spelling : Spelling} {Near : Nat → Lexer → Lexer → Prop}
  {Stop : Lexer → Lexer → Prop} (pace : Pacing spelling Near Stop) {n : Nat} {α β : Type}
  {role : OperandRole} {roles : List OperandRole}

/-- The lexers are near each other, before operands with these roles. -/
def Before (_ : Pacing spelling Near Stop) (roles : List OperandRole) (n : Nat) (a b : Lexer) :
    Prop :=
  Near n a b ∧ a.Suits spelling roles

include pace

theorem stop_of_before : ∀ a b, pace.Before roles n a b → Stop a b := fun _ _ h => pace.stop h.1

theorem near_of_before : ∀ a b, pace.Before roles n a b → Near n a b := fun _ _ h => h.1

/-- An operand is taken, which is missing at the end of the statement. -/
theorem operand_bind {V : α → β → Prop} {f : Token → ReadM α} {g : Token → ReadM β}
    (hend : ∀ token token', token.Accords spelling token' → token.endsStatement = true →
      ReadPaired spelling Stop Stop V (pace.Before roles n) (f token) (g token'))
    (hgo : ∀ token token', token.Accords spelling token' → token.endsStatement = false →
      (spelling = .anyCase → role.Allows token) →
      ReadPaired spelling Stop (pace.Before roles n) V (pace.Before roles n) (f token)
        (g token')) :
    ReadPaired spelling Stop (pace.Before (role :: roles) n) V (pace.Before roles n)
      (Reader.next >>= f) (Reader.next >>= g) := by
  intro r s ⟨hnear, hsuits⟩
  cases pace.next hnear with
  | fault left right agree stop =>
      rw [bind_of_eq_error (Reader.next_of_error left),
        bind_of_eq_error (Reader.next_of_error right)]
      exact .error (Error.accords_parse agree) stop
  | @token token token' left right agree stop near =>
      rw [bind_of_eq_ok (Reader.next_of_ok left), bind_of_eq_ok (Reader.next_of_ok right)]
      cases hends : token.endsStatement with
      | true => exact hend token token' agree hends _ _ stop
      | false =>
          obtain ⟨k, hk, hnear'⟩ := near hends
          exact hgo token token' agree hends (fun h => (hsuits h token left hends).1) _ _
            ⟨pace.mono hnear' hk.le, fun h => (hsuits h token left hends).2⟩

theorem paired_variableOperand (command : Command) :
    ReadPaired spelling Stop (pace.Before (role :: roles) n) Eq (pace.Before roles n)
      (variableOperand command) (variableOperand command) := by
  refine pace.operand_bind (fun token token' agree hends => ?_) fun token token' agree hends _ => ?_
  · rw [agree.endsStatement_eq, hends]
    exact readPaired_refuse rfl fun _ _ h => h
  · rw [agree.endsStatement_eq, hends]
    exact readPaired_variableName agree.fold_eq pace.stop_of_before

theorem paired_dimensionOperand (command : Command) :
    ReadPaired spelling Stop (pace.Before (role :: roles) n) Eq (pace.Before roles n)
      (dimensionOperand command) (dimensionOperand command) := by
  refine pace.operand_bind (fun token token' agree hends => ?_) fun token token' agree hends _ => ?_
  · have hkind : token.kind ≠ .number := by
      intro hkind
      simp [Token.endsStatement_iff, hkind] at hends
    rw [agree.kind_eq, agree.endsStatement_eq, if_neg hkind, if_neg hkind, hends]
    exact readPaired_refuse rfl fun _ _ h => h
  · rw [agree.kind_eq, agree.endsStatement_eq, hends]
    by_cases hkind : token.kind = .number
    · rw [if_pos hkind, if_pos hkind, agree.lexeme_eq (by simp [hkind]) (by simp [hkind])]
      exact readPaired_ofParse _ pace.stop_of_before
    · rw [if_neg hkind, if_neg hkind]
      exact readPaired_refuse (congrArg ParseError.invalidDimension agree.describe_fold_eq)
        pace.stop_of_before

/-- The names of files are in step if the tokens for them are. -/
theorem paired_fileOperand_of {V : String → String → Prop} (command : Command)
    (hV : ∀ token token', token.Accords spelling token' → token.kind ≠ .label →
      (spelling = .anyCase → role.Allows token) →
      V token.lexeme token'.lexeme ∧ token'.lexeme.isEmpty = token.lexeme.isEmpty) :
    ReadPaired spelling Stop (pace.Before (role :: roles) n) V (pace.Before roles n)
      (fileOperand command) (fileOperand command) := by
  refine pace.operand_bind (fun token token' agree hends => ?_) fun token token' agree hends h => ?_
  · rw [agree.kind_eq]
    rcases Token.endsStatement_iff.mp hends with hkind | hkind <;> rw [hkind] <;>
      exact readPaired_refuse rfl fun _ _ h => h
  · rw [agree.kind_eq]
    cases hkind : token.kind with
    | delimiter _ | label => exact readPaired_refuse rfl pace.stop_of_before
    | word | number | command _ | function _ | string | quote =>
        obtain ⟨hsame, hempty⟩ := hV token token' agree (by simp [hkind]) h
        dsimp only
        rw [hempty]
        cases token.lexeme.isEmpty with
        | true => exact readPaired_refuse rfl pace.stop_of_before
        | false => exact paired_pure hsame

theorem paired_fileOperand (command : Command) :
    ReadPaired spelling Stop (pace.Before (.file :: roles) n) (SameFile spelling)
      (pace.Before roles n) (fileOperand command) (fileOperand command) :=
  pace.paired_fileOperand_of command fun _ _ agree hlabel h =>
    have hsame := OperandRole.sameFile_of_allows agree hlabel h
    ⟨hsame, hsame.isEmpty_eq⟩

theorem paired_labelOperand (command : Command) :
    ReadPaired spelling Stop (pace.Before (.labels :: roles) n) Eq (pace.Before roles n)
      (fileOperand command) (fileOperand command) :=
  pace.paired_fileOperand_of command fun _ _ agree hlabel h =>
    have hsame := OperandRole.lexeme_eq_of_allows agree hlabel h
    ⟨hsame.symm, by rw [hsame]⟩

/-- Files with labels come in pairs, if at all. -/
theorem paired_labelFiles :
    ReadPaired spelling Stop (pace.Before [.labels, .labels] n) Eq (Near n) labelFiles
      labelFiles := by
  rw [labelFiles_eq]
  refine pace.peek_bind_of pace.near_of_before ?_ fun token token' agree => ?_
  · intro a b token token' h left right
    exact ⟨pace.peek h.1 left right, fun hcase => (h.2 hcase).peek left⟩
  rw [agree.endsStatement_eq]
  cases token.endsStatement with
  | true =>
      exact (paired_pure rfl).imp (fun _ _ h => h) (fun _ _ h => h) fun _ _ h => h.1.1
  | false =>
      refine Paired.imp ?_ (fun _ _ h => h.1) (fun _ _ h => h) fun _ _ h => h
      refine (pace.paired_labelOperand _).bind ?_
      rintro columns _ rfl
      refine (pace.paired_labelOperand _).bind ?_
      rintro rows _ rfl
      exact (paired_pure rfl).imp (fun _ _ h => h) (fun _ _ h => h) fun _ _ h => h.1

end Pacing

/-! ## Errors about files -/

namespace MatrixFile

variable {f : String → String} {path path' : String}

/-- The name of a file is only used to report errors. -/
theorem mapError_readRows (h : f path' = f path) (rows cols wanted number : Nat)
    (found : List (List Float)) (lines : List Disk.Line) :
    (readRows path' rows cols wanted number found lines).1.mapError (FileError.respell f) =
        (readRows path rows cols wanted number found lines).1.mapError (FileError.respell f) ∧
      (readRows path' rows cols wanted number found lines).2 =
        (readRows path rows cols wanted number found lines).2 := by
  fun_induction readRows path rows cols wanted number found lines with
  | case1 | case3 => exact ⟨rfl, rfl⟩
  | case2 | case4 => exact ⟨by simp [readRows, Except.mapError, FileError.respell, h], rfl⟩
  | case5 wanted number found text rest hfields ih =>
      rw [readRows]
      simp only [hfields]
      exact ih
  | case6 wanted number found text rest hfields fault hrow =>
      rw [readRows]
      simp only [hrow]
      exact ⟨by simp [Except.mapError, FileError.respell, h], trivial⟩
  | case7 wanted number found text rest hfields row hrow ih =>
      rw [readRows]
      simp only [hrow]
      exact ih

theorem mapError_read (h : f path' = f path) (rows cols : Nat) (lines : List Disk.Line) :
    (read path' rows cols lines).1.mapError (FileError.respell f) =
        (read path rows cols lines).1.mapError (FileError.respell f) ∧
      (read path' rows cols lines).2 = (read path rows cols lines).2 := by
  obtain ⟨hrows, hrest⟩ := mapError_readRows h rows cols rows 0 [] lines
  unfold read
  generalize readRows path' rows cols rows 0 [] lines = found' at hrows hrest
  generalize readRows path rows cols rows 0 [] lines = found at hrows hrest
  obtain ⟨result', rest'⟩ := found'
  obtain ⟨result, rest⟩ := found
  obtain rfl : rest' = rest := hrest
  cases result' with
  | error e' =>
      cases result with
      | error e => exact ⟨congrArg Except.error (Except.error.inj hrows), rfl⟩
      | ok data => cases hrows
  | ok data' =>
      cases result with
      | error e => cases hrows
      | ok data =>
          obtain rfl : data' = data := Except.ok.inj hrows
          exact ⟨rfl, rfl⟩

end MatrixFile

end MatrixScript
