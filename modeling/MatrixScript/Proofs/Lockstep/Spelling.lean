import MatrixScript.Proofs.Lexing.Stream
import MatrixScript.Script.Reader

/-!
# Spellings

Two scripts can be compared letter by letter or without regard to the case of ASCII
letters.  This module says for both cases what counts of a text, when two tokens and two
errors are the same, and what then cannot tell them apart: names of variables, the word
for the console, and keywords.
-/

namespace MatrixScript

/-- How closely two spellings have to agree. -/
inductive Spelling where
  | exact
  | anyCase
  deriving DecidableEq, Repr

namespace Spelling

/-- What counts of a text. -/
def fold : Spelling → String → String
  | exact, text => text
  | anyCase, text => foldCase text

variable {spelling : Spelling} {a b : String}

theorem foldCase_eq_of_fold_eq (h : spelling.fold a = spelling.fold b) :
    foldCase a = foldCase b := by
  cases spelling with
  | exact => exact congrArg foldCase h
  | anyCase => exact h

/-- Texts that count the same have characters that do, one by one. -/
theorem fold_ofList_drop {text text' : List Char} (count : Nat)
    (h : spelling.fold (String.ofList text) = spelling.fold (String.ofList text')) :
    spelling.fold (String.ofList (text.drop count)) =
      spelling.fold (String.ofList (text'.drop count)) := by
  cases spelling with
  | exact => rw [String.ofList_injective h]
  | anyCase =>
      have hmap := String.ofList_injective h
      simp only [String.toList_ofList] at hmap
      simp only [fold, foldCase, String.toList_ofList, List.map_drop, hmap]

end Spelling

/-! ## Errors -/

/-- The error with the texts that it quotes replaced. -/
def ParseError.respell (f : String → String) : ParseError → ParseError
  | .unexpectedToken token => .unexpectedToken (f token)
  | .missingExpression => .missingExpression
  | .missingOperand command expected => .missingOperand command expected
  | .badVariableName name => .badVariableName (f name)
  | .invalidParameter found => .invalidParameter (f found)
  | .expectedClosingParen found => .expectedClosingParen (f found)
  | .expectedDelimiter expected found => .expectedDelimiter expected (f found)
  | .invalidComparison found => .invalidComparison (f found)
  | .malformedNumber literal => .malformedNumber (f literal)
  | .invalidDimension literal => .invalidDimension (f literal)
  | .trailingTokens token => .trailingTokens (f token)

def FileError.respell (f : String → String) : FileError → FileError
  | .access path fault => .access (f path) fault
  | .tooShort path expected found => .tooShort (f path) expected found
  | .malformed path line fault => .malformed (f path) line fault
  | .invalidShape cause => .invalidShape cause

def FlowError.respell (f : String → String) : FlowError → FlowError
  | .unknownLabel name => .unknownLabel (f name)
  | e => e

def Error.respell (f : String → String) : Error → Error
  | .parse cause => .parse (cause.respell f)
  | .file cause => .file (cause.respell f)
  | .flow cause => .flow (cause.respell f)
  | e => e

theorem Error.respell_exact (e : Error) : e.respell Spelling.exact.fold = e := by
  cases e with
  | parse cause => cases cause <;> rfl
  | file cause => cases cause <;> rfl
  | flow cause => cases cause <;> rfl
  | matrix _ | unbound _ | tooManyElements _ _ => rfl

/-- The errors are the same but for the spelling of what they quote. -/
def Error.Accords (spelling : Spelling) (e e' : Error) : Prop :=
  e'.respell spelling.fold = e.respell spelling.fold

theorem Error.Accords.refl {spelling : Spelling} (e : Error) : e.Accords spelling e := rfl

theorem Error.accords_parse {spelling : Spelling} {e e' : ParseError}
    (h : e'.respell spelling.fold = e.respell spelling.fold) :
    Error.Accords spelling (.parse e) (.parse e') :=
  congrArg Error.parse h

/-! ## Tokens -/

/-- The tokens are the same but for where they are and for the spelling of words and
labels. -/
structure Token.Accords (spelling : Spelling) (token token' : Token) : Prop where
  kind_eq : token'.kind = token.kind
  fold_eq : spelling.fold token'.lexeme = spelling.fold token.lexeme
  lexeme_eq : token.kind ≠ .word → token.kind ≠ .label → token'.lexeme = token.lexeme

namespace Token.Accords

variable {spelling : Spelling} {token token' : Token}

theorem delimiter?_eq (h : token.Accords spelling token') :
    token'.delimiter? = token.delimiter? := by
  rw [delimiter?, delimiter?, h.kind_eq]

theorem is_eq (h : token.Accords spelling token') (mark : Delimiter) :
    token'.is mark = token.is mark := by
  rw [is, is, h.delimiter?_eq]

theorem endsStatement_eq (h : token.Accords spelling token') :
    token'.endsStatement = token.endsStatement := by
  rw [endsStatement, endsStatement, h.is_eq, h.is_eq]

theorem describe_fold_eq (h : token.Accords spelling token') :
    spelling.fold token'.describe = spelling.fold token.describe := by
  unfold describe
  rw [h.kind_eq]
  split
  · rfl
  · rfl
  · exact h.fold_eq

end Token.Accords

/-! ## Letters -/

theorem isAlpha_iff {c : Char} : c.isAlpha = true ↔
    (65 ≤ c.toNat ∧ c.toNat ≤ 90) ∨ 97 ≤ c.toNat ∧ c.toNat ≤ 122 := by
  delta Char.isAlpha Char.isUpper Char.isLower
  simp [UInt32.le_iff_toNat_le]

theorem toLower_cases (c : Char) : ¬ (65 ≤ c.toNat ∧ c.toNat ≤ 90) ∧ c.toLower = c ∨
    (65 ≤ c.toNat ∧ c.toNat ≤ 90) ∧ c.toLower.toNat = c.toNat + 32 := by
  by_cases hrange : c.val ≥ 'A'.val ∧ c.val ≤ 'Z'.val
  · have hlow : 65 ≤ c.toNat := UInt32.le_iff_toNat_le.mp hrange.1
    have hhigh : c.toNat ≤ 90 := UInt32.le_iff_toNat_le.mp hrange.2
    have hval : c.toLower.val = c.val + 32 := congrArg Char.val (dif_pos hrange)
    refine .inr ⟨⟨hlow, hhigh⟩, ?_⟩
    rw [← Char.toNat_val, hval, UInt32.toNat_add, Char.toNat_val]
    simp
    omega
  · exact .inl ⟨by simpa [UInt32.le_iff_toNat_le] using hrange, dif_neg hrange⟩

theorem toUpper_cases (c : Char) : ¬ (97 ≤ c.toNat ∧ c.toNat ≤ 122) ∧ c.toUpper = c ∨
    (97 ≤ c.toNat ∧ c.toNat ≤ 122) ∧ c.toUpper.toNat + 32 = c.toNat := by
  by_cases hrange : 'a'.val ≤ c.val ∧ c.val ≤ 'z'.val
  · have hlow : 97 ≤ c.toNat := UInt32.le_iff_toNat_le.mp hrange.1
    have hhigh : c.toNat ≤ 122 := UInt32.le_iff_toNat_le.mp hrange.2
    have hupper : c.toUpper = _ := dif_pos hrange
    have hval := congrArg (fun d : Char => d.val.toNat) hupper
    simp only [UInt32.toNat_add, Char.toNat_val] at hval
    refine .inr ⟨⟨hlow, hhigh⟩, ?_⟩
    rw [hval]
    simp
    omega
  · exact .inl ⟨by simpa [UInt32.le_iff_toNat_le] using hrange, dif_neg hrange⟩

section Letters

variable {c d : Char}

/-- Characters that differ in case only are the same or are both letters. -/
theorem eq_or_isAlpha_of_toLower_eq (h : c.toLower = d.toLower) :
    c = d ∨ c.isAlpha = true ∧ d.isAlpha = true := by
  have hnat := congrArg Char.toNat h
  rw [isAlpha_iff, isAlpha_iff]
  rcases toLower_cases c with ⟨_, hc⟩ | ⟨_, hc⟩ <;> rcases toLower_cases d with ⟨_, hd⟩ | ⟨_, hd⟩
  · exact .inl (by rw [← hc, ← hd, h])
  · rw [hc, hd] at hnat
    omega
  · rw [hc, hd] at hnat
    omega
  · exact .inl (Char.toNat_inj.mp (by omega))

theorem isAlpha_eq_of_toLower_eq (h : c.toLower = d.toLower) : c.isAlpha = d.isAlpha := by
  rcases eq_or_isAlpha_of_toLower_eq h with rfl | ⟨hc, hd⟩
  · rfl
  · rw [hc, hd]

theorem toUpper_eq_of_toLower_eq (h : c.toLower = d.toLower) : c.toUpper = d.toUpper := by
  have hnat := congrArg Char.toNat h
  apply Char.toNat_inj.mp
  rcases toLower_cases c with ⟨_, hc⟩ | ⟨_, hc⟩ <;>
    rcases toLower_cases d with ⟨_, hd⟩ | ⟨_, hd⟩ <;>
    rcases toUpper_cases c with ⟨_, hc'⟩ | ⟨_, hc'⟩ <;>
    rcases toUpper_cases d with ⟨_, hd'⟩ | ⟨_, hd'⟩ <;> simp only [hc, hd, hc', hd'] at hnat ⊢ <;>
    omega

end Letters

/-! ## Names -/

/-- The characters of texts that differ in case at most. -/
theorem map_toLower_eq_of_foldCase_eq {a b : String} (h : foldCase a = foldCase b) :
    a.toList.map Char.toLower = b.toList.map Char.toLower :=
  String.ofList_injective h

/-- Case does not matter for the names of variables. -/
theorem VariableName.ofText?_eq_of_foldCase_eq {a b : String} (h : foldCase a = foldCase b) :
    ofText? a = ofText? b := by
  have hmap := map_toLower_eq_of_foldCase_eq h
  unfold ofText?
  generalize a.toList = left at hmap ⊢
  generalize b.toList = right at hmap ⊢
  match left, right with
  | [], [] => rfl
  | [c], [d] =>
      have hcd : c.toLower = d.toLower := by simpa using hmap
      simp only [ofChar?, isAlpha_eq_of_toLower_eq hcd, toUpper_eq_of_toLower_eq hcd]
  | _ :: _ :: _, _ :: _ :: _ => rfl
  | [], _ :: _ | _ :: _, [] | [_], _ :: _ :: _ | _ :: _ :: _, [_] => simp at hmap

theorem isConsole_eq_of_foldCase_eq {a b : String} (h : foldCase a = foldCase b) :
    isConsole a = isConsole b := by
  rw [isConsole, isConsole, h]

/-- The names mean the same file: they are equal, or they both mean the console. -/
def SameFile (spelling : Spelling) (path path' : String) : Prop :=
  path' = path ∨ spelling = .anyCase ∧ isConsole path = true ∧ isConsole path' = true

namespace SameFile

variable {spelling : Spelling} {path path' : String}

theorem refl (path : String) : SameFile spelling path path := .inl rfl

theorem isConsole_eq (h : SameFile spelling path path') : isConsole path' = isConsole path := by
  rcases h with rfl | ⟨_, hpath, hpath'⟩
  · rfl
  · rw [hpath, hpath']

/-- Only the console has more than one name. -/
theorem eq_of_isConsole_eq_false (h : SameFile spelling path path')
    (hfile : isConsole path = false) : path' = path := by
  rcases h with heq | ⟨_, hpath, _⟩
  · exact heq
  · rw [hfile] at hpath
    cases hpath

theorem fold_eq (h : SameFile spelling path path') :
    spelling.fold path' = spelling.fold path := by
  rcases h with rfl | ⟨rfl, hpath, hpath'⟩
  · rfl
  · exact (beq_iff_eq.mp hpath').trans (beq_iff_eq.mp hpath).symm

end SameFile

end MatrixScript
