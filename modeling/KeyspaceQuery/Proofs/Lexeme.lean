import KeyspaceQuery.Token.Lexer
import Mathlib.Data.List.Chain

/-! Tokens without their places. The lexemes of a text are cut off the front of its characters one
by one, the longest run first, with no look-behind. The lexer gives the same: see
`Proofs.Lexeme.Source`. -/

namespace KeyspaceQuery

structure Lexeme where
  kind : TokenKind
  literal : String
  deriving DecidableEq, Repr

def Token.lexeme (t : Token) : Lexeme := ⟨t.kind, t.literal⟩

theorem Token.kind_lexeme (t : Token) : t.lexeme.kind = t.kind := rfl

/-- A run of word characters: a reserved word or an identifier. -/
def TokenKind.isWord : TokenKind → Bool
  | and | or | keyword _ | identifier => true
  | _ => false

theorem TokenKind.isWord_ofWord (word : String) : (ofWord word).isWord := by
  unfold ofWord
  split
  · rfl
  · split
    · rfl
    · split <;> rfl

theorem TokenKind.ofWord_ne {kind : TokenKind} (h : kind.isWord = false) (word : String) :
    ofWord word ≠ kind := by
  rintro rfl
  rw [isWord_ofWord] at h
  cases h

namespace Lexeme

open Token (isBlank isWordStart isWordChar)

def eof : Lexeme := ⟨.endOfInput, ""⟩

def symbol (c : Char) : Lexeme :=
  match c with
  | '.' => ⟨.dot, ""⟩
  | ',' => ⟨.comma, ""⟩
  | ';' => ⟨.semicolon, ""⟩
  | '=' => ⟨.equal, ""⟩
  | c => ⟨.illegal, String.ofList [c]⟩

/-- The value behind an opening quote, what ends it, and the characters behind its end. -/
def quoted : List Char → (List Char × Source.StringEnd) × List Char
  | [] => (([], .cutOff), [])
  | c :: cs =>
    if c = '"' then (([], .closed), cs)
    else if c = '\n' then (([], .cutOff), cs)
    else if c = '\\' then
      match cs with
      | [] => (([], .cutOff), [])
      | e :: cs =>
        match Text.unescape? e with
        | none => (([], .badEscape e), cs)
        | some d =>
          let ((value, ending), rest) := quoted cs
          ((d :: value, ending), rest)
    else
      let ((value, ending), rest) := quoted cs
      ((c :: value, ending), rest)

/-- The lexeme that starts with `c`, and the characters behind it. -/
def cut (c : Char) (cs : List Char) : Lexeme × List Char :=
  if isBlank c then
    (⟨.whitespace, String.ofList (c :: cs.takeWhile isBlank)⟩, cs.dropWhile isBlank)
  else if isWordStart c then
    let word := String.ofList (c :: cs.takeWhile isWordChar)
    (⟨.ofWord word, word⟩, cs.dropWhile isWordChar)
  else if c = '"' then
    let (body, rest) := quoted cs
    (⟨body.2.kind, Source.stringLiteral body⟩, rest)
  else (symbol c, cs)

theorem quoted_closing (cs : List Char) : quoted ('"' :: cs) = (([], .closed), cs) := by
  rw [quoted.eq_def]; rfl

theorem quoted_newline (cs : List Char) : quoted ('\n' :: cs) = (([], .cutOff), cs) := by
  rw [quoted.eq_def]; rfl

theorem quoted_backslash : quoted ['\\'] = (([], .cutOff), []) := by
  rw [quoted.eq_def]; rfl

theorem quoted_pair {e d : Char} (h : Text.unescape? e = some d) (cs : List Char) :
    quoted ('\\' :: e :: cs) = ((d :: (quoted cs).1.1, (quoted cs).1.2), (quoted cs).2) := by
  rw [quoted.eq_def]; simp [h]

theorem quoted_badPair {e : Char} (h : Text.unescape? e = none) (cs : List Char) :
    quoted ('\\' :: e :: cs) = (([], .badEscape e), cs) := by
  rw [quoted.eq_def]; simp [h]

theorem quoted_char {c : Char} (hq : c ≠ '"') (hn : c ≠ '\n') (hb : c ≠ '\\') (cs : List Char) :
    quoted (c :: cs) = ((c :: (quoted cs).1.1, (quoted cs).1.2), (quoted cs).2) := by
  rw [quoted.eq_def]; simp [hq, hn, hb]

theorem length_quoted (cs : List Char) : (quoted cs).2.length ≤ cs.length := by
  fun_induction quoted cs <;> simp_all <;> omega

theorem length_cut (c : Char) (cs : List Char) : (cut c cs).2.length ≤ cs.length := by
  unfold cut
  split
  · exact (List.dropWhile_suffix _).length_le
  · split
    · exact (List.dropWhile_suffix _).length_le
    · split
      · exact length_quoted cs
      · exact Nat.le_refl _

theorem kind_symbol_ne_endOfInput (c : Char) : (symbol c).kind ≠ .endOfInput := by
  unfold symbol
  split <;> nofun

theorem kind_cut_ne_endOfInput (c : Char) (cs : List Char) :
    (cut c cs).1.kind ≠ .endOfInput := by
  unfold cut
  split
  · nofun
  · split
    · exact TokenKind.ofWord_ne rfl _
    · split
      · simp only
        cases (quoted cs).1.2 <;> nofun
      · exact kind_symbol_ne_endOfInput c

end Lexeme

/-- The lexemes of a text, the end of the input last. -/
def lexemes : List Char → List Lexeme
  | [] => [.eof]
  | c :: cs => (Lexeme.cut c cs).1 :: lexemes (Lexeme.cut c cs).2
termination_by cs => cs.length
decreasing_by exact Nat.lt_succ_of_le (Lexeme.length_cut c cs)

end KeyspaceQuery
