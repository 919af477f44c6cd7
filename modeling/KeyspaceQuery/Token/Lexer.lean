import KeyspaceQuery.Source
import KeyspaceQuery.Text.Quoted
import KeyspaceQuery.Token

/-! Tokens read off a source. Blanks and words are read to the end of their run, and the reading
behind the run is undone; a string ends at its closing quote, at a line feed, at a bad backslash
pair or with the text. -/

namespace KeyspaceQuery.Source

/-- The accepted characters that come next. The reading of the first one rejected is undone, that of
the end of the text is not. -/
def takeRun (accept : Char → Bool) (r : Source) : Except Fault (List Char × Source) :=
  match _h : r.read with
  | (⟨none, _⟩, r₁) => .ok ([], r₁)
  | (⟨some c, _⟩, r₁) =>
    if accept c then do
      let (run, r₂) ← takeRun accept r₁
      return (c :: run, r₂)
    else do
      return ([], ← r₁.undo)
termination_by r.pending
decreasing_by exact pending_lt_of_read _h

inductive StringEnd
  | closed
  | cutOff
  | badEscape (c : Char)
  deriving DecidableEq, Repr

def StringEnd.kind : StringEnd → TokenKind
  | closed => .str
  | cutOff => .badString
  | badEscape _ => .badEscape

/-- The value read between an opening quote and what ends the string. -/
def takeString (r : Source) : (List Char × StringEnd) × Source :=
  match _h : r.read with
  | (⟨none, _⟩, r₁) => (([], .cutOff), r₁)
  | (⟨some c, _⟩, r₁) =>
    if c = '"' then (([], .closed), r₁)
    else if c = '\n' then (([], .cutOff), r₁)
    else if c = '\\' then
      match _h₁ : r₁.read with
      | (⟨none, _⟩, r₂) => (([], .cutOff), r₂)
      | (⟨some e, _⟩, r₂) =>
        match Text.unescape? e with
        | none => (([], .badEscape e), r₂)
        | some d =>
          let ((value, ending), r₃) := takeString r₂
          ((d :: value, ending), r₃)
    else
      let ((value, ending), r₂) := takeString r₁
      ((c :: value, ending), r₂)
termination_by r.pending
decreasing_by
  · exact Nat.lt_trans (pending_lt_of_read _h₁) (pending_lt_of_read _h)
  · exact pending_lt_of_read _h

/-- The literal of a string token: its value, or the bad pair alone. -/
def stringLiteral : List Char × StringEnd → String
  | (_, .badEscape c) => String.ofList ['\\', c]
  | (value, _) => String.ofList value

/-- Tokens of a single character. -/
def symbol (c : Char) (position : Position) : Token :=
  match c with
  | '.' => ⟨.dot, position, ""⟩
  | ',' => ⟨.comma, position, ""⟩
  | ';' => ⟨.semicolon, position, ""⟩
  | '=' => ⟨.equal, position, ""⟩
  | c => ⟨.illegal, position, String.ofList [c]⟩

/-- The next token. After the end of the text this is the end of input for ever. A string is placed
where the reading before its opening quote was. -/
def nextToken (r : Source) : Except Fault (Token × Source) := do
  let (⟨char, position⟩, r₁) := r.read
  match char with
  | none => return (⟨.endOfInput, position, ""⟩, r₁)
  | some c =>
    if Token.isBlank c then
      let (run, r₂) ← (← r₁.undo).takeRun Token.isBlank
      return (⟨.whitespace, position, String.ofList run⟩, r₂)
    else if Token.isWordStart c then
      let (run, r₂) ← (← r₁.undo).takeRun Token.isWordChar
      return (⟨.ofWord (String.ofList run), position, String.ofList run⟩, r₂)
    else if c = '"' then
      let before ← r₁.undo
      let (body, r₂) := before.read.2.takeString
      return (⟨body.2.kind, before.latest.position, stringLiteral body⟩, r₂)
    else
      return (symbol c position, r₁)

theorem pending_takeRun {accept : Char → Bool} {r s : Source} {run : List Char}
    (h : r.takeRun accept = .ok (run, s)) : s.pending ≤ r.pending := by
  fun_induction takeRun accept r generalizing run s with
  | case1 r _ r₁ hr =>
    cases h
    have := pending_read_le r
    rwa [hr] at this
  | case2 r c _ r₁ hr hc ih =>
    obtain ⟨⟨tail, r₂⟩, h₁, h₂⟩ := bind_eq_ok_iff.1 h
    cases h₂
    exact Nat.le_trans (ih h₁) (Nat.le_of_lt (pending_lt_of_read hr))
  | case3 r c _ r₁ hr hc =>
    obtain ⟨r₂, h₁, h₂⟩ := bind_eq_ok_iff.1 h
    cases h₂
    exact pending_of_undo h₁ ▸ pending_lt_of_read hr

theorem pending_takeString (r : Source) : r.takeString.2.pending ≤ r.pending := by
  fun_induction takeString r with
  | case1 r _ r₁ hr =>
    have := pending_read_le r
    rwa [hr] at this
  | case2 r _ r₁ hr => exact Nat.le_of_lt (pending_lt_of_read hr)
  | case3 r _ r₁ hr => exact Nat.le_of_lt (pending_lt_of_read hr)
  | case4 r _ r₁ _ r₂ hr₁ hr =>
    have := pending_read_le r₁
    rw [hr₁] at this
    exact Nat.le_trans this (Nat.le_of_lt (pending_lt_of_read hr))
  | case5 r _ r₁ _ _ r₂ hr₁ _ hr =>
    exact Nat.le_of_lt (Nat.lt_trans (pending_lt_of_read hr₁) (pending_lt_of_read hr))
  | case6 r _ r₁ _ _ r₂ hr₁ _ _ _ _ r₃ hs hr _ _ ih =>
    have := pending_lt_of_read hr
    have := pending_lt_of_read hr₁
    rw [hs] at ih
    exact Nat.le_trans ih (by omega)
  | case7 r _ _ r₁ hr _ _ _ _ _ r₂ hs ih =>
    rw [hs] at ih
    exact Nat.le_trans ih (Nat.le_of_lt (pending_lt_of_read hr))

/-- Every token but the end of the input takes something from the text. -/
theorem pending_nextToken {r s : Source} {t : Token} (h : r.nextToken = .ok (t, s)) :
    s.pending + t.weight ≤ r.pending := by
  have hle := pending_read_le r
  have hlatest := latest_read r
  unfold nextToken at h
  rcases hr : r.read with ⟨⟨_ | c, position⟩, r₁⟩
  · rw [hr] at h hle
    cases h
    exact hle
  · have hlt := pending_lt_of_read hr
    rw [hr] at h hlatest
    -- a run starts over at the character just read, which it accepts
    have run {accept : Char → Bool} (hc : accept c) {r₀ : Source} (h₀ : r₁.undo = .ok r₀)
        {cs : List Char} (h₁ : r₀.takeRun accept = .ok (cs, s)) : s.pending < r.pending := by
      unfold takeRun at h₁
      rw [read_of_undo h₀, hlatest] at h₁
      simp only [hc, if_true] at h₁
      obtain ⟨⟨_, _⟩, h₂, h₃⟩ := bind_eq_ok_iff.1 h₁
      cases h₃
      exact Nat.lt_of_le_of_lt (pending_takeRun h₂) hlt
    have lt : s.pending < r.pending := by
      simp only at h
      split at h
      · obtain ⟨r₀, h₀, h⟩ := bind_eq_ok_iff.1 h
        obtain ⟨⟨cs, r₂⟩, h₁, h⟩ := bind_eq_ok_iff.1 h
        cases h
        exact run ‹_› h₀ h₁
      · split at h
        · obtain ⟨r₀, h₀, h⟩ := bind_eq_ok_iff.1 h
          obtain ⟨⟨cs, r₂⟩, h₁, h⟩ := bind_eq_ok_iff.1 h
          cases h
          exact run (Token.isWordChar_of_isWordStart ‹_›) h₀ h₁
        · split at h
          · obtain ⟨r₀, h₀, h⟩ := bind_eq_ok_iff.1 h
            cases h
            rw [read_of_undo h₀]
            exact Nat.lt_of_le_of_lt (pending_takeString r₁) hlt
          · cases h
            exact hlt
    exact Nat.le_trans (Nat.add_le_add_left (Token.weight_le_one t) _) lt

/-- All tokens up to the first end of the input, which is the last of them. -/
def tokens (r : Source) : Except Fault (List Token) :=
  match _h : r.nextToken with
  | .error f => .error f
  | .ok (t, r₁) => if t.kind = .endOfInput then .ok [t] else return t :: (← tokens r₁)
termination_by r.pending
decreasing_by
  have := pending_nextToken _h
  have := Token.weight_pos ‹_›
  omega

end KeyspaceQuery.Source

namespace KeyspaceQuery

def lex (text : String) : Except Fault (List Token) := (Source.ofString text).tokens

end KeyspaceQuery
