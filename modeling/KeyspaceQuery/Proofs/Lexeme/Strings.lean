import KeyspaceQuery.Proofs.Lexeme.Segments

/-! Strings. Behind an opening quote characters and pairs are taken for a value until something ends
the string: a quote, a line feed, the end of the text or a bad pair. What comes first settles what
the string is and where it ends, so that a quoted value is read back from any text it begins. -/

namespace KeyspaceQuery

namespace Lexeme

/-- What may end a string whose value so far is given: the characters that do it, the lexeme that
the string is then, and the text behind it. -/
inductive Ends (value : List Char) : List Char → Lexeme → List Char → Prop
  | quote {rest} : Ends value ['"'] ⟨.str, String.ofList value⟩ rest
  | lineFeed {rest} : Ends value ['\n'] ⟨.badString, String.ofList value⟩ rest
  | endOfText : Ends value [] ⟨.badString, String.ofList value⟩ []
  | backslash : Ends value ['\\'] ⟨.badString, String.ofList value⟩ []
  | badPair {c rest} : c ∉ pairs.map Prod.fst →
    Ends value ['\\', c] ⟨.badEscape, String.ofList ['\\', c]⟩ rest

/-- The characters behind an opening quote, divided at what ends the string. Nothing in the body
does, so it is the first thing that could. -/
@[ext]
structure Division (cs : List Char) where
  body : List Char
  value : List Char
  stop : List Char
  lexeme : Lexeme
  rest : List Char
  eq : cs = body ++ (stop ++ rest)
  denotes : Denotes body value
  ends : Ends value stop lexeme rest

variable {cs rest value : List Char}

theorem ends_iff {stop : List Char} {l : Lexeme} : Ends value stop l rest ↔
    ∃ e, Stops e stop rest ∧ l = ⟨e.kind, Source.stringLiteral (value, e)⟩ := by
  constructor
  · intro h
    cases h with
    | quote => exact ⟨.closed, .closed, rfl⟩
    | lineFeed => exact ⟨.cutOff, .lineFeed, rfl⟩
    | endOfText => exact ⟨.cutOff, .endOfText, rfl⟩
    | backslash => exact ⟨.cutOff, .backslash, rfl⟩
    | @badPair c _ hc => exact ⟨.badEscape c, .badPair hc, rfl⟩
  · rintro ⟨e, hstop, rfl⟩
    cases hstop with
    | closed => exact .quote
    | lineFeed => exact .lineFeed
    | endOfText => exact .endOfText
    | backslash => exact .backslash
    | badPair hc => exact .badPair hc

/-- Of two bodies for one value neither goes on where the other ends. -/
theorem Denotes.eq_of_append_eq {body body' xs ys : List Char} (h : Denotes body value)
    (h' : Denotes body' value) (heq : body ++ xs = body' ++ ys) : body = body' := by
  induction h generalizing body' with
  | nil =>
    cases h'
    rfl
  | char hc _ ih =>
    cases h' with
    | char _ h' =>
      rw [ih h' (List.cons.inj heq).2]
    | pair _ _ =>
      -- a backslash never stands for itself
      rw [(List.cons.inj heq).1] at hc
      exact absurd hc (by decide)
  | pair _ _ ih =>
    cases h' with
    | char hc _ =>
      rw [← (List.cons.inj heq).1] at hc
      exact absurd hc (by decide)
    | pair _ h' =>
      simp only [List.cons_append, List.cons.injEq, true_and] at heq
      rw [heq.1, ih h' heq.2]

/-- What a string is told by is where it is divided. -/
theorem Division.quoted_eq (d : Division cs) : ∃ e, Stops e d.stop d.rest ∧
    d.lexeme = ⟨e.kind, Source.stringLiteral (d.value, e)⟩ ∧
      quoted cs = ((d.value, e), d.rest) := by
  obtain ⟨e, hstop, hl⟩ := ends_iff.1 d.ends
  refine ⟨e, hstop, hl, ?_⟩
  conv_lhs => rw [d.eq]
  rw [quoted_denotes d.denotes, quoted_stops hstop, List.append_nil]

theorem Division.cut_eq (d : Division cs) : cut '"' cs = (d.lexeme, d.rest) := by
  obtain ⟨e, -, hl, hquoted⟩ := d.quoted_eq
  rw [cut_quote, hquoted, hl]

/-- There is one way to divide some characters. -/
theorem Division.unique (d d' : Division cs) : d = d' := by
  obtain ⟨e, -, hl, hquoted⟩ := d.quoted_eq
  obtain ⟨e', -, hl', hquoted'⟩ := d'.quoted_eq
  obtain ⟨hbody, hrest⟩ := Prod.mk.inj (hquoted.symm.trans hquoted')
  obtain ⟨hvalue, rfl⟩ := Prod.mk.inj hbody
  have heq : d.body ++ (d.stop ++ d.rest) = d'.body ++ (d'.stop ++ d'.rest) :=
    d.eq.symm.trans d'.eq
  have hbodies : d.body = d'.body := d.denotes.eq_of_append_eq (hvalue ▸ d'.denotes) heq
  rw [hbodies, hrest, List.append_cancel_left_eq, List.append_cancel_right_eq] at heq
  exact Division.ext hbodies hvalue heq (by rw [hl, hl', hvalue]) hrest

theorem nonempty_division (cs : List Char) : Nonempty (Division cs) := by
  obtain ⟨body, stop, hcs, hbody, hstop⟩ := exists_stops cs
  exact ⟨body, _, stop, _, _, hcs, hbody, ends_iff.2 ⟨_, hstop, rfl⟩⟩

theorem denotes_escape (value : List Char) : Denotes (value.flatMap Text.escape) value := by
  induction value with
  | nil => exact .nil
  | cons c value ih =>
    rw [List.flatMap_cons]
    rcases escape_cases c with ⟨e, he, hd⟩ | ⟨he, hq, hn, hb⟩
    · rw [he]
      exact .pair (unescape?_eq_some_iff.1 hd) ih
    · rw [he]
      exact .char (by simp [hq, hn, hb]) ih

/-- Behind its first quote a quoted value is divided at its last one. -/
def Division.ofQuoted (value rest : List Char) :
    Division (value.flatMap Text.escape ++ '"' :: rest) where
  body := value.flatMap Text.escape
  value := value
  stop := ['"']
  lexeme := ⟨.str, String.ofList value⟩
  rest := rest
  eq := rfl
  denotes := denotes_escape value
  ends := .quote

end Lexeme

open Lexeme (Division)

theorem Text.toList_quote_append (value : String) (rest : List Char) :
    (quote value).toList ++ rest = '"' :: (value.toList.flatMap escape ++ '"' :: rest) := by
  rw [quote, String.toList_ofList, List.append_assoc]
  rfl

/-- Of a string the lexer gives what it is up to the place where it is divided, and goes on behind
that. -/
theorem Source.nextToken_of_division {r : Source} {cs : List Char} (h : r.Ready)
    (hcs : r.remaining = '"' :: cs) (d : Division cs) :
    ∃ t s, r.nextToken = .ok (t, s) ∧ t.lexeme = d.lexeme ∧ s.remaining = d.rest := by
  obtain ⟨t, s, hs, ht, -, hrest⟩ := nextToken_of_remaining_cons h hcs
  rw [d.cut_eq] at ht hrest
  exact ⟨t, s, hs, ht, hrest⟩

/-- Whatever stands behind an opening quote is divided in one way, at the first thing that ends a
string, and so the lexer takes it wherever it comes to it. A quoted value is therefore read back
with any text behind it, and that text is left. -/
theorem string_ends_at_first_event (text : String) (calls : List Source.Call) :
    ∃ replies r, serve Source.reply calls (.ofString text) = .ok (replies, r) ∧
      (∀ cs, r.remaining = '"' :: cs → ∃ d : Division cs, (∀ d' : Division cs, d' = d) ∧
        ∃ t s, r.nextToken = .ok (t, s) ∧ t.lexeme = d.lexeme ∧ s.remaining = d.rest) ∧
      ∀ value rest, r.remaining = (Text.quote value).toList ++ rest →
        ∃ t s, r.nextToken = .ok (t, s) ∧ t.lexeme = ⟨.str, value⟩ ∧ s.remaining = rest := by
  obtain ⟨replies, r, hr, hready, -⟩ := Source.serve_of_ready calls (Source.ready_ofString text)
  refine ⟨replies, r, hr, fun cs hcs => ?_, fun value rest hrest => ?_⟩
  · obtain ⟨d⟩ := Lexeme.nonempty_division cs
    exact ⟨d, fun d' => d'.unique d, Source.nextToken_of_division hready hcs d⟩
  · rw [Text.toList_quote_append] at hrest
    obtain ⟨t, s, hs, ht, hleft⟩ :=
      Source.nextToken_of_division hready hrest (.ofQuoted value.toList rest)
    refine ⟨t, s, hs, ht.trans ?_, hleft⟩
    simp only [Division.ofQuoted, String.ofList_toList]

/-- A pair is taken whole, so that the quote behind three backslashes closes nothing, and a line
feed in a value is written as a pair. -/
theorem string_ends_behind_pairs :
    (∃ t s, (Source.ofString "\"a\\\\\\\"\\q\";").nextToken = .ok (t, s) ∧
      t.lexeme = ⟨.badEscape, "\\q"⟩ ∧ s.remaining = ['"', ';']) ∧
    ∃ t s, (Source.ofString (Text.quote "\\\n" ++ "\"")).nextToken = .ok (t, s) ∧
      t.lexeme = ⟨.str, "\\\n"⟩ ∧ s.remaining = ['"'] := by
  constructor
  · obtain ⟨replies, r, hr, hstring, -⟩ :=
      string_ends_at_first_event "\"a\\\\\\\"\\q\";" []
    cases hr
    obtain ⟨d, hd, t, s, hs, ht, hrest⟩ := hstring _ rfl
    have hbody : Lexeme.Denotes ['a', '\\', '\\', '\\', '"'] ['a', '\\', '"'] :=
      .char (by decide) (.pair (by decide) (.pair (by decide) .nil))
    rw [← hd ⟨_, _, _, _, _, rfl, hbody, .badPair (by decide)⟩] at ht hrest
    exact ⟨t, s, hs, ht, hrest⟩
  · obtain ⟨replies, r, hr, -, hquoted⟩ :=
      string_ends_at_first_event (Text.quote "\\\n" ++ "\"") []
    cases hr
    exact hquoted _ _ String.toList_append

end KeyspaceQuery
