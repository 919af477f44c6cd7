import KeyspaceQuery.Proofs.Lexeme.Segments
import KeyspaceQuery.Proofs.Machine.Twins

/-! What `UPSERT` reads of the language of `SELECT`: just the clauses whose filters are all literals.
Any other clause that a `SELECT` takes it refuses in its first filter of another kind, where that
filter shows what it is. -/

namespace KeyspaceQuery

open StatementMachine

/-- The text of an `UPSERT`, of which `r` begins with the keyspace. -/
def upsertText (v r : String) : String := "UPSERT " ++ Text.quote v ++ " INTO" ++ r

def selectText (r : String) : String := "SELECT FROM" ++ r

/-- The beginning of an `UPSERT` up to its keyspace. -/
def upsertInto (v : String) : List Lexeme :=
  [⟨.keyword .upsert, "UPSERT"⟩, .space, ⟨.str, v⟩, .space, ⟨.keyword .into, "INTO"⟩]

def selectFrom : List Lexeme :=
  [⟨.keyword .select, "SELECT"⟩, .space, ⟨.keyword .fromWord, "FROM"⟩]

section Clause

variable {v r : String}

/-- A text that begins with such lexemes, of which the last is no blank. -/
theorem lexemes_of_spelling {text : String} {pre : List Lexeme} (hs : ∀ l ∈ pre, l.Spelled)
    (ha : pre.IsChain Lexeme.Apart) (hlast : ∀ l ∈ pre.getLast?, l.kind ≠ .whitespace)
    (htext : text.toList = pre.flatMap Lexeme.spelling ++ r.toList)
    (hr : ∀ c ∈ r.toList.head?, ¬ Token.isWordChar c) :
    lexemes text.toList = pre ++ lexemes r.toList := by
  have hstops : ∀ l ∈ pre.getLast?, l.StopsAt r.toList := fun l hl =>
    ⟨fun _ => hr, fun hk => absurd hk (hlast l hl)⟩
  rw [htext, lexemes_spelling_append hs ha hstops]

theorem lexemes_upsertText (hr : ∀ c ∈ r.toList.head?, ¬ Token.isWordChar c) :
    lexemes (upsertText v r).toList = upsertInto v ++ lexemes r.toList := by
  refine lexemes_of_spelling ?_ ?_ (by simp [upsertInto]) ?_ hr
  · simp only [upsertInto, List.forall_mem_cons]
    exact ⟨Lexeme.spelled_keyword .upsert, Lexeme.spelled_space, trivial, Lexeme.spelled_space,
      Lexeme.spelled_keyword .into, List.forall_mem_nil _⟩
  · simp [upsertInto, Lexeme.Apart, Lexeme.space, TokenKind.isWord]
  · simp [upsertText, upsertInto, Lexeme.spelling, Lexeme.space, String.toList_append]

theorem lexemes_selectText (hr : ∀ c ∈ r.toList.head?, ¬ Token.isWordChar c) :
    lexemes (selectText r).toList = selectFrom ++ lexemes r.toList := by
  refine lexemes_of_spelling ?_ ?_ (by simp [selectFrom]) ?_ hr
  · simp only [selectFrom, List.forall_mem_cons]
    exact ⟨Lexeme.spelled_keyword .select, Lexeme.spelled_space, Lexeme.spelled_keyword .fromWord,
      List.forall_mem_nil _⟩
  · simp [selectFrom, Lexeme.Apart, Lexeme.space, TokenKind.isWord]
  · simp [selectText, selectFrom, Lexeme.spelling, Lexeme.space, String.toList_append]

/-- A statement is answered as its first lexemes leave the machine. -/
theorem parse_iff_of_walk {text : String} {pre ls : List Lexeme} {q : State}
    (htext : lexemes text.toList = pre ++ ls) (hwalk : move.walk (.stage .start) pre = some q)
    {s : Statement} :
    parseStatement text = .ok s ↔ ∃ rest, move.answer q ls = some (s, rest) := by
  rw [Parser.parse_eq_ok_iff reads_statement ends_move, htext, Machine.answer_append hwalk]

theorem parse_upsertText_iff (hr : ∀ c ∈ r.toList.head?, ¬ Token.isWordChar c) {s : Statement} :
    parseStatement (upsertText v r) = .ok s ↔
      ∃ rest, move.answer (.stage (.keyspace (.upsert v))) (lexemes r.toList) = some (s, rest) :=
  parse_iff_of_walk (lexemes_upsertText hr) rfl

theorem parse_selectText_iff (hr : ∀ c ∈ r.toList.head?, ¬ Token.isWordChar c) {s : Statement} :
    parseStatement (selectText r) = .ok s ↔
      ∃ rest, move.answer (.stage (.keyspace .select)) (lexemes r.toList) = some (s, rest) :=
  parse_iff_of_walk (lexemes_selectText hr) rfl

/-- The clause of a text, read by the two. -/
theorem twinAnswers (v r : String) : TwinAnswers v [] (.stage (.keyspace .select))
    (.stage (.keyspace (.upsert v))) (lexemes r.toList) :=
  twinAnswers_of_twins .keyspace (List.forall_mem_nil _) _

end Clause

/-- What stands before a token of the filter behind `n` literals: no `OR` and no `BETWEEN`, and an
`AND` behind each of the literals. -/
structure PassesLiterals (pre : List Token) (n : Nat) : Prop where
  plain : ∀ u ∈ pre, u.kind ≠ .or ∧ u.kind ≠ .keyword .between
  count : pre.countP (·.kind = .and) = n

/-- Where an `UPSERT` is stopped in its clause, its text has an error at the token. -/
theorem exists_parse_of_stop {v r : String} (hr : ∀ c ∈ r.toList.head?, ¬ Token.isWordChar c)
    {pre post : List Lexeme} {l : Lexeme} {c : Capability} {before : List Filter}
    (hls : lexemes r.toList = pre ++ l :: post)
    (h : Stop [] (.stage (.keyspace (.upsert v))) pre l c before) :
    ∃ ps t us, lex (upsertText v r) = .ok (ps ++ t :: us) ∧
      t.kind = c.kind ∧ PassesLiterals ps before.length ∧
      parseStatement (upsertText v r) = .error (.syntaxError ⟨.notAllowed c, t.position⟩) := by
  obtain ⟨q, hw, hrefuse⟩ := h.walk
  have htext := lexemes_upsertText (v := v) hr
  rw [hls, ← List.append_assoc] at htext
  have hwalk : move.walk (.stage .start) (upsertInto v ++ pre) = some q := hw
  obtain ⟨ps, t, us, hlex, hps, rfl, hparse⟩ :=
    Parser.exists_parse_of_refuse reads_statement htext hwalk hrefuse
  refine ⟨ps, t, us, hlex, h.kind, ⟨fun u hu => ?_, ?_⟩, hparse⟩
  · have hmem : u.lexeme ∈ upsertInto v ++ pre := hps ▸ List.mem_map_of_mem hu
    rcases List.mem_append.1 hmem with hmem | hmem
    · have hplain : ∀ l ∈ upsertInto v, l.kind ≠ .or ∧ l.kind ≠ .keyword .between := by
        simp [upsertInto, Lexeme.space]
      exact hplain _ hmem
    · exact h.plain _ hmem
  · have hcount := congrArg (List.countP fun l => l.kind = .and) hps
    rw [List.countP_map, List.countP_append] at hcount
    rw [h.count]
    exact hcount

/-- A text whose first word is not `UPSERT` is not stopped for what its filters ask for. -/
theorem cause_ne_notAllowed {text : String} {c : Char} {cs : List Char}
    (htext : text.toList = c :: cs) (hword : Token.isWordStart c) (hc : c ≠ 'U') {e : SyntaxError}
    (he : parseStatement text = .error (.syntaxError e)) (capability : Capability) :
    e.cause ≠ .notAllowed capability := by
  intro hcause
  obtain ⟨ts, pre, t, post, q, r, taken, hlex, rfl, hwalk, hrefuse, herror⟩ :=
    Parser.exists_refuse_of_parse reads_statement ends_move he
  obtain rfl : e = r.error t := Failure.syntaxError.inj herror
  obtain rfl : r = .notAllowed capability := by
    cases r with
    | expected list => cases hcause
    | notAllowed => cases hcause; rfl
  obtain ⟨hwrite, hstart⟩ := mayWrite_of_notAllowed hrefuse
  cases pre with
  | nil =>
    cases hwalk
    exact hstart rfl
  | cons u pre =>
    obtain ⟨q₁, hmove, hwalk⟩ := Machine.walk_cons_iff.1 hwalk
    obtain ⟨ts, hlex', hts⟩ := Parser.lex_of_reads reads_statement text
    cases hlex.symm.trans hlex'
    rw [htext, lexemes, Lexeme.cut_word hword] at hts
    have hu : u.lexeme = _ := (List.cons.inj hts).1
    have hkind : u.lexeme.kind ≠ .keyword .upsert := by
      rw [hu]
      intro h
      have hw := congrArg String.toList (TokenKind.names_iff.2 h).eq_text
      rw [String.toList_ofList] at hw
      exact hc (List.cons.inj hw).1
    have hblank : u.lexeme.kind ≠ .whitespace := by
      rw [hu]
      exact TokenKind.ofWord_ne rfl _
    rw [mayWrite_of_walk (mayWrite_of_start hblank hkind hmove) hwalk] at hwrite
    cases hwrite

/-- `UPSERT` takes of the language of `SELECT` just the clauses without `OR` and `BETWEEN`. A clause
that only `SELECT` takes it refuses at the first such word, which stands in the first filter that is
no literal. No other statement is ever refused for what its filters ask for. -/
theorem upsertText_iff_selectText (v r : String)
    (hr : ∀ c ∈ r.toList.head?, ¬ Token.isWordChar c) :
    (∀ s, parseStatement (upsertText v r) = .ok s →
      ∃ p fs, s = .upsert v p fs ∧ parseStatement (selectText r) = .ok (.select p fs)) ∧
    (∀ s, parseStatement (selectText r) = .ok s → ∃ p fs, s = .select p fs ∧
      ((∀ f ∈ fs, f.capability? = none) ∧
          parseStatement (upsertText v r) = .ok (.upsert v p fs) ∨
        ∃ before f after c pre t post, fs = before ++ f :: after ∧
          (∀ g ∈ before, g.capability? = none) ∧ f.capability? = some c ∧
          lex (upsertText v r) = .ok (pre ++ t :: post) ∧ t.kind = c.kind ∧
          PassesLiterals pre before.length ∧
          parseStatement (upsertText v r) = .error (.syntaxError ⟨.notAllowed c, t.position⟩))) ∧
    ∀ text, ∀ k ∈ [Keyword.create, .drop, .select, .delete], k.text.toList <+: text.toList →
      ∀ e, parseStatement text = .error (.syntaxError e) → ∀ c, e.cause ≠ .notAllowed c := by
  refine ⟨fun s hs => ?_, fun s hs => ?_, ?_⟩
  · obtain ⟨rest, hs⟩ := (parse_upsertText_iff hr).1 hs
    cases twinAnswers v r with
    | both ha ha' _ =>
      cases hs.symm.trans ha'
      exact ⟨_, _, rfl, (parse_selectText_iff hr).2 ⟨rest, ha⟩⟩
    | none _ ha' => cases hs.symm.trans ha'
    | stop hls hstop _ =>
      rw [hls, hstop.answer_eq_none] at hs
      cases hs
  · obtain ⟨rest, hs⟩ := (parse_selectText_iff hr).1 hs
    cases twinAnswers v r with
    | both ha ha' hgs =>
      cases hs.symm.trans ha
      exact ⟨_, _, rfl, .inl ⟨hgs, (parse_upsertText_iff hr).2 ⟨rest, ha'⟩⟩⟩
    | none ha _ => cases hs.symm.trans ha
    | stop hls hstop hasks =>
      obtain ⟨p, f, after, rfl, hf⟩ := hasks s rest hs
      obtain ⟨ps, t, us, hlex, ht, hpre, hparse⟩ := exists_parse_of_stop hr hls hstop
      exact ⟨p, _, rfl, .inr ⟨_, f, after, _, ps, t, us, rfl, hstop.literal, hf, hlex, ht, hpre,
        hparse⟩⟩
  · rintro text k hk ⟨cs, hcs⟩ e he
    simp only [List.mem_cons, List.not_mem_nil, or_false] at hk
    rcases hk with rfl | rfl | rfl | rfl
    all_goals exact cause_ne_notAllowed hcs.symm (by decide) (by decide) he

theorem upsertText_stopped_at_or :
    (∀ c ∈ " k WHERE a = \"1\" AND b = \"2\" OR \"3\"".toList.head?, ¬ Token.isWordChar c) ∧
    ∃ pre t post,
      lex (upsertText "v" " k WHERE a = \"1\" AND b = \"2\" OR \"3\"") = .ok (pre ++ t :: post) ∧
      t.kind = .or ∧ PassesLiterals pre 1 ∧
      parseStatement (upsertText "v" " k WHERE a = \"1\" AND b = \"2\" OR \"3\"") =
        .error (.syntaxError ⟨.notAllowed .logicalOr, t.position⟩) := by
  have hr : ∀ c ∈ " k WHERE a = \"1\" AND b = \"2\" OR \"3\"".toList.head?,
      ¬ Token.isWordChar c := by
    rintro c ⟨⟩
    decide
  have hselect : parseStatement (selectText " k WHERE a = \"1\" AND b = \"2\" OR \"3\"") =
      .ok (.select ⟨"k"⟩
        [.equality "a" (.literal "1"), .equality "b" (.group ⟨.or, ["2", "3"]⟩)]) := by
    decide +kernel
  obtain ⟨p, fs, hs, h⟩ := (upsertText_iff_selectText "v" _ hr).2.1 _ hselect
  cases hs
  rcases h with ⟨hall, -⟩ | ⟨before, f, after, c, pre, t, post, hfs, hbefore, hf, hlex, ht, hpre,
    hparse⟩
  · cases hall (.equality "b" (.group ⟨.or, ["2", "3"]⟩)) (by simp)
  · rcases before with _ | ⟨g, _ | ⟨g', before⟩⟩
    · cases hfs
      cases hf
    · cases hfs
      cases hf
      exact ⟨hr, pre, t, post, hlex, ht, hpre, hparse⟩
    · simp at hfs

end KeyspaceQuery
