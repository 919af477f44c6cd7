import KeyspaceQuery.Proofs.Calls.Parser
import KeyspaceQuery.Proofs.RoundTrip
import KeyspaceQuery.Proofs.Session

/-! What is printed for a program is a program again, with a line for each statement. Whether this
text comes as one query, as a file or line by line, the same is printed for it. -/

namespace KeyspaceQuery

open Grammar
open Text (OneLine)

section OneLine

theorem oneLine_identifier {w : String} (h : IsIdentifier w) : OneLine w :=
  not_mem_of_isIdentifier h (by decide)

theorem Path.WellFormed.oneLine {p : Path} (h : p.WellFormed) : OneLine p.text := by
  obtain ⟨ws, -, hws, hp⟩ := h
  have hdot : OneLine "." := by decide
  rw [hp]
  exact hdot.intercalate fun w hw => oneLine_identifier (hws w hw)

theorem not_mem_escape (c : Char) : '\n' ∉ Text.escape c := by
  rcases Lexeme.escape_cases c with ⟨e, he, hd⟩ | ⟨he, -, hn, -⟩
  · rw [he]
    intro hnewline
    simp only [List.mem_cons, List.not_mem_nil, or_false] at hnewline
    rcases hnewline with h | rfl
    · cases h
    · cases hd
  · rw [he]
    exact fun h => hn (List.mem_singleton.1 h).symm

theorem oneLine_quote (value : String) : OneLine (Text.quote value) := by
  rw [OneLine, Text.quote, String.toList_ofList]
  intro h
  rcases List.mem_append.1 h with h | h
  · rcases List.mem_cons.1 h with h | h
    · cases h
    · obtain ⟨c, -, hc⟩ := List.mem_flatMap.1 h
      exact not_mem_escape c hc
  · cases List.mem_singleton.1 h

theorem oneLine_operator (o : Operator) : OneLine o.text := by
  cases o <;> decide

theorem oneLine_pair (o : Operator) (first second : String) :
    OneLine (ValueGroup.render ⟨o, [first, second]⟩) := by
  rw [render_pair]
  exact ((oneLine_quote first).append (oneLine_operator o)).append (oneLine_quote second)

theorem Filter.IsReadable.oneLine {f : Filter} (h : f.IsReadable) : OneLine f.render := by
  have named {key : String} (hk : IsIdentifier key) (o : Operator) : OneLine (key ++ o.text) :=
    (oneLine_identifier hk).append (oneLine_operator o)
  cases h with
  | single h =>
    obtain ⟨value, hk⟩ := h
    exact (named hk .equality).append (oneLine_quote value)
  | either first second hk => exact (named hk .equality).append (oneLine_pair .or _ _)
  | between lower upper hk => exact (named hk .between).append (oneLine_pair .and _ _)

/-- What `SELECT`, `DELETE` and `UPSERT` have in common. -/
theorem oneLine_where {head : String} {p : Path} {fs : List Filter} (hhead : OneLine head)
    (hp : p.WellFormed) (hfs : ∀ f ∈ fs, f.IsReadable) :
    OneLine (head ++ p.text ++ " WHERE " ++ Filter.renderAll fs ++ ";") := by
  have hand : OneLine " AND " := by decide
  have hfilters : OneLine (Filter.renderAll fs) :=
    hand.intercalate (List.forall_mem_map.2 fun f hf => (hfs f hf).oneLine)
  exact (((hhead.append hp.oneLine).append (by decide)).append hfilters).append (by decide)

/-- Names have no line feed, and one in a value is written as a pair. -/
theorem Statement.WellFormed.oneLine {s : Statement} (h : s.WellFormed) : OneLine s.render := by
  cases s with
  | create p ks =>
    have hhead : OneLine "CREATE KEYSPACE " := by decide
    have hword : OneLine (Statement.keyWord ks) := by
      unfold Statement.keyWord
      split <;> decide
    have hcomma : OneLine ", " := by decide
    have hkeys : OneLine (", ".intercalate ks) :=
      hcomma.intercalate fun k hk => oneLine_identifier (h.2.2 k hk)
    have hwith : OneLine ("CREATE KEYSPACE " ++ p.text ++ " WITH ") :=
      (hhead.append h.1.oneLine).append (by decide)
    exact (((hwith.append hword).append (by decide)).append hkeys).append (by decide)
  | drop p =>
    have hhead : OneLine "DROP KEYSPACE " := by decide
    exact (hhead.append (Path.WellFormed.oneLine h)).append (by decide)
  | select p fs =>
    have hhead : OneLine "SELECT FROM " := by decide
    exact oneLine_where hhead h.1 h.2.2
  | upsert v p fs =>
    have hhead : OneLine "UPSERT " := by decide
    have hinto : OneLine ("UPSERT " ++ Text.quote v ++ " INTO ") :=
      (hhead.append (oneLine_quote v)).append (by decide)
    exact oneLine_where hinto h.1 fun f hf => .single (h.2.2 f hf)
  | delete p fs =>
    have hhead : OneLine "DELETE FROM " := by decide
    exact oneLine_where hhead h.1 h.2.2

end OneLine

section ReadBack

variable {ss : List Statement}

namespace Lexeme

/-- What stands between two statements. -/
def newline : Lexeme := ⟨.whitespace, "\n"⟩

theorem spelled_newline : newline.Spelled :=
  ⟨'\n', [], rfl, by decide, List.forall_mem_nil _⟩

/-- Whether lexemes are apart is told by their kinds. -/
def KindsApart (k k' : TokenKind) : Prop :=
  ¬ (k.isWord ∧ k'.isWord) ∧ ¬ (k = .whitespace ∧ k' = .whitespace)

theorem isChain_map_kind {ls : List Lexeme} :
    (ls.map kind).IsChain KindsApart ↔ ls.IsChain Apart := List.isChain_map kind

theorem isChain_apart_congr {ls ms : List Lexeme} (h : ls.map kind = ms.map kind) :
    ls.IsChain Apart ↔ ms.IsChain Apart := by
  rw [← isChain_map_kind, h, isChain_map_kind]

theorem Tight.between_newlines {ls : List Lexeme} (h : Tight ls) :
    (newline :: (ls ++ [newline])).IsChain Apart :=
  (isChain_apart_congr (by simp [newline, space])).2 h

end Lexeme

open Lexeme (newline)

/-- A statement stands in front of those that are written behind it. -/
theorem Statement.WellFormed.writes {s : Statement} (h : s.WellFormed) :
    Writes s.render fun ls rest => ∀ ss, Sequence ss rest → Sequence (s :: ss) ls :=
  (writes_body h).mono fun _ _ ⟨_, hb, hm⟩ _ hss => .cons hb hm hss

theorem parseProgram_render {s : Statement} (h : s.WellFormed) :
    parseProgram s.render = .ok (.statements [s]) := by
  obtain ⟨ls, hs, ht, hl, hP⟩ := h.writes
  rw [parseProgram_eq_ok_iff, ← hl, lexemes_spelling hs ht.isChain]
  exact ⟨[s], hP [.eof] (by simp [Lexeme.eof]) [] (.nil ⟨"", .here⟩), rfl⟩

/-- The lexemes of statements written line by line. -/
theorem exists_lexemes_unlines (h : ∀ s ∈ ss, s.WellFormed) : ∃ ls, (∀ l ∈ ls, l.Spelled) ∧
    (newline :: ls).IsChain Lexeme.Apart ∧
    ls.flatMap Lexeme.spelling = (Text.unlines (ss.map Statement.render)).toList ∧
    Sequence ss (ls ++ [.eof]) := by
  -- the line feed stands in front so that another statement can be put before it
  induction ss with
  | nil => exact ⟨[], List.forall_mem_nil _, .singleton _, rfl, .nil ⟨"", .here⟩⟩
  | cons s ss ih =>
    obtain ⟨hs, hss⟩ := List.forall_mem_cons.1 h
    obtain ⟨ms, hms, hchain, htext, hsequence⟩ := ih hss
    obtain ⟨ls, hls, ht, hl, hP⟩ := hs.writes
    refine ⟨ls ++ newline :: ms, ?_, ?_, ?_, ?_⟩
    · simpa [or_imp, forall_and, Lexeme.spelled_newline] using ⟨hls, hms⟩
    · have hsplit : (newline :: ls ++ newline :: ms).IsChain Lexeme.Apart :=
        List.isChain_split.2 ⟨ht.between_newlines, hchain⟩
      exact hsplit
    · simp [hl, htext, Text.unlines, Lexeme.spelling, newline]
    · rw [List.append_assoc]
      refine hP _ ?_ ss (hsequence.blank rfl)
      intro l hl
      obtain rfl := Option.some.inj hl
      decide

theorem parseProgram_unlines (h : ∀ s ∈ ss, s.WellFormed) :
    parseProgram (Text.unlines (ss.map Statement.render)) = .ok (.ofList ss) := by
  obtain ⟨ls, hs, hchain, hl, hss⟩ := exists_lexemes_unlines h
  rw [parseProgram_eq_ok_iff, ← hl, lexemes_spelling hs hchain.tail]
  exact ⟨ss, hss, rfl⟩

theorem wellFormed_of_parseProgram {text : String} (h : parseProgram text = .ok (.statements ss)) :
    ss ≠ [] ∧ ∀ s ∈ ss, s.WellFormed := by
  obtain ⟨read, hread, hp⟩ := parseProgram_eq_ok_iff.1 h
  obtain rfl : read = ss := by rw [← Program.toList_ofList read, ← hp, Program.toList]
  refine ⟨?_, (sound_lexemes _).sequence hread⟩
  rintro rfl
  exact Program.ofList_ne_statements_nil [] hp.symm

end ReadBack

section Print

variable {ss : List Statement}

theorem evaluate_of_parse {text : String} (h : parseProgram text = .ok (.statements ss))
    (hne : ss ≠ []) (draw : Drawer) :
    evaluate draw false text = .ok ⟨ss.map Statement.render, true⟩ := by
  have hreport : Program.report draw false (.statements ss) = ss.map Statement.render := by
    cases ss with
    | nil => exact absurd rfl hne
    | cons s ss => exact List.map_eq_flatMap.symm
  simp only [evaluate, h, hreport]

namespace CommandLine

/-- The text is printed for the query and for a file of it, and nothing is wrong with it. -/
def Prints (query text : String) : Prop :=
  ∀ draw files input,
    (Request.evaluate query false).outcome draw files input = ⟨0, text, ""⟩ ∧
      ∀ path, files path = .ok (Text.encode query) →
        (Request.evaluateFile path false).outcome draw files input = ⟨0, text, ""⟩

theorem prints_of_evaluate {query : String} {entries : List String}
    (h : ∀ draw, evaluate draw false query = .ok ⟨entries, true⟩) :
    Prints query (Text.unlines entries) := by
  intro draw files input
  refine ⟨?_, fun path hfile => ?_⟩
  · rw [Request.outcome, h]
    rfl
  · have htext : fileText (files path) = .ok query := by
      rw [fileText, hfile]
      simp only [bind, Except.bind, Text.decode?_encode]
      rfl
    simp only [Request.outcome, htext, h]
    rfl

end CommandLine

end Print

theorem Text.trimChars_append {cs bs : List Char} (hfirst : ∀ c ∈ cs.head?, ¬ isWhiteSpace c)
    (hlast : ∀ c ∈ cs.getLast?, ¬ isWhiteSpace c) (hne : cs ≠ [])
    (hbs : ∀ b ∈ bs, isWhiteSpace b) : trimChars (cs ++ bs) = cs := by
  obtain ⟨c, cs, rfl⟩ := List.exists_cons_of_ne_nil hne
  rw [trimChars, List.cons_append, List.dropWhile_cons_of_neg (hfirst c rfl), ← List.cons_append,
    List.reverse_append, Lexeme.dropWhile_run (by simpa using hbs)
      (by rwa [List.head?_reverse]), List.reverse_reverse]

namespace Session

variable {s : Statement} {ss : List Statement}

theorem head?_render (s : Statement) :
    ∃ c ∈ ['C', 'D', 'S', 'U'], s.render.toList.head? = some c := by
  unfold Statement.render
  cases s with
  | create => exact ⟨'C', by decide, by simp⟩
  | drop => exact ⟨'D', by decide, by simp⟩
  | select => exact ⟨'S', by decide, by simp⟩
  | upsert => exact ⟨'U', by decide, by simp⟩
  | delete => exact ⟨'D', by decide, by simp⟩

theorem getLast?_render (s : Statement) : s.render.toList.getLast? = some ';' := by
  have h : ∃ text, s.render = text ++ ";" := by
    cases s <;> exact ⟨_, rfl⟩
  obtain ⟨text, htext⟩ := h
  rw [htext, String.toList_append]
  exact List.getLast?_concat

theorem head_render {c : Char} (h : c ∈ s.render.toList.head?) :
    ¬ Text.isWhiteSpace c ∧ c ≠ '.' := by
  obtain ⟨d, hd, hhead⟩ := head?_render s
  obtain rfl := Option.some.inj (hhead.symm.trans h)
  simp only [List.mem_cons, List.not_mem_nil, or_false] at hd
  rcases hd with rfl | rfl | rfl | rfl <;> decide

theorem render_ne_nil (s : Statement) : s.render.toList ≠ [] := by
  obtain ⟨c, -, hhead⟩ := head?_render s
  intro h
  rw [h] at hhead
  cases hhead

/-- A statement typed on a line of its own is what is left of the line. -/
theorem trim_render (s : Statement) : Text.trim (s.render ++ "\n") = s.render := by
  have hlast : ∀ c ∈ s.render.toList.getLast?, ¬ Text.isWhiteSpace c := by
    rw [getLast?_render]
    rintro c ⟨⟩
    decide
  have hnewline : ∀ b ∈ "\n".toList, Text.isWhiteSpace b :=
    List.forall_mem_singleton.2 (by decide)
  rw [Text.trim, String.toList_append, Text.trimChars_append (fun c hc => (head_render hc).1) hlast
    (render_ne_nil s) hnewline, String.ofList_toList]

theorem head?_trim_render (s : Statement) :
    (Text.trim (s.render ++ "\n")).toList.head? ≠ some '.' := by
  rw [trim_render]
  exact fun hdot => (head_render hdot).2 rfl

theorem not_isToggle_render (s : Statement) : ¬ isToggle (s.render ++ "\n") :=
  fun h => head?_trim_render s (head?_of_isToggle h)

theorem goesOn_render (s : Statement) :
    GoesOn (Text.encode (s.render ++ "\n")) (s.render ++ "\n") :=
  ⟨Text.decode?_encode _, fun h => head?_trim_render s (head?_of_isExit h)⟩

variable (draw : Drawer) (files : String → Except FileError (List UInt8))

theorem answer_render (h : s.WellFormed) :
    answer draw files false (s.render ++ "\n") = s.render ++ "\n" := by
  have hne : Text.trim (s.render ++ "\n") ≠ "" := by
    rw [trim_render]
    exact fun hempty => render_ne_nil s (hempty ▸ rfl)
  have hhelp : ¬ IsHelp (s.render ++ "\n") := fun h => head?_trim_render s (head?_of_isHelp h)
  have heval := evaluate_of_parse (parseProgram_render h) (List.cons_ne_nil s []) draw
  rw [answer, if_neg hne, if_neg hhelp, if_neg (not_isToggle_render s),
    if_neg (head?_trim_render s), trim_render, CommandLine.printed_eq heval]
  exact String.append_empty

theorem answers_render (h : ∀ s ∈ ss, s.WellFormed) :
    answers draw files false (ss.map fun s => s.render ++ "\n") =
      String.join (ss.map fun s => "> " ++ s.render ++ "\n") := by
  induction ss with
  | nil => rfl
  | cons s ss ih =>
    obtain ⟨hs, hss⟩ := List.forall_mem_cons.1 h
    rw [List.map_cons, List.map_cons, answers_cons, if_neg (not_isToggle_render s),
      answer_render draw files hs, ih hss, String.join_cons]
    simp only [String.append_assoc]

/-- Each line of the text is answered with itself. -/
theorem converse_encode_unlines (h : ∀ s ∈ ss, s.WellFormed) :
    (CommandLine.Request.converse false).outcome draw files
        (Text.encode (Text.unlines (ss.map Statement.render))) =
      ⟨0, "keyql\n" ++ String.join (ss.map fun s => "> " ++ s.render ++ "\n") ++ "> Goodbye.\n",
        ""⟩ := by
  have hcut : Text.Cut (Text.encode (Text.unlines (ss.map Statement.render)))
      (((ss.map Statement.render).map fun line => Text.encode (line ++ "\n")) ++ []) := by
    rw [List.append_nil]
    exact Text.cut_unlines (List.forall_mem_map.2 fun s hs => (h s hs).oneLine)
  have hgoesOn : List.Forall₂ GoesOn
      ((ss.map Statement.render).map fun line => Text.encode (line ++ "\n"))
      (ss.map fun s => s.render ++ "\n") := by
    rw [List.forall₂_map_left_iff, List.forall₂_map_left_iff, List.forall₂_map_right_iff,
      List.forall₂_same]
    exact fun s _ => goesOn_render s
  have hrun := run_of_stops draw files false hcut hgoesOn .endOfInput
  rw [answers_render draw files h] at hrun
  exact hrun

end Session

/-- What is printed for statements is one line for each of them, and a text of just these
statements: the same is printed for it again, as a query, as a file and line by line. -/
theorem output_is_canonical {text : String} {ss : List Statement}
    (h : parseProgram text = .ok (.statements ss)) :
    ∃ output, CommandLine.Prints text output ∧
      output = String.join (ss.map fun s => s.render ++ "\n") ∧
      (∀ s ∈ ss, '\n' ∉ s.render.toList) ∧
      parseProgram output = .ok (.statements ss) ∧ CommandLine.Prints output output ∧
      ∀ draw files, (CommandLine.Request.converse false).outcome draw files (Text.encode output) =
        ⟨0, "keyql\n" ++ String.join (ss.map fun s => "> " ++ s.render ++ "\n") ++
          "> Goodbye.\n", ""⟩ := by
  obtain ⟨hne, hwf⟩ := wellFormed_of_parseProgram h
  have hparse : parseProgram (Text.unlines (ss.map Statement.render)) = .ok (.statements ss) := by
    rw [parseProgram_unlines hwf]
    obtain ⟨s, ss, rfl⟩ := List.exists_cons_of_ne_nil hne
    rfl
  have hlines : Text.unlines (ss.map Statement.render) =
      String.join (ss.map fun s => s.render ++ "\n") := by
    rw [Text.unlines_eq_join, List.map_map]
    rfl
  exact ⟨_, CommandLine.prints_of_evaluate (evaluate_of_parse h hne), hlines,
    fun s hs => (hwf s hs).oneLine, hparse,
    CommandLine.prints_of_evaluate (evaluate_of_parse hparse hne),
    fun draw files => Session.converse_encode_unlines draw files hwf⟩

/-- A `DROP` comes with its semicolon, and a line feed in a value with its pair. -/
theorem output_is_canonical_drop_upsert :
    parseProgram "DROP KEYSPACE a\n;UPSERT \"x\\ny\" INTO b.c WHERE k=\"1\"" =
        .ok (.statements [.drop ⟨"a"⟩, .upsert "x\ny" ⟨"b.c"⟩ [.equality "k" (.literal "1")]]) ∧
      CommandLine.Prints "DROP KEYSPACE a\n;UPSERT \"x\\ny\" INTO b.c WHERE k=\"1\""
        "DROP KEYSPACE a;\nUPSERT \"x\\ny\" INTO b.c WHERE k = \"1\";\n" ∧
      CommandLine.Prints "DROP KEYSPACE a;\nUPSERT \"x\\ny\" INTO b.c WHERE k = \"1\";\n"
        "DROP KEYSPACE a;\nUPSERT \"x\\ny\" INTO b.c WHERE k = \"1\";\n" := by
  have h : parseProgram "DROP KEYSPACE a\n;UPSERT \"x\\ny\" INTO b.c WHERE k=\"1\"" =
      .ok (.statements [.drop ⟨"a"⟩, .upsert "x\ny" ⟨"b.c"⟩ [.equality "k" (.literal "1")]]) := by
    decide +kernel
  obtain ⟨output, hprints, rfl, -, -, hagain, -⟩ := output_is_canonical h
  exact ⟨h, hprints, hagain⟩

end KeyspaceQuery
