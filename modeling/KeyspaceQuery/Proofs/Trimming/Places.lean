import KeyspaceQuery.Proofs.Trimming.Framed

/-! Where a conversation says that an error is. A line is parsed without the white space at its
ends, so an error is placed as if the line began with its first other character and ended with its
last one. -/

namespace KeyspaceQuery

open Text (OneLine isWhiteSpace)
open Token (isBlank)

theorem Text.trimChars_append_whiteSpace {cs bs : List Char} (hbs : ∀ b ∈ bs, isWhiteSpace b) :
    trimChars (cs ++ bs) = trimChars cs := by
  rw [trimChars, trimChars, List.dropWhile_append]
  split
  · rename_i h
    rw [List.dropWhile_eq_nil_iff.2 hbs, List.isEmpty_iff.1 h]
  · rw [List.reverse_append, List.dropWhile_append_of_pos (by simpa using hbs)]

/-- A line that is not blank is what is left of it, framed by what is stripped. -/
theorem framed_trim {line : String} (hline : OneLine line) (hne : Text.trim line ≠ "") :
    Framed line (line.toList.takeWhile isWhiteSpace) (Text.trim line)
      (line.toList.rtakeWhile isWhiteSpace) := by
  obtain ⟨front, back, hsplit, rfl, hsubset⟩ := Text.exists_trim line
  have hne' : (Text.trim line).toList ≠ [] := fun hnil => hne (String.toList_eq_nil_iff.1 hnil)
  have hwhite : ∀ c ∈ back, isWhiteSpace c := fun c hc => List.mem_rtakeWhile_imp (hsubset hc)
  have hlast := Text.getLast?_trim line
  have hback : line.toList.rtakeWhile isWhiteSpace = back := by
    rw [hsplit, ← List.append_assoc, List.rtakeWhile, List.reverse_append,
      Lexeme.takeWhile_run (by simpa using hwhite), List.reverse_reverse]
    rwa [List.head?_reverse, List.getLast?_append_of_ne_nil _ hne']
  have hrest : line.toList.dropWhile isWhiteSpace = (Text.trim line).toList ++ back :=
    List.append_cancel_left (List.takeWhile_append_dropWhile.trans hsplit)
  rw [hback]
  refine ⟨hsplit, hline, fun _ => List.mem_takeWhile_imp, hwhite, fun c hc => ?_, hlast, hne⟩
  refine Lexeme.not_head_dropWhile isWhiteSpace line.toList c ?_
  rw [hrest, List.head?_append_of_ne_nil _ hne']
  exact hc

namespace Session

variable {line ending : String} {draw : Drawer} {showFilters : Bool} {p : Position}
  {e : SyntaxError}

/-- The line is answered with a syntax error, and this is the place that the answer names. -/
def RefusesAt (draw : Drawer) (showFilters : Bool) (line : String) (p : Position) : Prop :=
  ∃ cause, reply draw showFilters (Text.encode line) =
    .more ("Syntax Error: " ++ cause ++ " at " ++ p.message ++ "\n") showFilters

theorem trim_append (h : ending ∈ ["", "\n", "\r\n"]) :
    Text.trim (line ++ ending) = Text.trim line := by
  have hending : ∀ c ∈ ending.toList, isWhiteSpace c := by
    simp only [List.mem_cons, List.not_mem_nil, or_false] at h
    rcases h with rfl | rfl | rfl
    · exact List.forall_mem_nil _
    · exact List.forall_mem_singleton.2 (by decide)
    · exact List.forall_mem_cons.2 ⟨by decide, List.forall_mem_singleton.2 (by decide)⟩
  rw [Text.trim, String.toList_append, Text.trimChars_append_whiteSpace hending]
  rfl

theorem getElem?_render_one (s : Statement) :
    ∃ c ∈ ['R', 'E', 'P'], s.render.toList[1]? = some c := by
  unfold Statement.render
  cases s with
  | create | drop => exact ⟨'R', by decide, by simp⟩
  | select | delete => exact ⟨'E', by decide, by simp⟩
  | upsert => exact ⟨'P', by decide, by simp⟩

/-- The second letter of what is printed for a program. -/
theorem exists_second_of_report (draw : Drawer) (showFilters : Bool) (q : Program) :
    ∃ line rest, q.report draw showFilters = line :: rest ∧
      ∃ c ∈ ['R', 'E', 'P', 'o'], line.toList[1]? = some c := by
  have hempty : ∃ line rest, ["No statements"] = line :: rest ∧
      ∃ c ∈ ['R', 'E', 'P', 'o'], line.toList[1]? = some c :=
    ⟨_, _, rfl, 'o', by decide, by decide⟩
  unfold Program.report
  cases q.toList with
  | nil => exact hempty
  | cons s ss =>
    obtain ⟨c, hc, hsecond⟩ := getElem?_render_one s
    exact ⟨_, _, rfl, c, List.mem_append_left ['o'] hc, hsecond⟩

/-- What is printed for a program does not begin like an error. -/
theorem report_ne_error (draw : Drawer) (showFilters : Bool) (q : Program) (b : Bool)
    (s : String) : (⟨q.report draw showFilters, b⟩ : Report).text ≠ "Syntax Error: " ++ s := by
  intro htext
  obtain ⟨line, rest, hreport, c, hc, hsecond⟩ := exists_second_of_report draw showFilters q
  rw [hreport, Report.text, Text.unlines] at htext
  have hchars := congrArg (·.toList[1]?) htext
  simp only [String.toList_append, List.append_assoc] at hchars
  rw [List.getElem?_append_left (List.getElem?_eq_some_iff.1 hsecond).1, hsecond] at hchars
  obtain rfl : c = 'y' := by simpa using hchars
  revert hc
  decide

theorem reply_of_query (hne : Text.trim line ≠ "")
    (hdot : (Text.trim line).toList.head? ≠ some '.') :
    reply draw showFilters (Text.encode line) =
      respond draw showFilters (.evaluate (Text.trim line)) := by
  rw [reply, Text.decode?_encode]
  rcases ofLine_cases line with ⟨hempty, -⟩ | ⟨hhead, -⟩ | ⟨-, -, hline⟩
  · exact absurd hempty hne
  · exact absurd hhead hdot
  · simp only [hline]

theorem reply_of_error (hne : Text.trim line ≠ "")
    (hdot : (Text.trim line).toList.head? ≠ some '.')
    (he : parseProgram (Text.trim line) = .error (.syntaxError e)) :
    reply draw showFilters (Text.encode line) =
      .more ("Syntax Error: " ++ e.message ++ "\n") showFilters := by
  have hevaluate : KeyspaceQuery.evaluate draw showFilters (Text.trim line) =
      .ok ⟨["Syntax Error: " ++ e.message], false⟩ := by
    rw [KeyspaceQuery.evaluate, he]
  rw [reply_of_query hne hdot, respond, hevaluate]
  exact congrArg (Reply.more · showFilters) String.append_empty

/-- The place that is named is that of the error of the stripped line. -/
theorem refusesAt_iff (hne : Text.trim line ≠ "")
    (hdot : (Text.trim line).toList.head? ≠ some '.') :
    RefusesAt draw showFilters line p ↔
      ∃ e, parseProgram (Text.trim line) = .error (.syntaxError e) ∧ e.position = p := by
  constructor
  · rintro ⟨cause, hreply⟩
    cases hp : parseProgram (Text.trim line) with
    | ok q =>
      have hevaluate : KeyspaceQuery.evaluate draw showFilters (Text.trim line) =
          .ok ⟨q.report draw showFilters, true⟩ := by
        rw [KeyspaceQuery.evaluate, hp]
      rw [reply_of_query hne hdot, respond, hevaluate] at hreply
      simp only [Reply.more.injEq, and_true] at hreply
      rw [String.append_assoc, String.append_assoc, String.append_assoc] at hreply
      exact absurd hreply (report_ne_error draw showFilters q true _)
    | error f =>
      obtain ⟨e, rfl⟩ := exists_syntaxError_of_parseProgram hp
      rw [reply_of_error hne hdot hp, Reply.more.injEq] at hreply
      have hmessage := hreply.1
      rw [String.append_left_inj, String.append_assoc, String.append_assoc, String.append_right_inj,
        ← String.append_assoc] at hmessage
      exact ⟨_, rfl, (Position.append_message_inj hmessage).2⟩
  · rintro ⟨e, he, rfl⟩
    refine ⟨e.cause.message, ?_⟩
    rw [reply_of_error hne hdot he, SyntaxError.message]
    simp only [String.append_assoc]

end Session

/-- An error that a conversation answers a line with is that of the line without the white space at
its ends, whatever ends the line, and its place is counted from there. The line as it was typed is
refused too: in front, at the first white space that is no blank, or if there is none, where the
stripped line is, as many columns further right as there are blanks, and one less if a quote is
behind them. Only an error at the end of the input is another one in a line that has white space at
its end: it is at the first of it that is no blank, or at the end of the line. Behind a dot it stays
where it was. -/
theorem session_places_errors_in_stripped_line {line ending : String} (hline : OneLine line)
    (hending : ending ∈ ["", "\n", "\r\n"]) (hne : Text.trim line ≠ "")
    (hdot : (Text.trim line).toList.head? ≠ some '.') {draw : Drawer} {showFilters : Bool}
    {p : Position} (h : Session.RefusesAt draw showFilters (line ++ ending) p) :
    let front := line.toList.takeWhile isWhiteSpace
    let back := line.toList.rtakeWhile isWhiteSpace
    let text := Text.trim line
    ∃ e f, parseProgram text = .error (.syntaxError e) ∧ e.position = p ∧
      parseProgram line = .error (.syntaxError f) ∧
      ((¬ ∀ c ∈ front, isBlank c) → f.position = ⟨0, Text.pastBlanks front⟩) ∧
      ((∀ c ∈ front, isBlank c) →
        (back = [] ∨ ¬ e.FoundEnd ∨ text.toList.getLast? = some '.' →
          f.position = ⟨p.line, p.column + Text.indent text front.length⟩) ∧
        (back ≠ [] → e.FoundEnd → text.toList.getLast? ≠ some '.' →
          f.position = ⟨0, front.length + text.toList.length + Text.pastBlanks back⟩)) := by
  have htrim : Text.trim (line ++ ending) = Text.trim line := Session.trim_append hending
  rw [Session.refusesAt_iff (htrim ▸ hne) (htrim ▸ hdot), htrim] at h
  obtain ⟨e, he, rfl⟩ := h
  have hframed := framed_trim hline hne
  by_cases hblank : ∀ c ∈ line.toList.takeWhile isWhiteSpace, isBlank c
  · obtain ⟨f, hf, hsame, hend⟩ := hframed.exists_error hblank he
    exact ⟨e, f, he, rfl, hf, fun hother => absurd hblank hother, fun _ => ⟨hsame, hend⟩⟩
  · obtain ⟨f, hf, hposition⟩ := hframed.exists_error_in_front hblank
    exact ⟨e, f, he, rfl, hf, fun _ => hposition, fun hall => absurd hall hblank⟩

-- Two blanks behind it move the end of the input, but not the place that is named for it.
example : Session.RefusesAt Table.text false ("DROP  " ++ "\n") ⟨0, 5⟩ ∧ parseProgram "DROP  " =
    .error (.syntaxError ⟨.unexpected "EOF" ["KEYSPACE"], ⟨0, 7⟩⟩) :=
  ⟨⟨"found EOF, expected KEYSPACE", by decide +kernel⟩, by decide +kernel⟩

/-- Two blanks in front of a line are not counted in the place that is named for its error. -/
theorem session_misplaces_error_behind_blanks :
    ¬ ∀ (draw : Drawer) (line : String) (showFilters : Bool) (p : Position), OneLine line →
      Text.trim line ≠ "" → (Text.trim line).toList.head? ≠ some '.' →
      Session.RefusesAt draw showFilters (line ++ "\n") p →
        ∃ f, parseProgram line = .error (.syntaxError f) ∧ f.position = p := by
  intro h
  have hrefuses : Session.RefusesAt Table.text false ("  DROP x" ++ "\n") ⟨0, 5⟩ :=
    ⟨"found IDENTIFIER (x), expected KEYSPACE", by decide +kernel⟩
  obtain ⟨f, hf, hposition⟩ :=
    h Table.text "  DROP x" false ⟨0, 5⟩ (by decide) (by decide) (by decide) hrefuses
  have htyped : parseProgram "  DROP x" =
      .error (.syntaxError ⟨.unexpected "IDENTIFIER (x)" ["KEYSPACE"], ⟨0, 7⟩⟩) := by
    decide +kernel
  cases htyped.symm.trans hf
  cases hposition

/-- A tab and a blank in front are not counted, and two blanks behind matter to no error but one at
the end. -/
theorem session_places_error_behind_tab : ∃ f,
    parseProgram "\t DROP x  " = .error (.syntaxError f) ∧ f.position = ⟨0, 7⟩ ∧
      Session.RefusesAt Table.text false ("\t DROP x  " ++ "\n") ⟨0, 5⟩ := by
  have hrefuses : Session.RefusesAt Table.text false ("\t DROP x  " ++ "\n") ⟨0, 5⟩ :=
    ⟨"found IDENTIFIER (x), expected KEYSPACE", by decide +kernel⟩
  have hline : OneLine "\t DROP x  " := by decide
  obtain ⟨e, f, he, -, hf, -, hplace⟩ := session_places_errors_in_stripped_line hline (by decide)
    (by decide) (by decide) hrefuses
  have hnotEnd : ¬ e.FoundEnd := by
    have htrim : parseProgram (Text.trim "\t DROP x  ") =
        .error (.syntaxError ⟨.unexpected "IDENTIFIER (x)" ["KEYSPACE"], ⟨0, 5⟩⟩) := by
      decide +kernel
    cases htrim.symm.trans he
    rintro ⟨expected, hcause⟩
    exact absurd (SyntaxError.Cause.unexpected.inj hcause).1 (by decide)
  have hfront : "\t DROP x  ".toList.takeWhile isWhiteSpace = ['\t', ' '] := by decide
  rw [hfront] at hplace
  have hblank : ∀ c ∈ ['\t', ' '], isBlank c :=
    List.forall_mem_cons.2 ⟨by decide, List.forall_mem_singleton.2 (by decide)⟩
  exact ⟨f, hf, (hplace hblank).1 (.inr (.inl hnotEnd)), hrefuses⟩

end KeyspaceQuery
