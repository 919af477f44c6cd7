import KeyspaceQuery.Proofs.Canonical
import KeyspaceQuery.Proofs.Errors.Message
import KeyspaceQuery.Proofs.Table

/-! What the tables of filters do to a report. A report is read as parts: a line that is not drawn,
and the drawn lines directly behind it. What is said without tables is what is not drawn, and the
drawn lines of a part are the table of the statement that the part begins with. -/

namespace KeyspaceQuery

open Table (isDrawn)
open Text (OneLine)

namespace Report

/-- The drawn lines that come first, and then each other line with the drawn lines behind it. -/
def parts : List String → List String × List (String × List String)
  | [] => ([], [])
  | line :: rest =>
    let (drawn, later) := parts rest
    if isDrawn line then (line :: drawn, later) else ([], (line, drawn) :: later)

structure IsPart (part : String × List String) : Prop where
  plain : ¬ isDrawn part.1
  drawn : ∀ line ∈ part.2, isDrawn line
  oneLine : ∀ line ∈ part.1 :: part.2, OneLine line

variable {ps : List (String × List String)}

theorem parts_append {drawn : List String} (h : ∀ line ∈ drawn, isDrawn line)
    (rest : List String) : parts (drawn ++ rest) = (drawn ++ (parts rest).1, (parts rest).2) := by
  induction drawn with
  | nil => rfl
  | cons line drawn ih =>
    obtain ⟨hline, hdrawn⟩ := List.forall_mem_cons.1 h
    rw [List.cons_append, parts, ih hdrawn]
    exact if_pos hline

/-- The parts that a report is put together from are found in it. -/
theorem parts_flatMap (h : ∀ part ∈ ps, IsPart part) :
    parts (ps.flatMap fun part => part.1 :: part.2) = ([], ps) := by
  induction ps with
  | nil => rfl
  | cons part ps ih =>
    obtain ⟨hpart, hps⟩ := List.forall_mem_cons.1 h
    rw [List.flatMap_cons, List.cons_append, parts, parts_append hpart.drawn, ih hps,
      List.append_nil]
    exact if_neg hpart.plain

theorem filter_flatMap (h : ∀ part ∈ ps, IsPart part) :
    ((ps.flatMap fun part => part.1 :: part.2).filter fun line => !isDrawn line) =
      ps.map Prod.fst := by
  induction ps with
  | nil => rfl
  | cons part ps ih =>
    obtain ⟨hpart, hps⟩ := List.forall_mem_cons.1 h
    have hdrawn : (part.2.filter fun line => !isDrawn line) = [] :=
      List.filter_eq_nil_iff.2 fun line hline => by simp [hpart.drawn line hline]
    rw [List.flatMap_cons, List.cons_append, List.filter_cons_of_pos (by simpa using hpart.plain),
      List.filter_append, hdrawn, ih hps]
    rfl

/-- The lines of a report that consists of the parts, and what another one says that has their
first lines only. -/
theorem reads_of_parts (on off : Report) (h : ∀ part ∈ ps, IsPart part)
    (hon : on.text = Text.unlines (ps.flatMap fun part => part.1 :: part.2))
    (hoff : off.text = Text.unlines (ps.map Prod.fst)) :
    ∃ lines, Text.Cut (Text.encode on.text) (lines.map fun line => Text.encode (line ++ "\n")) ∧
      String.join ((lines.filter fun line => !isDrawn line).map (· ++ "\n")) = off.text ∧
      parts lines = ([], ps) := by
  refine ⟨ps.flatMap fun part => part.1 :: part.2, ?_, ?_, parts_flatMap h⟩
  · rw [hon]
    refine Text.cut_unlines fun line hline => ?_
    obtain ⟨part, hpart, hline⟩ := List.mem_flatMap.1 hline
    exact (h part hpart).oneLine line hline
  · rw [filter_flatMap h, hoff, Text.unlines_eq_join]

/-- A report of one line that is not drawn has no drawn lines. -/
theorem isPart_of_mem_singleton {line : String} (hplain : ¬ isDrawn line) (h : OneLine line) :
    ∀ part ∈ [(line, ([] : List String))], IsPart part :=
  List.forall_mem_singleton.2 ⟨hplain, List.forall_mem_nil _, List.forall_mem_singleton.2 h⟩

/-- The same with a report of one line that is not drawn. -/
theorem reads_of_line {line : String} (hplain : ¬ isDrawn line) (h : OneLine line) (r : Report)
    (hr : r.entries = [line]) :
    ∃ lines, Text.Cut (Text.encode r.text) (lines.map fun line => Text.encode (line ++ "\n")) ∧
      String.join ((lines.filter fun line => !isDrawn line).map (· ++ "\n")) = r.text ∧
      parts lines = ([], [(line, [])]) :=
  reads_of_parts r r (isPart_of_mem_singleton hplain h) (congrArg Text.unlines hr)
    (congrArg Text.unlines hr)

end Report

/-- What a filter has in the columns of a table: its key, its operator and its values. -/
inductive Filter.Cells : Filter → List String → Prop
  | literal (k v : String) : Cells (.equality k (.literal v)) [k, "=", v]
  | either (k v u : String) : Cells (.equality k (.group ⟨.or, [v, u]⟩)) [k, "=", v ++ ", " ++ u]
  | between (k v u : String) : Cells (.between k ⟨.and, [v, u]⟩) [k, "BETWEEN", v ++ ", " ++ u]

theorem Filter.IsReadable.cells_row {f : Filter} (h : f.IsReadable) : f.Cells f.row := by
  have one (v : String) : ", ".intercalate [v] = v := String.intercalate_singleton
  have two (v u : String) : ", ".intercalate [v, u] = v ++ ", " ++ u := by
    rw [String.intercalate_cons_of_ne_nil (List.cons_ne_nil u []), one]
  cases h with
  | single h =>
    obtain ⟨v, -⟩ := h
    rw [row, values, Comparand.values, one]
    exact .literal _ v
  | either v u =>
    rw [row, values, Comparand.values, two]
    exact .either _ v u
  | between v u =>
    rw [row, values, two]
    exact .between _ v u

theorem Filter.cells_rows {fs : List Filter} (h : ∀ f ∈ fs, f.IsReadable) :
    List.Forall₂ Cells fs (fs.map row) := by
  rw [List.forall₂_map_right_iff, List.forall₂_same]
  exact fun f hf => (h f hf).cells_row

theorem Filter.length_of_cells {fs : List Filter} {rows : List (List String)}
    (h : List.Forall₂ Cells fs rows) : ∀ row ∈ rows, row.length = 3 := by
  induction h with
  | nil => exact List.forall_mem_nil _
  | cons hf _ ih =>
    refine List.forall_mem_cons.2 ⟨?_, ih⟩
    cases hf <;> rfl

namespace Statement

/-- The statements that have filters. -/
def isFiltered : Statement → Bool
  | select _ _ | upsert _ _ _ | delete _ _ => true
  | create _ _ | drop _ => false

/-- What a report has of a statement: its rendering, and directly behind it the table of its
filters, a row for each of them, if the statement has some. -/
structure Reported (draw : Drawer) (s : Statement) (part : String × List String) : Prop where
  rendering : part.1 = s.render
  table : match s with
    | .create _ _ | .drop _ => part.2 = []
    | .select _ fs | .upsert _ _ fs | .delete _ fs =>
      ∃ rows, List.Forall₂ Filter.Cells fs rows ∧
        part.2 = Text.splitLines (draw (["attribute", "operator", "values"] :: rows))

variable {draw : Drawer} {s : Statement} {ss : List Statement} {part : String × List String}

theorem not_isDrawn_render (s : Statement) : ¬ isDrawn s.render := by
  obtain ⟨c, hc, hhead⟩ := Session.head?_render s
  rw [isDrawn, hhead]
  simp only [List.mem_cons, List.not_mem_nil, or_false] at hc
  rcases hc with rfl | rfl | rfl | rfl <;> decide

theorem Reported.cases (h : s.Reported draw part) :
    ¬ s.isFiltered ∧ part.2 = [] ∨
      s.isFiltered ∧ ∃ fs rows, List.Forall₂ Filter.Cells fs rows ∧
        part.2 = Text.splitLines (draw (["attribute", "operator", "values"] :: rows)) := by
  have htable := h.table
  cases s with
  | create | drop => exact .inl ⟨nofun, htable⟩
  | select _ fs | upsert _ _ fs | delete _ fs => exact .inr ⟨rfl, fs, htable⟩

theorem Reported.ne_nil_iff (h : s.Reported draw part) : part.2 ≠ [] ↔ s.isFiltered := by
  rcases h.cases with ⟨hs, hpart⟩ | ⟨hs, fs, rows, -, hpart⟩
  · exact iff_of_false (not_not_intro hpart) hs
  · exact iff_of_true (hpart ▸ Text.splitLines_ne_nil _) hs

/-- A report has as many tables as statements that have filters. -/
theorem countP_of_reported {ps : List (String × List String)}
    (h : List.Forall₂ (Reported draw) ss ps) :
    ps.countP (fun part => part.2 ≠ []) = ss.countP isFiltered := by
  induction h with
  | nil => rfl
  | cons hs _ ih =>
    rw [List.countP_cons, List.countP_cons, ih]
    simp only [decide_eq_true_eq, hs.ne_nil_iff]

theorem Reported.isPart (hdraw : draw.IsRuled) (h : s.Reported draw part) (hs : s.WellFormed) :
    Report.IsPart part := by
  obtain ⟨line, table⟩ := part
  obtain rfl : line = s.render := h.rendering
  rcases h.cases with ⟨-, rfl⟩ | ⟨-, fs, rows, hrows, rfl⟩
  · exact Report.isPart_of_mem_singleton (not_isDrawn_render s) hs.oneLine _
      (List.mem_singleton_self _)
  · exact ⟨not_isDrawn_render s, hdraw _ rows (List.cons_ne_nil _ _) (Filter.length_of_cells hrows),
      List.forall_mem_cons.2 ⟨hs.oneLine, fun _ => Text.oneLine_of_mem_splitLines⟩⟩

/-- The rendering of a statement, and the lines of the table that is drawn of its filters. -/
def shown (draw : Drawer) (s : Statement) : String × List String :=
  (s.render, if s.isFiltered then Text.splitLines (Filter.table draw s.filters) else [])

theorem WellFormed.reported (h : s.WellFormed) (draw : Drawer) :
    s.Reported draw (s.shown draw) where
  rendering := rfl
  table := by
    cases s with
    | create | drop => rfl
    | select | delete => exact ⟨_, Filter.cells_rows h.2.2, rfl⟩
    | upsert => exact ⟨_, Filter.cells_rows fun f hf => .single (h.2.2 f hf), rfl⟩

/-- A statement that has filters has some, so that a table is drawn. -/
theorem WellFormed.unlines_report (h : s.WellFormed) (draw : Drawer) :
    Text.unlines (s.report draw true) = Text.unlines ((s.shown draw).1 :: (s.shown draw).2) := by
  have htable (fs : List Filter) : Text.unlines [Filter.table draw fs] =
      Text.unlines (Text.splitLines (Filter.table draw fs)) := by
    rw [Text.unlines_splitLines]
    exact String.append_empty
  have hshown (hne : s.filters ≠ []) :
      s.report draw true = [s.render, Filter.table draw s.filters] := by
    simp [report, hne]
  cases s with
  | create | drop => rfl
  | select _ fs | upsert _ _ fs | delete _ fs =>
    rw [hshown h.2.1]
    exact congrArg (_ ++ "\n" ++ ·) (htable fs)

/-- What is printed for statements is made of their parts. -/
theorem unlines_flatMap_report (h : ∀ s ∈ ss, s.WellFormed) (draw : Drawer) :
    Text.unlines (ss.flatMap (report draw true)) =
      Text.unlines ((ss.map (shown draw)).flatMap fun part => part.1 :: part.2) := by
  induction ss with
  | nil => rfl
  | cons s ss ih =>
    obtain ⟨hs, hss⟩ := List.forall_mem_cons.1 h
    rw [List.flatMap_cons, List.map_cons, List.flatMap_cons, Text.unlines_append,
      Text.unlines_append, hs.unlines_report, ih hss]

theorem text_report (hne : ss ≠ []) (h : ∀ s ∈ ss, s.WellFormed) (draw : Drawer) :
    Report.text ⟨Program.report draw true (.statements ss), true⟩ =
      Text.unlines ((ss.map (shown draw)).flatMap fun part => part.1 :: part.2) := by
  rw [← unlines_flatMap_report h]
  obtain ⟨s, ss, rfl⟩ := List.exists_cons_of_ne_nil hne
  rfl

theorem text_report_off (hne : ss ≠ []) (draw : Drawer) :
    Report.text ⟨Program.report draw false (.statements ss), true⟩ =
      Text.unlines ((ss.map (shown draw)).map Prod.fst) := by
  obtain ⟨s, ss, rfl⟩ := List.exists_cons_of_ne_nil hne
  rw [List.map_map]
  exact congrArg Text.unlines List.map_eq_flatMap.symm

end Statement

/-- Whether filters are shown has no effect on the success of a text, and what is printed without
them is what is left of what is printed with them when the lines that begin with `+` or `|` are
taken out. These lines are tables: one directly behind the rendering of each `SELECT`, `UPSERT` and
`DELETE`, with a row for each of its filters in their order, and no others. -/
theorem filter_tables_only_add_lines {draw : Drawer} (hdraw : draw.IsRuled) (text : String) :
    ∃ on off lines parts, evaluate draw true text = .ok on ∧ evaluate draw false text = .ok off ∧
      on.succeeded = off.succeeded ∧
      Text.Cut (Text.encode on.text) (lines.map fun line => Text.encode (line ++ "\n")) ∧
      String.join ((lines.filter fun line => !isDrawn line).map (· ++ "\n")) = off.text ∧
      Report.parts lines = ([], parts) ∧
      match parseProgram text with
      | .ok (.statements ss) => List.Forall₂ (Statement.Reported draw) ss parts ∧
          parts.countP (fun part => part.2 ≠ []) = ss.countP Statement.isFiltered
      | _ => on = off ∧ ∀ part ∈ parts, part.2 = [] := by
  cases hp : parseProgram text with
  | ok p =>
    have heval (showFilters : Bool) :
        evaluate draw showFilters text = .ok ⟨p.report draw showFilters, true⟩ := by
      rw [evaluate, hp]
    cases p with
    | empty =>
      obtain ⟨lines, hcut, hfilter, hparts⟩ := Report.reads_of_line
        (show ¬ isDrawn "No statements" by decide) (by decide) ⟨_, true⟩ rfl
      exact ⟨_, _, lines, _, heval true, heval false, rfl, hcut, hfilter, hparts, rfl,
        List.forall_mem_singleton.2 rfl⟩
    | statements ss =>
      obtain ⟨hne, hwf⟩ := wellFormed_of_parseProgram hp
      have hreported :
          List.Forall₂ (Statement.Reported draw) ss (ss.map (Statement.shown draw)) := by
        rw [List.forall₂_map_right_iff, List.forall₂_same]
        exact fun s hs => (hwf s hs).reported draw
      have hparts : ∀ part ∈ ss.map (Statement.shown draw), Report.IsPart part :=
        List.forall_mem_map.2 fun s hs => ((hwf s hs).reported draw).isPart hdraw (hwf s hs)
      obtain ⟨lines, hcut, hfilter, hparts⟩ := Report.reads_of_parts ⟨_, true⟩ ⟨_, true⟩ hparts
        (Statement.text_report hne hwf draw) (Statement.text_report_off hne draw)
      exact ⟨_, _, lines, _, heval true, heval false, rfl, hcut, hfilter, hparts, hreported,
        Statement.countP_of_reported hreported⟩
  | error f =>
    obtain ⟨e, rfl⟩ := exists_syntaxError_of_parseProgram hp
    have heval (showFilters : Bool) : evaluate draw showFilters text =
        .ok ⟨["Syntax Error: " ++ e.message], false⟩ := by
      rw [evaluate, hp]
    have hplain : ¬ isDrawn ("Syntax Error: " ++ e.message) := by simp [isDrawn]
    have hline : OneLine ("Syntax Error: " ++ e.message) :=
      OneLine.append (by decide) (SyntaxError.oneLine_message (Rejected.program hp).isLegible)
    obtain ⟨lines, hcut, hfilter, hparts⟩ := Report.reads_of_line hplain hline ⟨_, false⟩ rfl
    exact ⟨_, _, lines, _, heval true, heval false, rfl, hcut, hfilter, hparts, rfl,
      List.forall_mem_singleton.2 rfl⟩

/-- A value with a line feed is spread over two lines of its cell, which are told from the rendering
by the bars before them. -/
theorem filter_table_added_behind_select :
    Drawer.IsRuled Table.text ∧ ∃ on off lines,
      evaluate Table.text true "SELECT FROM a WHERE k = \"+\\n|x\" OR \"y\"; DROP KEYSPACE b" =
        .ok on ∧
      evaluate Table.text false "SELECT FROM a WHERE k = \"+\\n|x\" OR \"y\"; DROP KEYSPACE b" =
        .ok off ∧
      Text.Cut (Text.encode on.text) (lines.map fun line => Text.encode (line ++ "\n")) ∧
      String.join ((lines.filter fun line => !isDrawn line).map (· ++ "\n")) = off.text ∧
      Report.parts lines = ([], [
        ("SELECT FROM a WHERE k = \"+\\n|x\" OR \"y\";",
          ["+-----------+----------+--------+",
            "| attribute | operator | values |",
            "+-----------+----------+--------+",
            "| k         | =        | +      |",
            "|           |          | |x, y  |",
            "+-----------+----------+--------+"]),
        ("DROP KEYSPACE b;", [])]) := by
  have hparse : parseProgram "SELECT FROM a WHERE k = \"+\\n|x\" OR \"y\"; DROP KEYSPACE b" =
      .ok (.statements [.select ⟨"a"⟩ [.equality "k" (.group ⟨.or, ["+\n|x", "y"]⟩)],
        .drop ⟨"b"⟩]) := by
    decide +kernel
  obtain ⟨on, off, lines, parts, hon, hoff, -, hcut, hfilter, hparts, hreported⟩ :=
    filter_tables_only_add_lines Table.isRuled_text
      "SELECT FROM a WHERE k = \"+\\n|x\" OR \"y\"; DROP KEYSPACE b"
  have hdraw : Text.splitLines (Table.text
      [["attribute", "operator", "values"], ["k", "=", "+\n|x" ++ ", " ++ "y"]]) =
        ["+-----------+----------+--------+",
          "| attribute | operator | values |",
          "+-----------+----------+--------+",
          "| k         | =        | +      |",
          "|           |          | |x, y  |",
          "+-----------+----------+--------+"] := by
    decide +kernel
  rw [hparse] at hreported
  obtain ⟨hall, -⟩ := hreported
  -- the two parts are those of the two statements
  cases hall with
  | @cons _ select _ _ hselect hall =>
    cases hall with
    | @cons _ drop _ _ hdrop hall =>
      cases hall
      obtain ⟨rows, hrows, htable⟩ := hselect.table
      obtain _ | ⟨⟨⟩, ⟨⟩⟩ := hrows
      have hfirst : select = (_, _) := Prod.ext hselect.rendering (htable.trans hdraw)
      have hsecond : drop = (_, _) := Prod.ext hdrop.rendering hdrop.table
      exact ⟨Table.isRuled_text, on, off, lines, hon, hoff, hcut, hfilter,
        hparts.trans (by rw [hfirst, hsecond]; decide +kernel)⟩

end KeyspaceQuery
