import KeyspaceQuery.CommandLine
import KeyspaceQuery.Proofs.Grammar.Program
import KeyspaceQuery.Proofs.Text.Lines

/-! Conversations. What is said to a line is told by that line and by whether filters are shown, and
that is told by how often they have been switched. So the lines before another one, those in error
too, leave nothing else to it, and behind the end of the conversation nothing is read. -/

namespace KeyspaceQuery

/-- A text that is not accepted as a program has a syntax error. -/
theorem exists_syntaxError_of_parseProgram {text : String} {f : Failure}
    (h : parseProgram text = .error f) : ∃ e, f = .syntaxError e := by
  obtain ⟨_, _, _, _, _, _, _, _, _, _, _, rfl⟩ :=
    Parser.exists_refuse_of_parse reads_program ProgramMachine.ends_move h
  exact ⟨_, rfl⟩

/-- A text is never the cause of a fault. -/
theorem exists_evaluate (draw : Drawer) (showFilters : Bool) (text : String) :
    ∃ report, evaluate draw showFilters text = .ok report := by
  unfold evaluate
  cases h : parseProgram text with
  | ok p => exact ⟨_, rfl⟩
  | error f =>
    obtain ⟨e, rfl⟩ := exists_syntaxError_of_parseProgram h
    exact ⟨_, rfl⟩

namespace CommandLine

variable (draw : Drawer) (files : String → Except FileError (List UInt8)) (showFilters : Bool)

/-- What the command prints for one query. -/
def printed (query : String) : String :=
  ((Request.evaluate query showFilters).outcome draw files []).output

variable {draw files showFilters}

theorem printed_eq {query : String} {report : Report}
    (h : evaluate draw showFilters query = .ok report) :
    printed draw files showFilters query = report.text := by
  rw [printed, Request.outcome, h]
  rfl

end CommandLine

namespace Session

open CommandLine (Outcome Request printed)

/-- What a line is known by as a command to the session. -/
def name (line : String) : String := lower (Text.trim line)

def IsExit (line : String) : Prop := name line ∈ [".exit", ".quit", ".close"]

def IsHelp (line : String) : Prop := name line ∈ [".help", ".h", ".?"]

def isToggle (line : String) : Bool := name line = ".filters"

instance (line : String) : Decidable (IsExit line) := inferInstanceAs (Decidable (_ ∈ _))

instance (line : String) : Decidable (IsHelp line) := inferInstanceAs (Decidable (_ ∈ _))

/-- What is said to a line that does not end the session. -/
def answer (draw : Drawer) (files : String → Except FileError (List UInt8)) (showFilters : Bool)
    (line : String) : String :=
  let text := Text.trim line
  if text = "" then ""
  else if IsHelp line then
    "Statements: CREATE KEYSPACE, DROP KEYSPACE, SELECT, UPSERT, DELETE.\n" ++
      "Meta commands: .filters (toggle filter table), .help, .exit\n"
  else if isToggle line then "Filter table " ++ (if showFilters then "off" else "on") ++ ".\n"
  else if text.toList.head? = some '.' then "Error! Command not recognised.\n"
  else printed draw files showFilters text

/-- Whether filters are shown behind some lines. Each `.filters` among them has switched it. -/
def shownBehind (showFilters : Bool) (lines : List String) : Bool :=
  Bool.not^[lines.countP isToggle] showFilters

/-- What is said to some lines, each behind its prompt. -/
def answers (draw : Drawer) (files : String → Except FileError (List UInt8)) (showFilters : Bool)
    (lines : List String) : String :=
  String.join (lines.mapIdx fun i line =>
    "> " ++ answer draw files (shownBehind showFilters (lines.take i)) line)

/-- The bytes are this line, and the session goes on behind it. -/
def GoesOn (raw : List UInt8) (line : String) : Prop :=
  Text.decode? raw = some line ∧ ¬ IsExit line

/-- The session ends before these lines or at the first of them, and what comes of it there. -/
inductive Stops : List (List UInt8) → Outcome → Prop
  | endOfInput : Stops [] ⟨0, "> Goodbye.\n", ""⟩
  | exit {raw : List UInt8} {line : String} (rest : List (List UInt8))
      (hline : Text.decode? raw = some line) (h : IsExit line) :
      Stops (raw :: rest) ⟨0, "> Goodbye.\n", ""⟩
  | undecodable {raw : List UInt8} (rest : List (List UInt8)) (h : Text.decode? raw = none) :
      Stops (raw :: rest) ⟨1, "> ", "Error: stream did not contain valid UTF-8\n"⟩

section Line

variable {line : String}

theorem eq_dot_of_toLower {c : Char} (h : c.toLower = '.') : c = '.' := by
  by_cases hc : c.val ≥ 'A'.val ∧ c.val ≤ 'Z'.val
  · have hlow : 65 ≤ c.val.toNat := UInt32.le_iff_toNat_le.1 hc.1
    have hhigh : c.val.toNat ≤ 90 := UInt32.le_iff_toNat_le.1 hc.2
    have hlower : c.toLower.val = c.val + 32 := congrArg Char.val (dif_pos hc)
    have hval : 46 = (c.val.toNat + 32) % 2 ^ 32 := by
      rw [h] at hlower
      exact congrArg UInt32.toNat hlower
    omega
  · have hlower : c.toLower = c := dif_neg hc
    exact hlower.symm.trans h

theorem toList_name (line : String) :
    (name line).toList = (Text.trim line).toList.map Char.toLower := by
  rw [name, lower, String.toList_ofList]

/-- Only a line that begins with a dot is known by a name that does. -/
theorem head?_of_name_mem {names : List String} (hnames : ∀ w ∈ names, w.toList.head? = some '.')
    (h : name line ∈ names) : (Text.trim line).toList.head? = some '.' := by
  have hname := hnames _ h
  rw [toList_name, List.head?_map] at hname
  obtain ⟨c, hc, hdot⟩ := Option.map_eq_some_iff.1 hname
  rw [hc, eq_dot_of_toLower hdot]

theorem head?_of_isExit (h : IsExit line) : (Text.trim line).toList.head? = some '.' :=
  head?_of_name_mem (by decide) h

theorem head?_of_isHelp (h : IsHelp line) : (Text.trim line).toList.head? = some '.' :=
  head?_of_name_mem (by decide) h

theorem head?_of_isToggle (h : isToggle line) : (Text.trim line).toList.head? = some '.' := by
  have hname : name line ∈ [".filters"] := List.mem_singleton.2 (of_decide_eq_true h)
  exact head?_of_name_mem (by decide) hname

theorem trim_ne_empty (h : (Text.trim line).toList.head? = some '.') : Text.trim line ≠ "" := by
  intro hempty
  rw [hempty] at h
  cases h

theorem not_isHelp_of_isToggle (h : isToggle line) : ¬ IsHelp line := by
  rw [IsHelp, of_decide_eq_true h]
  decide

/-- A line is known as a command only if it begins with a dot. -/
theorem ofLine_cases (line : String) :
    (Text.trim line = "" ∧ Command.ofLine line = .blank) ∨
      ((Text.trim line).toList.head? = some '.' ∧
        Command.ofLine line = .ofName (name line)) ∨
      Text.trim line ≠ "" ∧ (Text.trim line).toList.head? ≠ some '.' ∧
        Command.ofLine line = .evaluate (Text.trim line) := by
  unfold Command.ofLine
  simp only
  split
  next h => exact .inl ⟨String.toList_eq_nil_iff.1 h, rfl⟩
  next cs h => exact .inr (.inl ⟨by rw [h]; rfl, rfl⟩)
  next hnil hdot =>
    refine .inr (.inr ⟨fun h => hnil (h ▸ rfl), fun h => ?_, rfl⟩)
    obtain ⟨cs, hcs⟩ := List.head?_eq_some_iff.1 h
    exact hdot cs hcs

theorem ofName_name (line : String) : Command.ofName (name line) =
    if IsExit line then .exit else if IsHelp line then .help
    else if isToggle line then .toggleFilters else .unknown := by
  simp only [Command.ofName, IsExit, IsHelp, isToggle, decide_eq_true_eq]

variable (draw : Drawer) (files : String → Except FileError (List UInt8)) (showFilters : Bool)

theorem respond_of_isExit (h : IsExit line) :
    respond draw showFilters (.ofLine line) = .last farewell .farewell := by
  rcases ofLine_cases line with ⟨hblank, -⟩ | ⟨-, hline⟩ | ⟨-, hdot, -⟩
  · exact absurd hblank (trim_ne_empty (head?_of_isExit h))
  · rw [hline, ofName_name, if_pos h]
    rfl
  · exact absurd (head?_of_isExit h) hdot

/-- What a line does to the session. -/
theorem respond_ofLine (h : ¬ IsExit line) : respond draw showFilters (.ofLine line) =
    .more (answer draw files showFilters line)
      (if isToggle line then !showFilters else showFilters) := by
  rcases ofLine_cases line with ⟨hblank, hline⟩ | ⟨hdot, hline⟩ | ⟨hne, hdot, hline⟩
  · have htoggle : ¬ isToggle line := fun h => trim_ne_empty (head?_of_isToggle h) hblank
    rw [hline, answer, if_pos hblank, if_neg htoggle, respond]
  -- behind a dot the name decides, and no name is of two kinds
  · rw [hline, ofName_name, if_neg h, answer, if_neg (trim_ne_empty hdot)]
    by_cases hhelp : IsHelp line
    · have htoggle : ¬ isToggle line := fun h => not_isHelp_of_isToggle h hhelp
      rw [if_pos hhelp, if_pos hhelp, if_neg htoggle, respond]
      rfl
    · rw [if_neg hhelp, if_neg hhelp]
      by_cases htoggle : isToggle line
      · rw [if_pos htoggle, if_pos htoggle, if_pos htoggle, respond]
        cases showFilters <;> rfl
      · rw [if_neg htoggle, if_neg htoggle, if_neg htoggle, if_pos hdot, respond]
  -- a query is never refused with a fault, so that the session always goes on
  · have htoggle : ¬ isToggle line := fun h => hdot (head?_of_isToggle h)
    have hhelp : ¬ IsHelp line := fun h => hdot (head?_of_isHelp h)
    obtain ⟨report, hreport⟩ := exists_evaluate draw showFilters (Text.trim line)
    rw [hline, answer, if_neg hne, if_neg hhelp, if_neg htoggle, if_neg hdot, if_neg htoggle,
      CommandLine.printed_eq hreport, respond, hreport]

end Line

section Run

variable (draw : Drawer) (files : String → Except FileError (List UInt8)) (showFilters : Bool)
  {raws rest : List (List UInt8)} {lines : List String}

theorem shownBehind_cons (line : String) (lines : List String) :
    shownBehind showFilters (line :: lines) =
      shownBehind (if isToggle line then !showFilters else showFilters) lines := by
  unfold shownBehind
  by_cases h : isToggle line
  · rw [List.countP_cons_of_pos h, Function.iterate_succ_apply, if_pos h]
  · rw [List.countP_cons_of_neg h, if_neg h]

theorem answers_cons (line : String) (lines : List String) :
    answers draw files showFilters (line :: lines) =
      "> " ++ answer draw files showFilters line ++
        answers draw files (if isToggle line then !showFilters else showFilters) lines := by
  simp only [answers, List.mapIdx_cons, String.join_cons, List.take_zero, List.take_succ_cons,
    shownBehind_cons]
  rfl

theorem answers_append (before behind : List String) :
    answers draw files showFilters (before ++ behind) = answers draw files showFilters before ++
      answers draw files (shownBehind showFilters before) behind := by
  induction before generalizing showFilters with
  | nil => exact String.empty_append.symm
  | cons line before ih =>
    rw [List.cons_append, answers_cons, answers_cons, shownBehind_cons, ih]
    simp only [String.append_assoc]

/-- The lines that are answered leave the setting to those behind them, and nothing else. -/
theorem transcript_append (h : List.Forall₂ GoesOn raws lines) (rest : List (List UInt8)) :
    transcript draw showFilters (raws ++ rest) =
      (answers draw files showFilters lines ++
        (transcript draw (shownBehind showFilters lines) rest).1,
        (transcript draw (shownBehind showFilters lines) rest).2) := by
  -- a line may switch the setting that those behind it are answered with
  induction h generalizing showFilters with
  | nil => exact Prod.ext String.empty_append.symm rfl
  | @cons raw line raws lines hline h ih =>
    obtain ⟨hdecode, hexit⟩ := hline
    rw [List.cons_append, transcript, reply, hdecode]
    simp only [respond_ofLine draw files _ hexit]
    rw [ih, answers_cons, shownBehind_cons, ← String.append_assoc]
    rfl

theorem Stops.ofSession {o : Outcome} (h : Stops rest o) (text : String) :
    Outcome.ofSession
        (text ++ (transcript draw showFilters rest).1, (transcript draw showFilters rest).2) =
      { o with output := text ++ o.output } := by
  cases h with
  | endOfInput => rfl
  | exit rest hline h =>
    rw [transcript, reply, hline]
    simp only [respond_of_isExit draw _ h]
    rfl
  | undecodable rest h =>
    rw [transcript, reply, h]
    rfl

theorem exists_stops (raws : List (List UInt8)) : ∃ done lines rest o,
    raws = done ++ rest ∧ List.Forall₂ GoesOn done lines ∧ Stops rest o := by
  induction raws with
  | nil => exact ⟨[], [], [], _, rfl, .nil, .endOfInput⟩
  | cons raw raws ih =>
    cases hdecode : Text.decode? raw with
    | none => exact ⟨[], [], raw :: raws, _, rfl, .nil, .undecodable raws hdecode⟩
    | some line =>
      by_cases hexit : IsExit line
      · exact ⟨[], [], raw :: raws, _, rfl, .nil, .exit raws hdecode hexit⟩
      · obtain ⟨done, lines, rest, o, rfl, hdone, hrest⟩ := ih
        exact ⟨raw :: done, line :: lines, rest, o, rfl, .cons ⟨hdecode, hexit⟩ hdone, hrest⟩

theorem run_of_stops {input : List UInt8} {o : Outcome} (hcut : Text.Cut input (raws ++ rest))
    (hraws : List.Forall₂ GoesOn raws lines) (hrest : Stops rest o) :
    (Request.converse showFilters).outcome draw files input =
      { o with output := "keyql\n" ++ answers draw files showFilters lines ++ o.output } := by
  rw [Request.outcome, run, Text.cut_iff.1 hcut]
  simp only [transcript_append draw files showFilters hraws]
  rw [← String.append_assoc]
  exact hrest.ofSession draw _ _

end Run

end Session

open CommandLine (Request) in
/-- A conversation goes line by line up to the first line that is not UTF-8 or that asks for its
end. The answer to a line is told by the line and by the setting, which the lines `.filters` before
it have switched, and a line that is a query gets what the command prints for it alone. Any other
line, one in error too, changes nothing for those behind it. Nothing behind the line that ends the
conversation is looked at. -/
theorem session_answers_each_line_alone (draw : Drawer)
    (files : String → Except FileError (List UInt8)) (showFilters : Bool) (input : List UInt8) :
    ∃ raws lines rest o, Text.Cut input (raws ++ rest) ∧
      List.Forall₂ Session.GoesOn raws lines ∧ Session.Stops rest o ∧
      (Request.converse showFilters).outcome draw files input =
        { o with output := "keyql\n" ++ Session.answers draw files showFilters lines ++ o.output } ∧
      (∀ before line behind, lines = before ++ line :: behind → ¬ Session.isToggle line →
        Session.answers draw files showFilters lines =
          Session.answers draw files showFilters before ++
            ("> " ++ Session.answer draw files (Session.shownBehind showFilters before) line ++
              Session.answers draw files (Session.shownBehind showFilters before) behind)) ∧
      ∀ last behind, rest = last :: behind → ∀ input' behind',
        Text.Cut input' (raws ++ last :: behind') →
          (Request.converse showFilters).outcome draw files input' =
            (Request.converse showFilters).outcome draw files input := by
  obtain ⟨raws, lines, rest, o, hsplit, hraws, hrest⟩ := Session.exists_stops (Text.lines input)
  have hcut : Text.Cut input (raws ++ rest) := Text.cut_iff.2 hsplit
  have hrun := Session.run_of_stops draw files showFilters hcut hraws hrest
  refine ⟨raws, lines, rest, o, hcut, hraws, hrest, hrun, ?_, ?_⟩
  · rintro before line behind rfl htoggle
    rw [Session.answers_append, Session.answers_cons, if_neg htoggle]
  · rintro last behind rfl input' behind' hcut'
    have hstops : Session.Stops (last :: behind') o := by
      cases hrest with
      | exit _ hline h => exact .exit behind' hline h
      | undecodable _ h => exact .undecodable behind' h
    rw [hrun, Session.run_of_stops draw files showFilters hcut' hraws hstops]

end KeyspaceQuery
