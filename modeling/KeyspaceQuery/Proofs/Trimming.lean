import KeyspaceQuery.Proofs.Canonical
import KeyspaceQuery.Proofs.Composition
import KeyspaceQuery.Proofs.Lexeme.Edges

/-! Lines without the white space at their ends. A conversation strips a line by a wider idea of
white space than the lexer has of blanks. If nothing but blanks is stripped, what is left comes to
the same program, and from a line that has statements nothing else is stripped. -/

namespace KeyspaceQuery

open Text (isWhiteSpace)
open Token (isBlank isWordChar)

section WhiteSpace

variable {c : Char}

theorem isWhiteSpace_of_isBlank (h : isBlank c) : isWhiteSpace c := by
  simp only [isBlank, Bool.or_eq_true, beq_iff_eq] at h
  rcases h with ((rfl | rfl) | rfl) | rfl <;> decide

/-- The code points of white space. -/
def whiteSpaceCodes : List Nat :=
  [0x20, 0x85, 0xA0, 0x1680, 0x2028, 0x2029, 0x202F, 0x205F, 0x3000] ++ List.range' 9 5 ++
    List.range' 0x2000 11

theorem toNat_mem_of_isWhiteSpace (h : isWhiteSpace c) : c.toNat ∈ whiteSpaceCodes := by
  simp [isWhiteSpace, Text.whiteSpaceRanges, Text.Ranges.holds, whiteSpaceCodes] at h ⊢
  rcases h with (rfl | h) | h
  · decide
  · omega
  · omega

theorem not_isWordChar_of_isWhiteSpace (h : isWhiteSpace c) : ¬ isWordChar c := by
  have hcodes : ∀ n ∈ whiteSpaceCodes, ¬ isWordChar (Char.ofNat n) := by decide +kernel
  have := hcodes _ (toNat_mem_of_isWhiteSpace h)
  rwa [Char.ofNat_toNat] at this

end WhiteSpace

section TakeWhile

variable {α : Type} {p : α → Bool} {xs ys : List α} {x : α}

theorem mem_takeWhile_append (h : x ∈ (xs ++ ys).takeWhile p) :
    x ∈ xs.takeWhile p ∨ x ∈ ys.takeWhile p := by
  rw [List.takeWhile_append] at h
  split at h
  · rename_i hall
    rw [(List.takeWhile_prefix p).eq_of_length hall]
    exact List.mem_append.1 h
  · exact .inl h

theorem takeWhile_subset_append (xs ys : List α) :
    xs.takeWhile p ⊆ (xs ++ ys).takeWhile p := by
  rw [List.takeWhile_append]
  split
  · exact fun x hx => List.mem_append_left _ ((List.takeWhile_prefix p).subset hx)
  · exact fun x => id

theorem head_of_mem_takeWhile (h : x ∈ xs.takeWhile p) : ∃ y ∈ xs.head?, p y := by
  cases xs with
  | nil => cases h
  | cons y ys =>
    rw [List.takeWhile_cons] at h
    split at h
    · exact ⟨y, rfl, ‹_›⟩
    · cases h

theorem mem_rtakeWhile_iff : x ∈ xs.rtakeWhile p ↔ x ∈ xs.reverse.takeWhile p :=
  List.mem_reverse

end TakeWhile

namespace Lexeme

variable {l : Lexeme} {slice rest : List Char} {c d : Char}

theorem kind_of_hasEdge_whiteSpace (h : l.HasEdge c) (hc : isWhiteSpace c) :
    l.kind = .whitespace := by
  unfold HasEdge at h
  split at h
  · assumption
  all_goals first
    | exact absurd h (not_isWordChar_of_isWhiteSpace hc)
    | (subst h; cases hc)
    | cases h

/-- A whole piece with white space at one of its ends has blanks only. -/
theorem Takes.isBlank_of_edge (h : l.Takes slice rest) (hl : l.Spelled)
    (hd : d ∈ slice.head? ∨ d ∈ slice.getLast?) (hw : isWhiteSpace d) : ∀ c ∈ slice, isBlank c :=
  fun _ => h.isBlank_of_mem (kind_of_hasEdge_whiteSpace (h.hasEdge hl hd) hw)

/-- What no word can go on with ends no piece in another way behind a text that does not end with a
blank, but for a string that is still open. -/
theorem Takes.append_of_last {ds : List Char} (h : l.Takes slice rest)
    (hlast : ∀ c ∈ (slice ++ rest).getLast?, ¬ isBlank c) (hds : ∀ c ∈ ds, ¬ isWordChar c) :
    l.Takes slice (rest ++ ds) ∨ rest = [] ∧ l.kind = .badString ∧ slice.head? = some '"' := by
  refine h.append fun hnil => ⟨fun _ c hc => hds c (List.mem_of_mem_head? hc), fun hk => ?_⟩
  rw [hnil, List.append_nil] at hlast
  obtain ⟨c, hc⟩ := Option.isSome_iff_exists.1 (List.getLast?_isSome.2 h.ne_nil)
  exact absurd (h.isBlank_of_mem hk (List.mem_of_mem_getLast? hc)) (hlast c hc)

end Lexeme

section Segments

variable {cs : List Char} {pieces : List (Lexeme × List Char)}

theorem Segments.isBlank_of_mem_takeWhile (h : Segments cs pieces)
    (hs : ∀ l ∈ pieces.map Prod.fst, l.Spelled) : ∀ c ∈ cs.takeWhile isWhiteSpace, isBlank c := by
  induction h with
  | nil => exact List.forall_mem_nil _
  | cons hl _ ih =>
    obtain ⟨hspelled, hs⟩ := List.forall_mem_cons.1 hs
    intro c hc
    rcases mem_takeWhile_append hc with hc | hc
    · obtain ⟨d, hd, hw⟩ := head_of_mem_takeWhile hc
      exact hl.isBlank_of_edge hspelled (.inl hd) hw c ((List.takeWhile_prefix _).subset hc)
    · exact ih hs c hc

theorem Segments.isBlank_of_mem_rtakeWhile (h : Segments cs pieces)
    (hs : ∀ l ∈ pieces.map Prod.fst, l.Spelled) :
    ∀ c ∈ cs.rtakeWhile isWhiteSpace, isBlank c := by
  induction h with
  | nil => exact List.forall_mem_nil _
  | cons hl _ ih =>
    obtain ⟨hspelled, hs⟩ := List.forall_mem_cons.1 hs
    intro c hc
    rw [mem_rtakeWhile_iff, List.reverse_append] at hc
    rcases mem_takeWhile_append hc with hc | hc
    · exact ih hs c (mem_rtakeWhile_iff.2 hc)
    · obtain ⟨d, hd, hw⟩ := head_of_mem_takeWhile hc
      rw [List.head?_reverse] at hd
      exact hl.isBlank_of_edge hspelled (.inr hd) hw c
        (List.mem_reverse.1 ((List.takeWhile_prefix _).subset hc))

end Segments

namespace Text

variable {line : String}

/-- Nothing but blanks is stripped from the line. -/
def TrimsBlanks (line : String) : Prop :=
  ∀ c, c ∈ line.toList.takeWhile isWhiteSpace ∨ c ∈ line.toList.rtakeWhile isWhiteSpace →
    c ∈ [' ', '\t', '\r', '\n']

theorem mem_blanks_iff {c : Char} : c ∈ [' ', '\t', '\r', '\n'] ↔ isBlank c := by
  simp only [isBlank, List.mem_cons, List.not_mem_nil, or_false, Bool.or_eq_true, beq_iff_eq]
  tauto

/-- What is stripped from the two ends. -/
theorem exists_trim (line : String) : ∃ front back,
    line.toList = front ++ ((trim line).toList ++ back) ∧
      front = line.toList.takeWhile isWhiteSpace ∧ back ⊆ line.toList.rtakeWhile isWhiteSpace := by
  have htrim : (trim line).toList =
      (line.toList.dropWhile isWhiteSpace).rdropWhile isWhiteSpace := by
    rw [trim, String.toList_ofList]
    rfl
  refine ⟨_, (line.toList.dropWhile isWhiteSpace).rtakeWhile isWhiteSpace, ?_, rfl, ?_⟩
  · rw [htrim, List.rdropWhile_append_rtakeWhile, List.takeWhile_append_dropWhile]
  · intro c hc
    rw [← List.takeWhile_append_dropWhile (p := isWhiteSpace) (l := line.toList)]
    rw [mem_rtakeWhile_iff] at hc ⊢
    rw [List.reverse_append]
    exact takeWhile_subset_append _ _ hc

theorem getLast?_trim (line : String) : ∀ c ∈ (trim line).toList.getLast?, ¬ isWhiteSpace c := by
  rw [trim, String.toList_ofList, trimChars, List.getLast?_reverse]
  exact Lexeme.not_head_dropWhile _ _

end Text

theorem lexemes_append_of_blanks {bs : List Char} (hbs : ∀ b ∈ bs, isBlank b) (hne : bs ≠ [])
    {cs : List Char} (hcs : ∀ c ∈ cs.head?, ¬ isBlank c) :
    lexemes (bs ++ cs) = ⟨.whitespace, String.ofList bs⟩ :: lexemes cs :=
  lexemes_of_takes (.blanks hne hbs hcs)

namespace ProgramMachine

variable {q : State} {l : Lexeme} {cs bs : List Char}

/-- A broken lexeme is refused everywhere. -/
theorem exists_refuse_of_isBroken (hl : l.IsBroken) (q : State) :
    ∃ r taken, move q l = .refuse r taken := by
  cases hm : move q l with
  | go q' => exact absurd hl (guides_move.notBroken hm)
  | done p taken =>
    have := kind_of_done hm
    rcases hl with hl | hl | hl <;> cases hl.symm.trans this
  | refuse r taken => exact ⟨r, taken, rfl⟩

theorem answer_of_isBroken (hl : l.IsBroken) (ls : List Lexeme) :
    move.answer q (l :: ls) = none := by
  obtain ⟨r, taken, hr⟩ := exists_refuse_of_isBroken hl q
  rw [Machine.answer, hr]
  rfl

/-- Blanks before the end of the input change nothing: where one is refused, so is the end. -/
theorem answer_blank_eof (q : State) (hl : l.kind = .whitespace) :
    move.answer q [l, .eof] = move.answer q [.eof] := by
  obtain ⟨kind, w⟩ := l
  cases hl
  cases q with
  | between read | closing read => rfl
  | within read q =>
    cases q with
    | stage s => rfl
    | path h text dotted =>
      cases dotted with
      | true => rfl
      | false => cases h <;> rfl

theorem answer_blanks (hbs : ∀ b ∈ bs, isBlank b) (q : State) :
    move.answer q (lexemes bs) = move.answer q (lexemes []) := by
  cases bs with
  | nil => rfl
  | cons b bs =>
    have hends : lexemes (b :: bs ++ []) =
        ⟨.whitespace, String.ofList (b :: bs)⟩ :: lexemes [] :=
      lexemes_append_of_blanks hbs (List.cons_ne_nil b bs) (by simp)
    have heof : lexemes [] = [.eof] := by rw [lexemes]
    rw [List.append_nil, heof] at hends
    rw [hends, heof]
    exact answer_blank_eof q rfl

/-- Blanks behind a text change nothing, if it does not end with one. A string that is open there
is not closed by them. -/
theorem answer_append_blanks {pieces : List (Lexeme × List Char)} (h : Segments cs pieces)
    (hlast : ∀ c ∈ cs.getLast?, ¬ isBlank c) (hbs : ∀ b ∈ bs, isBlank b) (q : State) :
    move.answer q (lexemes (cs ++ bs)) = move.answer q (lexemes cs) := by
  induction h generalizing q with
  | nil => exact answer_blanks hbs q
  | @cons l slice rest pieces hl _ ih =>
    have hword : ∀ b ∈ bs, ¬ isWordChar b :=
      fun b hb => Bool.eq_false_iff.1 (Lexeme.not_isWordChar_of_isBlank (hbs b hb))
    have hquote : '"' ∉ bs := fun hquote => absurd (hbs _ hquote) (by decide)
    rw [lexemes_of_takes hl, List.append_assoc]
    rcases hl.append_of_last hlast hword with hl' | ⟨rfl, hbad, hhead⟩
    · rw [lexemes_of_takes hl', Machine.answer, Machine.answer]
      cases hm : move q l with
      | go q' =>
        refine ih (fun c hc => hlast c ?_) q'
        rw [Option.mem_def, List.getLast?_append, Option.mem_def.1 hc]
        rfl
      | done p taken => exact absurd (kind_of_done hm) hl.kind_ne_endOfInput
      | refuse r taken => rfl
    · obtain ⟨l', ls, hls, hl'⟩ := exists_lexemes_of_open hl hbad hhead hquote
      rw [List.nil_append, hls, answer_of_isBroken hl', answer_of_isBroken (.inl hbad)]

/-- Before a statement blanks are passed over, however many stand there. -/
theorem answer_between_dropWhile (read : List Statement) (cs : List Char) :
    (State.between read).answer (lexemes cs) =
      (State.between read).answer (lexemes (cs.dropWhile isBlank)) := by
  conv_lhs => rw [← List.takeWhile_append_dropWhile (p := isBlank) (l := cs)]
  rcases List.eq_nil_or_concat' (cs.takeWhile isBlank) with hnil | ⟨_, _, hne⟩
  · rw [hnil, List.nil_append]
  · rw [lexemes_append_of_blanks (List.all_eq_true.1 List.all_takeWhile) (by simp [hne])
      (Lexeme.not_head_dropWhile _ _), answer_cons_blank .between rfl]

theorem answer_append_front {fs : List Char} (hfs : ∀ c ∈ fs, isBlank c) (cs : List Char) :
    (State.between []).answer (lexemes (fs ++ cs)) = (State.between []).answer (lexemes cs) := by
  rw [answer_between_dropWhile, answer_between_dropWhile [] cs, List.dropWhile_append_of_pos hfs]

/-- A program does not begin with a dot. -/
theorem answer_dot (cs : List Char) : (State.between []).answer (lexemes ('.' :: cs)) = none := by
  rw [← List.singleton_append, lexemes_of_takes .dot]
  rfl

end ProgramMachine

open Text (TrimsBlanks)

section Program

variable {line : String} {p : Program}

theorem answer_trim (h : TrimsBlanks line) :
    (ProgramMachine.State.between []).answer (lexemes line.toList) =
      (ProgramMachine.State.between []).answer (lexemes (Text.trim line).toList) := by
  obtain ⟨front, back, hline, rfl, hback⟩ := Text.exists_trim line
  obtain ⟨pieces, hpieces, -⟩ := exists_segments (Text.trim line).toList
  rw [hline, ProgramMachine.answer_append_front fun c hc => Text.mem_blanks_iff.1 (h c (.inl hc))]
  exact ProgramMachine.answer_append_blanks hpieces
    (fun c hc hb => Text.getLast?_trim line c hc (isWhiteSpace_of_isBlank hb))
    (fun c hc => Text.mem_blanks_iff.1 (h c (.inr (hback hc)))) _

theorem parseProgram_trim_iff (h : TrimsBlanks line) (p : Program) :
    parseProgram line = .ok p ↔ parseProgram (Text.trim line) = .ok p := by
  rw [Parser.parse_eq_ok_iff reads_program ProgramMachine.ends_move,
    Parser.parse_eq_ok_iff reads_program ProgramMachine.ends_move]
  exact exists_congr fun rest => by rw [← ProgramMachine.State.answer, answer_trim h]

theorem trimsBlanks_of_accepted (h : parseProgram line = .ok p) : TrimsBlanks line := by
  obtain ⟨pieces, hpieces, hls⟩ := exists_segments line.toList
  obtain ⟨hs, -⟩ := ProgramMachine.exists_walk_of_accepted h hpieces hls
  rintro c (hc | hc)
  · exact Text.mem_blanks_iff.2 (hpieces.isBlank_of_mem_takeWhile hs c hc)
  · exact Text.mem_blanks_iff.2 (hpieces.isBlank_of_mem_rtakeWhile hs c hc)

theorem parseProgram_empty : parseProgram "" = .ok .empty := by decide +kernel

theorem head?_ne_dot_of_accepted (h : parseProgram line = .ok p) :
    line.toList.head? ≠ some '.' := by
  intro hdot
  obtain ⟨cs, hcs⟩ := List.head?_eq_some_iff.1 hdot
  obtain ⟨rest, hanswer⟩ := (Parser.parse_eq_ok_iff reads_program ProgramMachine.ends_move).1 h
  rw [hcs] at hanswer
  cases hanswer.symm.trans (ProgramMachine.answer_dot cs)

end Program

namespace Session

variable {line : String} {ss : List Statement}

/-- A line with statements is evaluated as it is when it is stripped. -/
theorem ofLine_of_accepted (h : parseProgram line = .ok (.statements ss)) :
    Text.trim line ≠ "" ∧ (Text.trim line).toList.head? ≠ some '.' ∧
      Command.ofLine line = .evaluate (Text.trim line) := by
  have htrim := (parseProgram_trim_iff (trimsBlanks_of_accepted h) _).1 h
  have hdot := head?_ne_dot_of_accepted htrim
  rcases ofLine_cases line with ⟨hempty, -⟩ | ⟨hhead, -⟩ | hline
  · rw [hempty, parseProgram_empty] at htrim
    cases htrim
  · exact absurd hhead hdot
  · exact hline

theorem reply_of_accepted (h : parseProgram line = .ok (.statements ss)) {draw : Drawer}
    {showFilters : Bool} {report : Report}
    (hreport : KeyspaceQuery.evaluate draw showFilters line = .ok report) :
    reply draw showFilters (Text.encode line) = .more report.text showFilters := by
  have htrim := (parseProgram_trim_iff (trimsBlanks_of_accepted h) _).1 h
  have hevaluate : KeyspaceQuery.evaluate draw showFilters (Text.trim line) = .ok report := by
    rw [← hreport, KeyspaceQuery.evaluate, KeyspaceQuery.evaluate, h, htrim]
  rw [reply, Text.decode?_encode]
  simp only [(ofLine_of_accepted h).2.2, respond, hevaluate]

end Session

/-- A conversation accepts what the command accepts as a query. If nothing but blanks is stripped
from a line, the line and what is left of it come to the same programs. That is so for every line
that comes to statements, which is therefore never blank or a command to the session: what is said
to it is what the command prints for it with the same setting. -/
theorem conversation_accepts_queries (line : String) :
    (TrimsBlanks line →
      ∀ p, parseProgram line = .ok p ↔ parseProgram (Text.trim line) = .ok p) ∧
    ∀ ss, parseProgram line = .ok (.statements ss) → TrimsBlanks line ∧ Text.trim line ≠ "" ∧
      (Text.trim line).toList.head? ≠ some '.' ∧
      Session.Command.ofLine line = .evaluate (Text.trim line) ∧
      ∀ draw showFilters, ∃ report, evaluate draw showFilters line = .ok report ∧
        (∀ files input, (CommandLine.Request.evaluate line showFilters).outcome draw files input =
          ⟨if report.succeeded then 0 else 1, report.text, ""⟩) ∧
        ∀ rest, Session.transcript draw showFilters (Text.encode line :: rest) =
          ("> " ++ report.text ++ (Session.transcript draw showFilters rest).1,
            (Session.transcript draw showFilters rest).2) := by
  refine ⟨parseProgram_trim_iff, fun ss h => ?_⟩
  obtain ⟨hne, hdot, hline⟩ := Session.ofLine_of_accepted h
  refine ⟨trimsBlanks_of_accepted h, hne, hdot, hline, fun draw showFilters => ?_⟩
  obtain ⟨report, hreport⟩ := exists_evaluate draw showFilters line
  refine ⟨report, hreport, fun files input => ?_, fun rest => ?_⟩
  · rw [CommandLine.Request.outcome, hreport]
    rfl
  · rw [Session.transcript, Session.reply_of_accepted h hreport]
    rfl

/-- All blanks at both ends are stripped, but not the one before the semicolon. -/
theorem conversation_accepts_drop_between_blanks :
    parseProgram " \tDROP KEYSPACE a.b ;\r\n" = .ok (.statements [.drop ⟨"a.b"⟩]) ∧
      TrimsBlanks " \tDROP KEYSPACE a.b ;\r\n" ∧
      parseProgram (Text.trim " \tDROP KEYSPACE a.b ;\r\n") =
        .ok (.statements [.drop ⟨"a.b"⟩]) := by
  have h : parseProgram " \tDROP KEYSPACE a.b ;\r\n" = .ok (.statements [.drop ⟨"a.b"⟩]) := by
    decide +kernel
  obtain ⟨hiff, haccepted⟩ := conversation_accepts_queries " \tDROP KEYSPACE a.b ;\r\n"
  obtain ⟨htrims, -⟩ := haccepted _ h
  exact ⟨h, htrims, (hiff htrims _).1 h⟩

end KeyspaceQuery
