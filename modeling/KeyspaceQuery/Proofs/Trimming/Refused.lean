import KeyspaceQuery.Proofs.Errors.Message
import KeyspaceQuery.Proofs.Lexeme.Offsets
import KeyspaceQuery.Proofs.Trimming

/-! Errors by the pieces of a text. A text is refused at one of its pieces or at its end, and the
place of the error is told by the characters in front of it. Blanks in front of a text move its
pieces, and white space behind it is cut into pieces of its own. -/

namespace KeyspaceQuery

open Text (OneLine isWhiteSpace)
open Token (isBlank isWordChar)

section Places

variable {behind cs : List Char} {overrun : Bool} {pieces : List (Lexeme × List Char)} {i : Nat}

theorem map_lexeme_placed (behind : List Char) (overrun : Bool)
    (pieces : List (Lexeme × List Char)) :
    (placed behind overrun pieces).map Token.lexeme = pieces.map Prod.fst ++ [.eof] := by
  induction pieces generalizing behind overrun with
  | nil => rfl
  | cons piece pieces ih => rw [placed, List.map_cons, ih]; rfl

theorem map_lexeme_take_placed (h : i ≤ pieces.length) :
    ((placed behind overrun pieces).take i).map Token.lexeme = (pieces.take i).map Prod.fst := by
  rw [List.map_take, map_lexeme_placed, List.take_append_of_le_length (by simpa using h),
    List.map_take]

theorem le_of_getElem?_placed {t : Token} (h : (placed behind overrun pieces)[i]? = some t) :
    i ≤ pieces.length := by
  have hi := (List.getElem?_eq_some_iff.1 h).1
  rw [length_placed] at hi
  exact Nat.le_of_lt_succ hi

theorem Position.past_of_oneLine (h : '\n' ∉ cs) : start.past cs = ⟨0, cs.length⟩ := by
  have hall : ∀ c ∈ cs, decide (c ≠ '\n') := fun c hc => decide_eq_true (ne_of_mem_of_not_mem hc h)
  rw [past_start, List.count_eq_zero.2 h, List.rtakeWhile_eq_self_iff.2 hall]

end Places

namespace Parser

variable {σ α : Type} {m : Machine σ α} {q₀ q : σ} {parse : String → Except Failure α}
  {text : String} {pieces : List (Lexeme × List Char)} {i : Nat} {t : Token} {r : Refusal}
  {taken : Bool}

/-- A refused token is the error of the text. -/
theorem parse_of_placed (h : Reads m q₀ parse) (hp : Segments text.toList pieces)
    (ht : (placed [] false pieces)[i]? = some t)
    (hw : m.walk q₀ ((pieces.take i).map Prod.fst) = some q)
    (hr : m q t.lexeme = .refuse r taken) :
    parse text = .error (.syntaxError (r.error t)) := by
  obtain ⟨z, ts, hlex, -, hrun⟩ := h text
  obtain rfl := Except.ok.inj (hlex.symm.trans (lex_of_segments hp))
  rw [← map_lexeme_take_placed (le_of_getElem?_placed ht)] at hw
  obtain ⟨hi, ht⟩ := List.getElem?_eq_some_iff.1 ht
  rw [← List.take_append_drop i (placed [] false pieces), Machine.run_append hw,
    List.drop_eq_getElem_cons hi, ht, Machine.run, hr] at hrun
  exact hrun

/-- An error of a text is a token that is refused. -/
theorem exists_placed_of_parse (h : Reads m q₀ parse) (hm : m.Ends)
    (hp : Segments text.toList pieces) {f : Failure} (hf : parse text = .error f) :
    ∃ i t q r taken, (placed [] false pieces)[i]? = some t ∧
      m.walk q₀ ((pieces.take i).map Prod.fst) = some q ∧ m q t.lexeme = .refuse r taken ∧
      f = .syntaxError (r.error t) := by
  obtain ⟨ts, pre, t, post, q, r, taken, hlex, hts, hw, hr, hf⟩ := exists_refuse_of_parse h hm hf
  obtain rfl := Except.ok.inj (hlex.symm.trans (lex_of_segments hp))
  have ht : (placed [] false pieces)[pre.length]? = some t := by
    simp [hts]
  refine ⟨pre.length, t, q, r, taken, ht, ?_, hr, hf⟩
  rw [← map_lexeme_take_placed (le_of_getElem?_placed ht), hts, List.take_left]
  exact hw

end Parser

section Ends

variable {cs fs bs slice : List Char} {l : Lexeme} {ps ps' pieces : List (Lexeme × List Char)}

theorem Segments.eq_nil_iff (h : Segments cs pieces) : cs = [] ↔ pieces = [] := by
  cases h with
  | nil => simp
  | cons hl _ => simp [hl.ne_nil]

/-- The first piece of a text that begins with an open string, with more behind it that does not
close the string. -/
theorem exists_segments_of_open (h : l.Takes slice []) (hl : l.kind = .badString)
    (hquote : slice.head? = some '"') (hbs : '"' ∉ bs) : ∃ l' slice' more,
      Segments (slice ++ bs) ((l', slice') :: more) ∧ slice'.head? = slice.head? ∧ l'.IsBroken := by
  obtain ⟨l', ls, hls, hl'⟩ := exists_lexemes_of_open h hl hquote hbs
  obtain ⟨pieces, hpieces, hmap⟩ := exists_segments (slice ++ bs)
  have hhead : (slice ++ bs).head? = slice.head? := List.head?_append_of_ne_nil _ h.ne_nil
  rw [hls] at hmap
  generalize slice ++ bs = cs at hpieces hhead hmap
  cases hpieces with
  | nil => cases hhead.trans hquote
  | @cons _ slice' _ more htakes hmore =>
    obtain rfl := (List.cons.inj hmap).1
    rw [List.head?_append_of_ne_nil _ htakes.ne_nil] at hhead
    exact ⟨l', slice', more, .cons htakes hmore, hhead, hl'⟩

/-- With something behind it that goes on no word and closes no string, a text is cut as before up
to each of its pieces, and that piece is the same or a string that is still broken. -/
theorem Segments.exists_append (h : Segments cs (ps ++ (l, slice) :: ps'))
    (hlast : ∀ c ∈ cs.getLast?, ¬ isBlank c) (hword : ∀ b ∈ bs, ¬ isWordChar b)
    (hquote : '"' ∉ bs) : ∃ l' slice' more, Segments (cs ++ bs) (ps ++ (l', slice') :: more) ∧
      slice'.head? = slice.head? ∧ (l' = l ∨ l'.IsBroken) := by
  induction ps generalizing cs with
  | nil =>
    cases h with
    | @cons _ _ rest _ hl _ =>
      rcases hl.append_of_last hlast hword with hl' | ⟨rfl, hbad, hhead⟩
      · obtain ⟨more, hmore, -⟩ := exists_segments (rest ++ bs)
        rw [List.append_assoc]
        exact ⟨l, slice, more, .cons hl' hmore, rfl, .inl rfl⟩
      · obtain ⟨l', slice', more, hmore, hslice, hl'⟩ :=
          exists_segments_of_open hl hbad hhead hquote
        rw [List.append_nil]
        exact ⟨l', slice', more, hmore, hslice, .inr hl'⟩
  | cons piece ps ih =>
    cases h with
    | @cons k kslice rest _ hk h =>
      have hrest : rest ≠ [] := fun hnil => by simpa using h.eq_nil_iff.1 hnil
      have hk' := (hk.append_of_last hlast hword).resolve_right fun hopen => hrest hopen.1
      rw [List.getLast?_append_of_ne_nil _ hrest] at hlast
      obtain ⟨l', slice', more, hmore, hslice, hl'⟩ := ih h hlast
      rw [List.append_assoc]
      exact ⟨l', slice', more, .cons hk' hmore, hslice, hl'⟩

/-- With something behind it that goes on no word, a text that is cut into whole pieces is cut as
before. -/
theorem Segments.append (h : Segments cs pieces) (hs : ∀ l ∈ pieces.map Prod.fst, l.Spelled)
    (hlast : ∀ c ∈ cs.getLast?, ¬ isBlank c) (hword : ∀ b ∈ bs, ¬ isWordChar b)
    (hbs : Segments bs ps) : Segments (cs ++ bs) (pieces ++ ps) := by
  induction h with
  | nil => exact hbs
  | @cons l slice rest pieces hl _ ih =>
    obtain ⟨hspelled, hs⟩ := List.forall_mem_cons.1 hs
    have hl' : l.Takes slice (rest ++ bs) := (hl.append_of_last hlast hword).resolve_right
      fun hopen => Lexeme.not_isBroken_of_spelled hspelled (.inl hopen.2.1)
    rw [List.append_assoc]
    refine .cons hl' (ih hs fun c hc => hlast c ?_)
    rw [Option.mem_def, List.getLast?_append, Option.mem_def.1 hc]
    rfl

/-- Blanks in front of a text that does not begin with one are a piece of their own. -/
theorem Segments.exists_front (h : Segments cs pieces) (hfs : ∀ c ∈ fs, isBlank c)
    (hcs : ∀ c ∈ cs.head?, ¬ isBlank c) : ∃ ws, Segments (fs ++ cs) (ws ++ pieces) ∧
      ws.flatMap Prod.snd = fs ∧ ∀ l ∈ ws.map Prod.fst, l.kind = .whitespace := by
  by_cases hne : fs = []
  · subst hne
    exact ⟨[], h, rfl, List.forall_mem_nil _⟩
  · exact ⟨[(⟨.whitespace, String.ofList fs⟩, fs)], .cons (.blanks hne hfs hcs) h, by simp, by simp⟩

/-- The last piece of a text that is cut into whole pieces is a dot just if the text ends so. -/
theorem Segments.kind_eq_dot_iff (h : Segments cs (ps ++ [(l, slice)])) (hl : l.Spelled) :
    l.kind = .dot ↔ cs.getLast? = some '.' := by
  induction ps generalizing cs with
  | nil =>
    cases h with
    | cons htakes hnil =>
      cases hnil
      rw [List.append_nil]
      exact htakes.kind_eq_dot_iff hl
  | cons piece ps ih =>
    cases h with
    | @cons _ _ rest _ _ h =>
      have hrest : rest ≠ [] := fun hnil => by simpa using h.eq_nil_iff.1 hnil
      rw [List.getLast?_append_of_ne_nil _ hrest]
      exact ih h

/-- A white space character begins a run of blanks or is refused. -/
theorem exists_segments_of_white {c : Char} (hc : c ∈ cs.head?) (hwhite : isWhiteSpace c) :
    ∃ l slice more, Segments cs ((l, slice) :: more) ∧ slice.head? = some c ∧
      (l.kind = .whitespace ∧ isBlank c ∨ l.IsBroken) := by
  obtain ⟨pieces, hpieces, -⟩ := exists_segments cs
  cases hpieces with
  | nil => cases hc
  | @cons l slice rest more hl hmore =>
    rw [List.head?_append_of_ne_nil _ hl.ne_nil] at hc
    refine ⟨l, slice, more, .cons hl hmore, hc, ?_⟩
    rcases hl.broken_or_spelled with hbroken | hspelled
    · exact .inr hbroken
    · have hkind := Lexeme.kind_of_hasEdge_whiteSpace (hl.hasEdge hspelled (.inl hc)) hwhite
      exact .inl ⟨hkind, hl.isBlank_of_mem hkind (List.mem_of_mem_head? hc)⟩

end Ends

/-- A dot has no place but in the name of a keyspace. -/
theorem StatementMachine.Stage.move_dot (s : StatementMachine.Stage) (w : String) :
    s.move ⟨.dot, w⟩ = s.refuse := by
  cases s <;> rfl

namespace ProgramMachine

variable {q q' : State} {l : Lexeme} {ws ls : List Lexeme}

/-- The name of a keyspace has been read up to a dot. -/
def State.AtDot (q : State) : Prop :=
  ∃ read h text, q = .within read (.path h text true)

/-- The input may not end here. -/
def State.RefusesEnd (q : State) : Prop :=
  ∃ r taken, move q .eof = .refuse r taken

theorem atDot_iff (hm : move q l = .go q') : q'.AtDot ↔ l.kind = .dot := by
  constructor
  · rintro ⟨read, h, text, rfl⟩
    obtain ⟨q₀, hq₀⟩ := exists_move_of_within hm
    exact StatementMachine.kind_of_path hq₀
  · obtain ⟨kind, w⟩ := l
    rintro ⟨⟩
    cases q with
    | between read =>
      simp only [move, StatementMachine.Stage.move_dot] at hm
      cases hm
    | within read q =>
      cases q with
      | stage s =>
        simp only [move, StatementMachine.move, StatementMachine.Stage.move_dot] at hm
        cases hm
      | path h text dotted =>
        cases dotted with
        | true => cases hm
        | false =>
          cases hm
          exact ⟨read, h, _, rfl⟩
    | closing read => cases hm

/-- Behind a dot nothing but an identifier may come. -/
theorem State.AtDot.exists_refuse (hq : q.AtDot) (hl : l.kind ≠ .identifier) :
    ∃ r taken, move q l = .refuse r taken := by
  obtain ⟨read, h, text, rfl⟩ := hq
  obtain ⟨kind, w⟩ := l
  cases kind with
  | identifier => exact absurd rfl hl
  | _ => exact ⟨_, _, rfl⟩

/-- A blank may come where the end may not, but not behind a dot, and the end is refused behind
it. -/
theorem State.RefusesEnd.exists_go (hq : q.RefusesEnd) (hdot : ¬ q.AtDot)
    (hl : l.kind = .whitespace) : ∃ q', move q l = .go q' ∧ q'.RefusesEnd := by
  obtain ⟨kind, w⟩ := l
  cases hl
  obtain ⟨r, taken, hr⟩ := hq
  cases q with
  | between read | closing read => cases hr
  | within read q =>
    cases q with
    | stage s => exact ⟨_, rfl, r, taken, hr⟩
    | path h text dotted =>
      cases dotted with
      | true => exact absurd ⟨read, h, text, rfl⟩ hdot
      | false => cases h <;> exact ⟨_, rfl, r, taken, hr⟩

theorem State.RefusesEnd.exists_walk (hq : q.RefusesEnd) (hdot : ¬ q.AtDot)
    (hws : ∀ l ∈ ws, l.kind = .whitespace) : ∃ q', move.walk q ws = some q' ∧ q'.RefusesEnd := by
  induction ws generalizing q with
  | nil => exact ⟨q, rfl, hq⟩
  | cons w ws ih =>
    obtain ⟨hw, hws⟩ := List.forall_mem_cons.1 hws
    obtain ⟨q', hm, hq'⟩ := hq.exists_go hdot hw
    have hdot' : ¬ q'.AtDot := fun h => by cases hw.symm.trans ((atDot_iff hm).1 h)
    obtain ⟨q'', hwalk, hq''⟩ := ih hq' hdot' hws
    exact ⟨q'', Machine.walk_cons_iff.2 ⟨q', hm, hwalk⟩, hq''⟩

theorem walk_blanks (hws : ∀ l ∈ ws, l.kind = .whitespace) (read : List Statement) :
    move.walk (.between read) ws = some (.between read) := by
  induction ws with
  | nil => rfl
  | cons w ws ih =>
    obtain ⟨hw, hws⟩ := List.forall_mem_cons.1 hws
    have hmove : move (.between read) w = .go (.between read) := by simp only [move, hw]
    exact Machine.walk_cons_iff.2 ⟨_, hmove, ih hws⟩

/-- A program does not begin with a string. -/
theorem walk_of_isQuoted (hl : l.kind.isQuoted) (read : List Statement) (ls : List Lexeme) :
    move.walk (.between read) (l :: ls) = none := by
  obtain ⟨kind, w⟩ := l
  cases kind with
  | str | badString | badEscape => rfl
  | _ => cases hl

end ProgramMachine

/-- Where a piece is placed that has these characters before it. -/
def Position.ofPiece (behind slice : List Char) : Position :=
  start.past (if slice.head? = some '"' then behind.dropLast else behind)

theorem Position.ofPiece_of_oneLine {behind slice : List Char} (h : '\n' ∉ behind) :
    ofPiece behind slice =
      ⟨0, if slice.head? = some '"' then behind.length - 1 else behind.length⟩ := by
  unfold ofPiece
  split
  · rw [past_of_oneLine fun hmem => h (List.dropLast_subset _ hmem), List.length_dropLast]
  · rw [past_of_oneLine h]

theorem TokenKind.eq_end_of_display {kind : TokenKind} (h : kind.display = endOfInput.display) :
    kind = .endOfInput := by
  cases kind with
  | endOfInput => rfl
  | keyword k => cases k <;> exact absurd h (by decide)
  | _ => exact absurd h (by decide)

theorem Token.describe_eq_end_iff {t : Token} :
    t.describe = TokenKind.endOfInput.display ↔ t.kind = .endOfInput := by
  unfold describe
  split
  · rename_i hkind
    refine ⟨fun h => ?_, fun h => by cases hkind.symm.trans h⟩
    have hfirst := congrArg (·.toList.head?) h
    simp [TokenKind.display] at hfirst
  · exact ⟨TokenKind.eq_end_of_display, congrArg TokenKind.display⟩

theorem Position.ofPiece_of_white {behind slice : List Char} {c : Char} (h : '\n' ∉ behind)
    (hslice : slice.head? = some c) (hc : isWhiteSpace c) :
    ofPiece behind slice = ⟨0, behind.length⟩ := by
  have hquote : slice.head? ≠ some '"' := by
    rintro hquote
    cases hslice.symm.trans hquote
    cases hc
  rw [ofPiece_of_oneLine h, if_neg hquote]

/-- The error is that of finding the end of the input. -/
def SyntaxError.FoundEnd (e : SyntaxError) : Prop :=
  ∃ expected, e.cause = .unexpected TokenKind.endOfInput.display expected

section Refused

variable {line text : String} {cs fs slice : List Char} {ps ps' : List (Lexeme × List Char)}
  {pieces : List (Lexeme × List Char)} {l : Lexeme} {q : ProgramMachine.State} {r : Refusal}
  {taken : Bool} {t : Token} {e : SyntaxError}

theorem foundEnd_iff (hr : ProgramMachine.move q t.lexeme = .refuse r taken) :
    (r.error t).FoundEnd ↔ t.kind = .endOfInput := by
  obtain ⟨-, rfl | ⟨c, rfl, hc⟩⟩ := ProgramMachine.guides_move.refuses hr
  · rw [← Token.describe_eq_end_iff]
    exact ⟨fun ⟨_, hcause⟩ => (SyntaxError.Cause.unexpected.inj hcause).1,
      fun hdescribe => ⟨q.expected.map Expectation.text, hdescribe ▸ rfl⟩⟩
  · rw [Token.kind_lexeme] at hc
    exact ⟨fun ⟨_, hcause⟩ => (nomatch hcause), fun hend => by cases c <;> cases hc.symm.trans hend⟩

/-- The error of a line that has blanks in front of a piece that is refused. -/
theorem exists_error_of_piece (hline : line.toList = fs ++ cs) (hfs : ∀ c ∈ fs, isBlank c)
    (hcs : ∀ c ∈ cs.head?, ¬ isBlank c) (hp : Segments cs (ps ++ (l, slice) :: ps'))
    (hw : ProgramMachine.move.walk (.between []) (ps.map Prod.fst) = some q)
    (hr : ProgramMachine.move q l = .refuse r taken) :
    ∃ f, parseProgram line = .error (.syntaxError f) ∧
      f.position = .ofPiece (fs ++ ps.flatMap Prod.snd) slice := by
  obtain ⟨ws, hws, rfl, hblank⟩ := hp.exists_front hfs hcs
  rw [← hline] at hws
  have hi : (ws ++ (ps ++ (l, slice) :: ps'))[(ws ++ ps).length]? = some (l, slice) := by
    simp
  have htake : (ws ++ (ps ++ (l, slice) :: ps')).take (ws ++ ps).length = ws ++ ps := by
    rw [← List.append_assoc, List.take_left]
  have ht := getElem?_placed [] false hi
  rw [htake] at ht
  refine ⟨_, Parser.parse_of_placed reads_program hws ht ?_ hr, ?_⟩
  · rw [htake, List.map_append, Machine.walk_append (ProgramMachine.walk_blanks hblank [])]
    exact hw
  · rw [Refusal.position_error, List.flatMap_append, List.nil_append, Position.ofPiece]

/-- The error of a line that is refused at its end. -/
theorem exists_error_of_end (hone : OneLine line) (hline : line.toList = fs ++ cs)
    (hfs : ∀ c ∈ fs, isBlank c) (hcs : ∀ c ∈ cs.head?, ¬ isBlank c)
    (hp : Segments cs (ps ++ [(l, slice)]))
    (hw : ProgramMachine.move.walk (.between []) ((ps ++ [(l, slice)]).map Prod.fst) = some q)
    (hq : q.RefusesEnd) : ∃ f, parseProgram line = .error (.syntaxError f) ∧
      f.position = ⟨0, line.toList.length + if l.overruns slice then 1 else 0⟩ := by
  obtain ⟨r, taken, hr⟩ := hq
  obtain ⟨ws, hws, rfl, hblank⟩ := hp.exists_front hfs hcs
  rw [← hline] at hws
  have ht := getElem?_placed_length [] false (ws ++ (ps ++ [(l, slice)]))
  rw [List.nil_append, hws.flatMap_eq, ← List.append_assoc, List.getLast?_concat,
    List.append_assoc] at ht
  refine ⟨_, Parser.parse_of_placed reads_program hws ht ?_ hr, ?_⟩
  · rw [List.take_length, List.map_append,
      Machine.walk_append (ProgramMachine.walk_blanks hblank [])]
    exact hw
  · rw [Refusal.position_error, Position.past_of_oneLine hone, Option.elim_some]
    split <;> rfl

/-- A text is refused at one of its pieces or at its end. -/
theorem refused_at_piece_or_end (hp : Segments text.toList pieces)
    (he : parseProgram text = .error (.syntaxError e)) :
    (∃ ps l slice ps' q r taken, pieces = ps ++ (l, slice) :: ps' ∧
      ProgramMachine.move.walk (.between []) (ps.map Prod.fst) = some q ∧
      ProgramMachine.move q l = .refuse r taken ∧ ¬ e.FoundEnd) ∨
    ∃ q, ProgramMachine.move.walk (.between []) (pieces.map Prod.fst) = some q ∧
      q.RefusesEnd ∧ e.FoundEnd := by
  obtain ⟨i, t, q, r, taken, ht, hw, hr, herror⟩ :=
    Parser.exists_placed_of_parse reads_program ProgramMachine.ends_move hp he
  cases herror
  rcases Nat.lt_or_eq_of_le (le_of_getElem?_placed ht) with hi | rfl
  · rcases hpiece : pieces[i] with ⟨l, slice⟩
    have hsplit : pieces = pieces.take i ++ (l, slice) :: pieces.drop (i + 1) := by
      rw [← hpiece, ← List.drop_eq_getElem_cons hi, List.take_append_drop]
    rw [getElem?_placed [] false (List.getElem?_eq_some_iff.2 ⟨hi, hpiece⟩)] at ht
    cases ht
    refine .inl ⟨_, l, slice, _, q, r, taken, hsplit, hw, hr, fun hend => ?_⟩
    exact hp.kind_ne_endOfInput l (List.mem_map.2 ⟨_, List.mem_of_getElem hpiece, rfl⟩)
      ((foundEnd_iff hr).1 hend)
  · rw [getElem?_placed_length] at ht
    cases ht
    rw [List.take_length] at hw
    exact .inr ⟨q, hw, ⟨r, taken, hr⟩, (foundEnd_iff hr).2 rfl⟩

/-- A program that begins with a string is refused there. -/
theorem Segments.eq_nil_of_walk (hp : Segments text.toList (ps ++ ps'))
    (hquote : text.toList.head? = some '"')
    (hw : ProgramMachine.move.walk (.between []) (ps.map Prod.fst) = some q) : ps = [] := by
  cases ps with
  | nil => rfl
  | cons piece ps =>
    obtain ⟨l, slice⟩ := piece
    have hslice : slice.head? = some '"' := by
      rw [← hquote, ← hp.flatMap_eq]
      exact (List.head?_append_of_ne_nil _ (hp.ne_nil (l, slice) (by simp))).symm
    have hquoted : l.kind.isQuoted := (hp.isQuoted_iff (i := 0) rfl).2 hslice
    cases (ProgramMachine.walk_of_isQuoted hquoted [] _).symm.trans hw

end Refused

end KeyspaceQuery
