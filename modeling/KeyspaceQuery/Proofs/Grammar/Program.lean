import KeyspaceQuery.Proofs.Grammar.Statement
import KeyspaceQuery.Proofs.Machine.Program

/-! What a program is, by the grammar and by the machine. A statement inside a program is told by
its body, and what closes it is read behind it whether the statement took it or left it. -/

namespace KeyspaceQuery

open Grammar

namespace ProgramMachine

variable {q : StatementMachine.State} {read : List Statement} {ls mid rest : List Lexeme}

abbrev State.answer (q : State) : List Lexeme → Option (Program × List Lexeme) := move.answer q

/-- Between statements and behind one that is not closed, a closing symbol is read alike. -/
inductive State.Open (read : List Statement) : State → Prop
  | between : Open read (.between read)
  | closing : Open read (.closing read)

section Open

variable {p : State} (hp : p.Open read)

include hp

theorem answer_cons_blank {l : Lexeme} (hl : l.kind = .whitespace) :
    p.answer (l :: ls) = p.answer ls := by
  cases hp <;> simp only [State.answer, Machine.answer, move, close, hl] <;> rfl

theorem answer_of_endOfInput (h : Mark .endOfInput ls rest) :
    p.answer ls = some (.ofList read, rest) := by
  obtain ⟨w, h⟩ := h
  induction h with
  | here => cases hp <;> rfl
  | blank hl _ ih => rw [answer_cons_blank hp hl, ih]

theorem answer_of_semicolon (h : Mark .semicolon ls mid) :
    p.answer ls = (State.between read).answer mid := by
  obtain ⟨w, h⟩ := h
  induction h with
  | here => cases hp <;> rfl
  | blank hl _ ih => rw [answer_cons_blank hp hl, ih]

end Open

theorem terminator_cons_blank {l : Lexeme} (hl : l.kind = .whitespace) (h : Terminator ls rest) :
    Terminator (l :: ls) rest :=
  h.imp (.blank hl) (.blank hl)

theorem terminator_of_answer_closing {a : Program × List Lexeme}
    (h : (State.closing read).answer ls = some a) : ∃ rest, Terminator ls rest := by
  induction ls with
  | nil => cases h
  | cons l ls ih =>
    obtain ⟨kind, w⟩ := l
    cases kind with
    | whitespace =>
      obtain ⟨rest, ht⟩ := ih h
      exact ⟨rest, terminator_cons_blank rfl ht⟩
    | endOfInput => exact ⟨ls, .inl ⟨w, .here⟩⟩
    | semicolon => exact ⟨ls, .inr ⟨w, .here⟩⟩
    | _ => cases h

/-- Between statements there is a closing symbol, or else a statement begins. -/
theorem terminator_or_answer_within {a : Program × List Lexeme}
    (h : (State.between read).answer ls = some a) :
    (∃ rest, Terminator ls rest) ∨ (State.within read (.stage .start)).answer ls = some a := by
  induction ls with
  | nil => cases h
  | cons l ls ih =>
    obtain ⟨kind, w⟩ := l
    cases kind with
    | whitespace =>
      refine (ih h).imp ?_ id
      rintro ⟨rest, ht⟩
      exact ⟨rest, terminator_cons_blank rfl ht⟩
    | endOfInput => exact .inl ⟨ls, .inl ⟨w, .here⟩⟩
    | semicolon => exact .inl ⟨ls, .inr ⟨w, .here⟩⟩
    | _ => exact .inr h

theorem answer_between_of_word {k : Keyword} (h : Word k ls mid) :
    (State.between read).answer ls = (State.within read (.stage .start)).answer ls := by
  obtain ⟨w, h⟩ := h
  induction h with
  | here => rfl
  | blank hl _ ih =>
    rw [answer_cons_blank .between hl, ih]
    simp only [State.answer, Machine.answer, move, StatementMachine.move,
      StatementMachine.Stage.move, hl, if_true]
    rfl

theorem answer_between_of_body {s : Statement} (h : Body s ls mid) :
    (State.between read).answer ls = (State.within read (.stage .start)).answer ls := by
  cases h with
  | create h | drop h | select h | delete h | upsert h => exact answer_between_of_word h

/-- The answer of the program behind that of one of its statements. -/
def resumeAnswer (read : List Statement) : Statement × List Lexeme →
    Option (Program × List Lexeme)
  | (s, rest) =>
    if s.nodeType = .dropKeyspace then (State.closing (read ++ [s])).answer rest
    else if rest = [] then some (.ofList (read ++ [s]), [])
    else (State.between (read ++ [s])).answer rest

theorem answer_within (hls : Terminated ls) :
    (State.within read q).answer ls =
      (StatementMachine.move.answer q ls).bind (resumeAnswer read) := by
  induction ls generalizing q with
  | nil => rfl
  | cons l ls ih =>
    simp only [State.answer, Machine.answer, move]
    cases hm : StatementMachine.move q l with
    | go q' => exact ih (StatementMachine.ends_move.terminated hm hls)
    | done s taken =>
      simp only [Move.answer, Option.bind_some, resumeAnswer]
      rcases StatementMachine.done_cases hm with ⟨rfl, hs, hk | hk⟩ | ⟨rfl, hs⟩
      · obtain rfl := eq_nil_of_terminated hls hk
        rw [if_neg hs, if_pos rfl, if_pos rfl, lift, finish, if_pos hk]
        rfl
      · have hne : ls ≠ [] := by
          rcases terminated_cons_iff.1 hls with ⟨rfl, -⟩ | ⟨-, hls⟩
          · cases hk
          · exact hls.ne_nil
        rw [if_neg hs, if_pos rfl, if_neg hne, lift, finish, if_neg (by simp [hk])]
      · rw [if_pos hs]
        rfl
    | refuse r taken => rfl

theorem Terminated.eq_nil_of_mark (hls : Terminated ls) (h : Mark .endOfInput ls rest) :
    rest = [] := by
  obtain ⟨w, h⟩ := h
  exact eq_nil_of_terminated (h.leaves_cons.terminated hls) rfl

/-- Whether a statement took what closes it or not, the program goes on as if it had not. -/
theorem resumeAnswer_of_closed {s : Statement} (hs : ∀ p, s ≠ .drop p)
    (hls : Terminated ls) (h : Terminator ls rest) :
    resumeAnswer read (s, rest) = (State.closing (read ++ [s])).answer ls := by
  have hkind : s.nodeType ≠ .dropKeyspace := by
    simpa [Statement.nodeType_eq_dropKeyspace_iff] using hs
  simp only [resumeAnswer, if_neg hkind]
  rcases h with h | h
  · obtain rfl := Terminated.eq_nil_of_mark hls h
    rw [if_pos rfl, answer_of_endOfInput .closing h]
  · rw [if_neg (h.leaves.terminated hls).ne_nil, answer_of_semicolon .closing h]

theorem answer_within_start_iff {a : Program × List Lexeme} (hls : Readable ls) :
    (State.within read (.stage .start)).answer ls = some a ↔
      ∃ s mid, Body s ls mid ∧ (State.closing (read ++ [s])).answer mid = some a := by
  rw [answer_within hls.terminated]
  refine ⟨?_, ?_⟩
  · intro h
    obtain ⟨⟨s, rest⟩, hs, h⟩ := Option.bind_eq_some_iff.1 h
    rcases (StatementMachine.answer_start_iff hls).1 hs with ⟨hd, hb, ht⟩ | hb
    · rw [resumeAnswer_of_closed hd (hb.leaves.terminated hls.terminated) ht] at h
      exact ⟨s, _, hb, h⟩
    · exact ⟨_, rest, hb, h⟩
  · rintro ⟨s, mid, hb, h⟩
    by_cases hd : ∃ p, s = .drop p
    · obtain ⟨p, rfl⟩ := hd
      exact Option.bind_eq_some_iff.2
        ⟨(.drop p, mid), (StatementMachine.answer_start_iff hls).2 (.drop hb), h⟩
    · obtain ⟨rest, ht⟩ := terminator_of_answer_closing h
      refine Option.bind_eq_some_iff.2 ⟨(s, rest), ?_, ?_⟩
      · exact (StatementMachine.answer_start_iff hls).2 (.closed (not_exists.1 hd) hb ht)
      · rw [resumeAnswer_of_closed (not_exists.1 hd) (hb.leaves.terminated hls.terminated) ht]
        exact h

/-- What the machine answers is what the grammar derives. -/
theorem answer_between_iff {a : Program × List Lexeme} (hls : Readable ls) :
    (State.between read).answer ls = some a ↔
      ∃ ss, Sequence ss ls ∧ a = (.ofList (read ++ ss), []) := by
  refine ⟨?_, ?_⟩
  · induction hn : ls.length using Nat.strong_induction_on generalizing read ls with
    | _ n ih =>
      intro h
      rcases terminator_or_answer_within h with ⟨rest, hm | hm⟩ | h
      · obtain rfl := Terminated.eq_nil_of_mark hls.terminated hm
        rw [answer_of_endOfInput .between hm] at h
        exact ⟨[], .nil hm, by simpa using (Option.some.inj h).symm⟩
      · rw [answer_of_semicolon .between hm] at h
        obtain ⟨ss, hss, ha⟩ := ih _ (hn ▸ hm.length_lt) (hls.leaves hm.leaves) rfl h
        exact ⟨ss, .skip hm hss, ha⟩
      · obtain ⟨s, mid, hb, h⟩ := (answer_within_start_iff hls).1 h
        obtain ⟨rest, hm | hm⟩ := terminator_of_answer_closing h
        · obtain rfl := Terminated.eq_nil_of_mark (hb.leaves.terminated hls.terminated) hm
          rw [answer_of_endOfInput .closing hm] at h
          exact ⟨[s], .last hb hm, (Option.some.inj h).symm⟩
        · rw [answer_of_semicolon .closing hm] at h
          have hlt : rest.length < n :=
            hn ▸ Nat.lt_of_lt_of_le hm.length_lt hb.leaves.suffix.length_le
          obtain ⟨ss, hss, ha⟩ :=
            ih _ hlt ((hls.leaves hb.leaves).leaves hm.leaves) rfl h
          exact ⟨s :: ss, .cons hb hm hss, by simpa using ha⟩
  · rintro ⟨ss, h, rfl⟩
    induction h generalizing read with
    | nil hm => rw [answer_of_endOfInput .between hm, List.append_nil]
    | last hb hm =>
      rw [answer_between_of_body hb, answer_within_start_iff hls]
      exact ⟨_, _, hb, answer_of_endOfInput .closing hm⟩
    | skip hm _ ih => rw [answer_of_semicolon .between hm, ih (hls.leaves hm.leaves)]
    | cons hb hm _ ih =>
      rw [answer_between_of_body hb, answer_within_start_iff hls]
      refine ⟨_, _, hb, ?_⟩
      rw [answer_of_semicolon .closing hm, ih ((hls.leaves hb.leaves).leaves hm.leaves)]
      simp

end ProgramMachine

theorem reads_program : Parser.Reads ProgramMachine.move (.between []) parseProgram :=
  Parser.reads_of_tracks fun _ => ProgramMachine.tracks_program

theorem parseProgram_eq_ok_iff {text : String} {p : Program} :
    parseProgram text = .ok p ↔ ∃ ss, Sequence ss (lexemes text.toList) ∧ p = .ofList ss := by
  rw [Parser.parse_eq_ok_iff reads_program ProgramMachine.ends_move]
  refine ⟨?_, ?_⟩
  · rintro ⟨rest, h⟩
    obtain ⟨ss, hss, ha⟩ := (ProgramMachine.answer_between_iff (readable_lexemes _)).1 h
    exact ⟨ss, hss, congrArg Prod.fst ha⟩
  · rintro ⟨ss, hss, rfl⟩
    exact ⟨[], (ProgramMachine.answer_between_iff (readable_lexemes _)).2 ⟨ss, hss, rfl⟩⟩

section Empty

/-- Lexemes of these kinds hold no statement. -/
def Lexeme.IsFiller (l : Lexeme) : Prop :=
  l.kind = .whitespace ∨ l.kind = .semicolon ∨ l.kind = .endOfInput

theorem Lexeme.not_isFiller_of_isWord {l : Lexeme} (h : l.kind.isWord) : ¬ l.IsFiller := by
  rintro (hk | hk | hk) <;> rw [hk] at h <;> cases h

theorem isFiller_of_mark {kind : TokenKind} {ls rest : List Lexeme} (h : Mark kind ls rest)
    (hk : kind = .semicolon ∨ kind = .endOfInput) (hrest : ∀ l ∈ rest, l.IsFiller) :
    ∀ l ∈ ls, l.IsFiller := by
  obtain ⟨w, h⟩ := h
  induction h with
  | here => exact List.forall_mem_cons.2 ⟨.inr hk, hrest⟩
  | blank hl _ ih => exact List.forall_mem_cons.2 ⟨.inl hl, ih hrest⟩

theorem Grammar.Body.blank {l : Lexeme} (hl : l.kind = .whitespace) {s : Statement}
    {ls rest : List Lexeme} (h : Body s ls rest) : Body s (l :: ls) rest := by
  cases h with
  | create h hk hp hw hks => exact .create (h.blank hl) hk hp hw hks
  | drop h hk hp => exact .drop (h.blank hl) hk hp
  | select h hf hp hw hfs => exact .select (h.blank hl) hf hp hw hfs
  | delete h hf hp hw hfs => exact .delete (h.blank hl) hf hp hw hfs
  | upsert h hv hi hp hw hfs => exact .upsert (h.blank hl) hv hi hp hw hfs

theorem Grammar.Sequence.blank {l : Lexeme} (hl : l.kind = .whitespace) {ss : List Statement}
    {ls : List Lexeme} (h : Sequence ss ls) : Sequence ss (l :: ls) := by
  cases h with
  | nil hm => exact .nil (hm.blank hl)
  | last hb hm => exact .last (hb.blank hl) hm
  | skip hm hss => exact .skip (hm.blank hl) hss
  | cons hb hm hss => exact .cons (hb.blank hl) hm hss

theorem sequence_nil_iff {ls : List Lexeme} (hls : Terminated ls) :
    Sequence [] ls ↔ ∀ l ∈ ls, l.IsFiller := by
  refine ⟨?_, ?_⟩
  · intro h
    generalize hss : ([] : List Statement) = ss at h
    induction h with
    | nil h => exact isFiller_of_mark h (.inr rfl) (by simp)
    | skip h _ ih => exact isFiller_of_mark h (.inl rfl) (ih (h.leaves.terminated hls) hss)
    | _ => cases hss
  · intro h
    induction hls with
    | eof => exact .nil ⟨"", .here⟩
    | @cons l ls hl hls ih =>
      obtain ⟨hf, hfs⟩ := List.forall_mem_cons.1 h
      rcases hf with hk | hk | hk
      · exact (ih hfs).blank hk
      · obtain ⟨kind, w⟩ := l
        cases hk
        exact .skip ⟨w, .here⟩ (ih hfs)
      · exact absurd hk hl

/-- What a text without statements is made of. -/
def fillers : List Char := [' ', '\t', '\r', '\n', ';']

theorem mem_fillers_of_isBlank {c : Char} (h : Token.isBlank c) : c ∈ fillers := by
  simp only [Token.isBlank, Bool.or_eq_true, beq_iff_eq] at h
  rcases h with ((rfl | rfl) | rfl) | rfl <;> decide

theorem isFiller_symbol_iff {c : Char} (hb : ¬ Token.isBlank c) :
    (Lexeme.symbol c).IsFiller ↔ c ∈ fillers := by
  by_cases hc : c = ';'
  · subst hc
    exact iff_of_true (.inr (.inl rfl)) (by decide)
  · refine iff_of_false (fun hf => ?_) fun hf => ?_
    · unfold Lexeme.symbol at hf
      split at hf <;> simp_all [Lexeme.IsFiller]
    · simp only [fillers, List.mem_cons, List.not_mem_nil, or_false, hc] at hf
      rcases hf with rfl | rfl | rfl | rfl <;> exact hb (by decide)

theorem forall_isFiller_lexemes_iff {cs : List Char} :
    (∀ l ∈ lexemes cs, l.IsFiller) ↔ ∀ c ∈ cs, c ∈ fillers := by
  fun_induction lexemes cs with
  | case1 => simp [Lexeme.IsFiller, Lexeme.eof]
  | case2 c cs ih =>
    rw [List.forall_mem_cons, List.forall_mem_cons, ih]
    induction c using Lexeme.cut_cases with
    | blank c h =>
      rw [Lexeme.cut_blank h]
      refine and_congr ⟨fun _ => mem_fillers_of_isBlank h, fun _ => .inl rfl⟩ ?_
      conv_rhs => rw [← List.takeWhile_append_dropWhile (p := Token.isBlank) (l := cs)]
      rw [List.forall_mem_append]
      refine ⟨fun h => ⟨fun d hd => mem_fillers_of_isBlank ?_, h⟩, And.right⟩
      exact List.all_eq_true.1 List.all_takeWhile d hd
    | word c h =>
      rw [Lexeme.cut_word h]
      refine iff_of_false (fun hf => ?_) fun hf => ?_
      · exact Lexeme.not_isFiller_of_isWord (TokenKind.isWord_ofWord _) hf.1
      · have hc : c ∈ fillers := hf.1
        simp only [fillers, List.mem_cons, List.not_mem_nil, or_false] at hc
        rcases hc with rfl | rfl | rfl | rfl | rfl <;> exact absurd h (by decide)
    | quote =>
      rw [Lexeme.cut_quote]
      refine iff_of_false (fun hf => ?_) fun hf => absurd hf.1 (by decide)
      rcases Lexeme.kind_stringEnd (Lexeme.quoted cs).1.2 with h | h | h <;>
        simp [Lexeme.IsFiller, h] at hf
    | symbol c hb hw hq =>
      rw [Lexeme.cut_symbol hb hw hq]
      exact and_congr_left fun _ => isFiller_symbol_iff hb

end Empty

/-- A text is parsed as a program if and only if all of its tokens are a sequence of statements, and
the program has just those. There are none if and only if the text has nothing but blanks and
semicolons. -/
theorem parseProgram_ok_iff_sequence (text : String) : ∃ ts, lex text = .ok ts ∧
    (∀ p, parseProgram text = .ok p ↔ ∃ ss, Sequence ss (ts.map Token.lexeme) ∧
      (ss = [] ∧ p = .empty ∨ ss ≠ [] ∧ p = .statements ss)) ∧
    (∀ list, parseProgram text = .ok (.statements list) → list ≠ []) ∧
    (parseProgram text = .ok .empty ↔ ∀ c ∈ text.toList, c ∈ fillers) := by
  obtain ⟨ts, hlex, hts⟩ := Parser.lex_of_reads reads_program text
  refine ⟨ts, hlex, fun p => ?_, fun list h => ?_, ?_⟩
  · simp only [hts, parseProgram_eq_ok_iff, Program.eq_ofList_iff]
  · obtain ⟨ss, -, hp⟩ := parseProgram_eq_ok_iff.1 h
    cases ss with
    | nil => cases hp
    | cons s ss =>
      cases hp
      exact List.cons_ne_nil s ss
  · rw [parseProgram_eq_ok_iff, ← forall_isFiller_lexemes_iff,
      ← sequence_nil_iff (terminated_lexemes _)]
    refine ⟨?_, ?_⟩
    · rintro ⟨ss, hss, hp⟩
      cases ss with
      | nil => exact hss
      | cons s ss => cases hp
    · exact fun h => ⟨[], h, rfl⟩

end KeyspaceQuery
