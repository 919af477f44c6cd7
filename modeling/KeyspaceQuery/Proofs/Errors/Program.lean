import KeyspaceQuery.Proofs.Errors.Statement
import KeyspaceQuery.Proofs.Grammar.Program

/-! What the states of a program expect. Inside a statement that is what the statement expects, and
where it expects nothing more, what closes it. Of both parsers the errors point at the first token
that cannot be right. -/

namespace KeyspaceQuery

namespace StatementMachine

/-- A statement that expects nothing more is a `DROP` behind its keyspace. -/
theorem move_of_expected_eq_nil {q : State} (h : q.expected = []) :
    ∃ s, s.nodeType = .dropKeyspace ∧
      ∀ l : Lexeme, l.kind ≠ .dot → l.kind ≠ .identifier → move q l = .done s false := by
  cases q with
  | stage s => exact absurd h s.expected_ne_nil
  | path hd text dotted =>
    cases dotted with
    | true => cases h
    | false =>
      cases hs : hd.behind ⟨text⟩ with
      | some s =>
        rw [State.expected_path hs] at h
        exact absurd h s.expected_ne_nil
      | none =>
        refine ⟨.drop ⟨text⟩, rfl, fun l hdot hid => ?_⟩
        rw [move_path hdot hid, Head.leave, hs]

theorem expected_eq_nil_of_left {q : State} {l : Lexeme} {s : Statement}
    (h : move q l = .done s false) : q.expected = [] := by
  cases q with
  | stage q => cases (Stage.closes_of_move h).taken
  | path hd text dotted =>
    simp only [move] at h
    split at h
    · split at h <;> cases h
    · cases h
    · cases dotted with
      | true => cases h
      | false =>
        simp only [Bool.false_eq_true, if_false, Head.leave] at h
        cases hs : hd.behind ⟨text⟩ with
        | some s =>
          rw [hs] at h
          cases (Stage.closes_of_move h).taken
        | none => exact State.expected_path_none hs

end StatementMachine

namespace ProgramMachine

open StatementMachine (Finishes Settled)

def State.expected : State → List Expectation
  | between _ => Expected.statement
  | within _ q => if q.expected = [] then Expected.terminator else q.expected
  | closing _ => Expected.terminator

variable {read : List Statement} {l : Lexeme} {v : Move StatementMachine.State Statement}

theorem refuse_of_close {r : Refusal} {taken : Bool} (h : close read l = .refuse r taken) :
    r = .expected Expected.terminator := by
  unfold close at h
  split at h <;> cases h
  rfl

theorem refuse_of_lift {r : Refusal} {taken : Bool} (h : lift read l v = .refuse r taken) :
    v = .refuse r taken ∨ ∃ s, v = .done s false ∧ r = .expected Expected.terminator := by
  cases v with
  | go q => cases h
  | done s t =>
    cases t with
    | true =>
      simp only [lift, finish] at h
      split at h <;> cases h
    | false => exact .inr ⟨s, rfl, refuse_of_close h⟩
  | refuse r' t =>
    cases h
    exact .inl rfl

theorem refuses_of_move {q : State} {r : Refusal} {taken : Bool} (h : move q l = .refuse r taken) :
    q.expected ≠ [] ∧ (r = .expected q.expected ∨ ∃ c, r = .notAllowed c ∧ l.kind = c.kind) := by
  cases q with
  | between read =>
    refine ⟨List.cons_ne_nil _ _, ?_⟩
    simp only [move] at h
    split at h
    · cases h
    · cases h
    · cases h
    · rcases refuse_of_lift h with hv | ⟨s, hv, -⟩
      · exact StatementMachine.Stage.refuses_of_move hv
      · cases (StatementMachine.Stage.closes_of_move hv).taken
  | within read q =>
    simp only [move] at h
    simp only [State.expected]
    rcases refuse_of_lift h with hv | ⟨s, hv, rfl⟩
    · have := StatementMachine.refuses_of_move hv
      rwa [if_neg this.1]
    · rw [if_pos (StatementMachine.expected_eq_nil_of_left hv)]
      exact ⟨List.cons_ne_nil _ _, .inl rfl⟩
  | closing read => exact ⟨List.cons_ne_nil _ _, .inl (refuse_of_close h)⟩

theorem not_isBroken_of_closing {l : Lexeme} (h : l.kind = .endOfInput ∨ l.kind = .semicolon) :
    ¬ l.IsBroken := by
  rintro (hb | hb | hb) <;> rw [hb] at h <;> rcases h with h | h <;> cases h

theorem not_isBroken_of_close {q : State} (h : close read l = .go q) : ¬ l.IsBroken := by
  rintro (hb | hb | hb) <;> simp [close, hb] at h

theorem not_isBroken_of_lift {q : StatementMachine.State} {q' : State}
    (h : lift read l (StatementMachine.move q l) = .go q') : ¬ l.IsBroken := by
  cases hv : StatementMachine.move q l with
  | go q₁ => exact StatementMachine.not_isBroken_of_move hv
  | done s taken =>
    rcases StatementMachine.done_cases hv with ⟨-, -, hk⟩ | ⟨rfl, -⟩
    · exact not_isBroken_of_closing hk
    · rw [hv] at h
      exact not_isBroken_of_close h
  | refuse r taken => rw [hv] at h; cases h

theorem not_isBroken_of_move {q q' : State} (h : move q l = .go q') : ¬ l.IsBroken := by
  cases q with
  | between read =>
    simp only [move] at h
    split at h
    · rename_i hk
      rintro (hb | hb | hb) <;> cases hk.symm.trans hb
    · cases h
    · exact not_isBroken_of_closing (.inr ‹_›)
    · exact not_isBroken_of_lift (q := .stage .start) h
  | within read q => exact not_isBroken_of_lift h
  | closing read => exact not_isBroken_of_close h

theorem completes_open {q : State} (h : q.Open read) : move.Completes q :=
  ⟨[], by simp, _, answer_of_endOfInput h ⟨"", .here⟩⟩

theorem terminated_append_eof {ls : List Lexeme} (h : ∀ l ∈ ls, l.kind ≠ .endOfInput) :
    Terminated (ls ++ [.eof]) := by
  induction ls with
  | nil => exact .eof
  | cons l ls ih =>
    obtain ⟨hl, hls⟩ := List.forall_mem_cons.1 h
    exact .cons hl (ih hls)

/-- The end of the input closes what a statement leaves, and the program with it. -/
theorem exists_resumeAnswer {a : Statement × List Lexeme} (h : Settled a)
    (read : List Statement) : ∃ b, resumeAnswer read a = some b := by
  obtain ⟨s, rest⟩ := a
  have hmark : Grammar.Mark .endOfInput [.eof] [] := ⟨"", .here⟩
  simp only [resumeAnswer]
  rcases h with rfl | ⟨rfl, hs⟩
  · by_cases hd : s.nodeType = .dropKeyspace
    · rw [if_pos hd]
      exact ⟨_, answer_of_endOfInput .closing hmark⟩
    · rw [if_neg hd, if_neg (List.cons_ne_nil _ _)]
      exact ⟨_, answer_of_endOfInput .between hmark⟩
  · rw [if_neg hs, if_pos rfl]
    exact ⟨_, rfl⟩

theorem completes_within {q : StatementMachine.State} (h : Finishes q) (read : List Statement) :
    move.Completes (.within read q) := by
  obtain ⟨ls, hls, a, ha, hs⟩ := h
  have hterm : Terminated (spaced ls ++ [.eof]) := by
    apply terminated_append_eof
    intro l hl hk
    have := spelled_of_mem_spaced hls l hl
    simp [Lexeme.Spelled, hk] at this
  obtain ⟨b, hb⟩ := exists_resumeAnswer hs read
  refine ⟨ls, hls, b, ?_⟩
  have hwithin : (State.within read q).answer (spaced ls ++ [.eof]) = _ := answer_within hterm
  rw [ha] at hwithin
  exact hwithin.trans hb

theorem leads_finish (read : List Statement) (l : Lexeme) : move.Leads (finish read l) := by
  unfold finish
  split
  · exact .inr ⟨_, true, rfl⟩
  · exact .inl ⟨_, rfl, completes_open .between⟩

/-- What closes a statement ends the name of a keyspace. -/
theorem kind_of_mem_terminator {x : Expectation} (hx : x ∈ Expected.terminator) :
    x.lexeme.kind ≠ .dot ∧ x.lexeme.kind ≠ .identifier := by
  rcases List.mem_pair.1 hx with rfl | rfl <;> decide

theorem leads_close {x : Expectation} (hx : x ∈ Expected.terminator) (read : List Statement) :
    move.Leads (close read x.lexeme) := by
  rcases List.mem_pair.1 hx with rfl | rfl
  · exact .inr ⟨_, true, rfl⟩
  · exact .inl ⟨_, rfl, completes_open .between⟩

theorem leads_lift (h : StatementMachine.Leads v) : move.Leads (lift read l v) := by
  rcases h with ⟨q, rfl, hq⟩ | ⟨s, rfl⟩
  · exact .inl ⟨_, rfl, completes_within hq read⟩
  · exact leads_finish _ l

theorem leads_of_mem_expected {q : State} {x : Expectation} (hx : x ∈ q.expected) :
    move.Leads (move q x.lexeme) := by
  cases q with
  | between read =>
    have hmove : move (.between read) x.lexeme =
        lift read x.lexeme (StatementMachine.Stage.start.take x.lexeme) := by
      simp only [State.expected, Expected.statement, List.mem_cons, List.not_mem_nil,
        or_false] at hx
      rcases hx with rfl | rfl | rfl | rfl | rfl <;> rfl
    rw [hmove]
    exact leads_lift (StatementMachine.Stage.leads_of_take hx)
  | within read q =>
    simp only [State.expected] at hx
    simp only [move]
    split at hx
    · obtain ⟨s, -, hs⟩ := StatementMachine.move_of_expected_eq_nil ‹_›
      obtain ⟨hdot, hid⟩ := kind_of_mem_terminator hx
      rw [hs x.lexeme hdot hid]
      exact leads_close hx _
    · exact leads_lift (StatementMachine.leads_of_mem_expected hx)
  | closing read => exact leads_close hx read

theorem passesBlank_of_mem_expected {q q' : State} {x : Expectation} (hm : move q l = .go q')
    (hl : l.kind.isWord) (hx : x ∈ q'.expected) :
    ∃ q'', move q' .space = .go q'' ∧ move q'' x.lexeme = move q' x.lexeme := by
  cases q' with
  | between read => exact ⟨.between read, rfl, rfl⟩
  | closing read => exact ⟨.closing read, rfl, rfl⟩
  | within read q₁ =>
    obtain ⟨q₀, hq₀⟩ := exists_move_of_within hm
    simp only [State.expected] at hx
    split at hx
    · obtain ⟨s, -, hs⟩ := StatementMachine.move_of_expected_eq_nil ‹_›
      obtain ⟨hdot, hid⟩ := kind_of_mem_terminator hx
      refine ⟨.closing (read ++ [s]), ?_, ?_⟩
      · simp only [move, hs .space (by decide) (by decide)]
        rfl
      · simp only [move, hs x.lexeme hdot hid]
        rfl
    · obtain ⟨q₂, hspace, hq₂⟩ := StatementMachine.passesBlank_of_mem_expected hq₀ hl hx
      refine ⟨.within read q₂, ?_, ?_⟩
      · simp only [move, hspace]
        rfl
      · simp only [move, hq₂]

theorem guides_move : move.Guides State.expected where
  ends := ends_move
  notBroken := not_isBroken_of_move
  refuses := refuses_of_move
  offers := leads_of_mem_expected
  passesBlank := passesBlank_of_mem_expected

end ProgramMachine

/-- A text that one of the parsers does not accept has a syntax error there, and that error points
at the first token that cannot be right. -/
theorem ok_or_blames (text : String) :
    ((∃ s, parseStatement text = .ok s) ∨
      ∃ e, parseStatement text = .error (.syntaxError e) ∧ Blames parseStatement text e) ∧
    ((∃ p, parseProgram text = .ok p) ∨
      ∃ e, parseProgram text = .error (.syntaxError e) ∧ Blames parseProgram text e) :=
  ⟨Machine.accepted_or_blames reads_statement StatementMachine.guides_move text,
    Machine.accepted_or_blames reads_program ProgramMachine.guides_move text⟩

end KeyspaceQuery
