import KeyspaceQuery.Proofs.Errors.Program
import KeyspaceQuery.Proofs.Lexeme.Places

/-! Programs put one behind the other. A program that is accepted could go on with a semicolon where
it ends, and behind the semicolon nothing of it counts but its statements: the other program is read
as it would be alone, with all its places moved. -/

namespace KeyspaceQuery

variable {σ β τ : Type}

def Move.map (f : σ → σ) (g : β → β) : Move σ β → Move σ β
  | go q => .go (f q)
  | done b taken => .done (g b) taken
  | refuse r taken => .refuse r taken

def Verdict.map (g : β → β) : Verdict τ β → Verdict τ β
  | done b rest => .done (g b) rest
  | refused r t rest => .refused r t rest

namespace Machine

variable {m : Machine σ β} {view : τ → Lexeme} {q : σ}

/-- What a machine does the same way in changed states, its runs do too. -/
theorem run_map {f : σ → σ} {g : β → β} (h : ∀ q l, m (f q) l = (m q l).map f g) (z : τ) (q : σ)
    (ts : List τ) : m.run view z (f q) ts = (m.run view z q ts).map g := by
  induction ts generalizing q with
  | nil =>
    rw [run, run, h]
    cases m q (view z) <;> rfl
  | cons t ts ih =>
    rw [run, run, h]
    cases m q (view t) with
    | go q' => exact ih q'
    | done b taken => rfl
    | refuse r taken => rfl

/-- Lists of the same lexemes are answered or refused the same way, at the same place in both. -/
theorem run_congr (hm : m.Ends) {R : τ → τ → Prop} (hR : ∀ t u, R t u → view u = view t)
    {ts us : List τ} (h : List.Forall₂ R ts us) (hts : Terminated (ts.map view)) (y z : τ) (q : σ) :
    (∃ b rest rest', m.run view y q ts = .done b rest ∧ m.run view z q us = .done b rest') ∨
      ∃ r t u rest rest', m.run view y q ts = .refused r t rest ∧
        m.run view z q us = .refused r u rest' ∧ R t u := by
  induction h generalizing q with
  | nil => cases hts
  | @cons t u ts us htu h ih =>
    rw [run, run, hR t u htu]
    cases hmove : m q (view t) with
    | go q' => exact ih (hm.terminated hmove hts) q'
    | done b taken => exact .inl ⟨b, _, _, rfl, rfl⟩
    | refuse r taken => exact .inr ⟨r, t, u, _, _, rfl, rfl, htu⟩

/-- A machine that answers at the end of the input only has gone through all that is before it. -/
theorem exists_walk_of_answer
    (hm : ∀ {q l b taken}, m q l = .done b taken → l.kind = .endOfInput) {ls rest : List Lexeme}
    {b : β} (hls : ∀ l ∈ ls, l.kind ≠ .endOfInput)
    (h : m.answer q (ls ++ [.eof]) = some (b, rest)) :
    ∃ q' taken, m.walk q ls = some q' ∧ m q' .eof = .done b taken := by
  induction ls generalizing q with
  | nil =>
    rw [List.nil_append, answer] at h
    cases hmove : m q .eof with
    | go q' => rw [hmove] at h; cases h
    | done b' taken =>
      rw [hmove] at h
      cases h
      exact ⟨q, taken, rfl, hmove⟩
    | refuse r taken => rw [hmove] at h; cases h
  | cons l ls ih =>
    obtain ⟨hl, hls⟩ := List.forall_mem_cons.1 hls
    rw [List.cons_append, answer] at h
    cases hmove : m q l with
    | go q₁ =>
      rw [hmove] at h
      obtain ⟨q', taken, hw, hq⟩ := ih hls h
      exact ⟨q', taken, walk_cons_iff.2 ⟨q₁, hmove, hw⟩, hq⟩
    | done b' taken => exact absurd (hm hmove) hl
    | refuse r taken => rw [hmove] at h; cases h

end Machine

namespace StatementMachine

/-- Where the end of the input ends a statement, a semicolon does. -/
theorem Stage.take_semicolon {s : Stage} {x : Statement} {taken : Bool}
    (h : s.take .eof = .done x taken) : s.take ⟨.semicolon, ""⟩ = .done x taken := by
  cases s with
  | terminator | moreKeys | logical | moreFilters => exact h
  | _ => cases h

theorem move_semicolon {q : State} {s : Statement} {taken : Bool}
    (h : move q .eof = .done s taken) : move q ⟨.semicolon, ""⟩ = .done s taken := by
  cases q with
  | stage q => exact Stage.take_semicolon h
  | path hd text dotted =>
    cases dotted with
    | true => cases h
    | false =>
      rw [move_path (by decide) (by decide), Head.leave] at h ⊢
      cases hs : hd.behind ⟨text⟩ with
      | none =>
        rw [hs] at h
        exact h
      | some q =>
        rw [hs] at h
        exact Stage.take_semicolon h

end StatementMachine

namespace ProgramMachine

/-- The state that also has statements from before. -/
def State.onto (ss : List Statement) : State → State
  | between read => between (ss ++ read)
  | within read q => within (ss ++ read) q
  | closing read => closing (ss ++ read)

variable {l : Lexeme} {q : State}

theorem close_onto (ss read : List Statement) (l : Lexeme) : close (ss ++ read) l =
    (close read l).map (State.onto ss) fun p => .ofList (ss ++ p.toList) := by
  unfold close
  split
  · rfl
  · simp only [Move.map, Program.toList_ofList]
  · rfl
  · rfl

theorem finish_onto (ss read : List Statement) (l : Lexeme) : finish (ss ++ read) l =
    (finish read l).map (State.onto ss) fun p => .ofList (ss ++ p.toList) := by
  unfold finish
  split
  · simp only [Move.map, Program.toList_ofList]
  · rfl

theorem lift_onto (ss read : List Statement) (l : Lexeme)
    (v : Move StatementMachine.State Statement) : lift (ss ++ read) l v =
      (lift read l v).map (State.onto ss) fun p => .ofList (ss ++ p.toList) := by
  cases v with
  | go q => rfl
  | done s taken =>
    cases taken with
    | true =>
      rw [lift, List.append_assoc]
      exact finish_onto ss (read ++ [s]) l
    | false =>
      rw [lift, List.append_assoc]
      exact close_onto ss (read ++ [s]) l
  | refuse r taken => rfl

/-- Statements read before change nothing but the program that is answered. -/
theorem move_onto (ss : List Statement) (q : State) (l : Lexeme) :
    move (q.onto ss) l = (move q l).map (State.onto ss) fun p => .ofList (ss ++ p.toList) := by
  cases q with
  | between read =>
    simp only [State.onto, move]
    split
    · rfl
    · simp only [Move.map, Program.toList_ofList]
    · rfl
    · exact lift_onto ss read l _
  | within read q => exact lift_onto ss read l _
  | closing read => exact close_onto ss read l

theorem kind_of_done_close {read : List Statement} {p : Program} {taken : Bool}
    (h : close read l = .done p taken) : l.kind = .endOfInput := by
  unfold close at h
  split at h
  · cases h
  · assumption
  · cases h
  · cases h

theorem kind_of_done_lift {read : List Statement} {v : Move StatementMachine.State Statement}
    {p : Program} {taken : Bool} (h : lift read l v = .done p taken) : l.kind = .endOfInput := by
  cases v with
  | go q => cases h
  | done s t =>
    cases t with
    | true =>
      simp only [lift, finish] at h
      split at h
      · assumption
      · cases h
    | false => exact kind_of_done_close h
  | refuse r t => cases h

/-- A program is answered at the end of the input and nowhere else. -/
theorem kind_of_done {p : Program} {taken : Bool} (h : move q l = .done p taken) :
    l.kind = .endOfInput := by
  cases q with
  | between read =>
    simp only [move] at h
    split at h
    · cases h
    · assumption
    · cases h
    · exact kind_of_done_lift h
  | within read q => exact kind_of_done_lift h
  | closing read => exact kind_of_done_close h

/-- Where a program may end, it may go on with a semicolon. -/
theorem move_semicolon {p : Program} {taken : Bool} (h : move q .eof = .done p taken) :
    move q ⟨.semicolon, ""⟩ = .go (.between p.toList) := by
  cases q with
  | between read =>
    cases h
    exact congrArg (Move.go ∘ State.between) (Program.toList_ofList read).symm
  | closing read =>
    cases h
    exact congrArg (Move.go ∘ State.between) (Program.toList_ofList read).symm
  | within read q =>
    simp only [move] at h ⊢
    cases hq : StatementMachine.move q .eof with
    | go q' => exact absurd hq (StatementMachine.ends_move q q')
    | done s taken =>
      rw [hq] at h
      rw [StatementMachine.move_semicolon hq]
      cases taken with
      | true =>
        cases h
        exact congrArg (Move.go ∘ State.between) (Program.toList_ofList _).symm
      | false =>
        cases h
        exact congrArg (Move.go ∘ State.between) (Program.toList_ofList _).symm
    | refuse r taken =>
      rw [hq] at h
      cases h

/-- An accepted text leads to where a semicolon may come, with its statements read. -/
theorem exists_walk_of_accepted {text : String} {p : Program}
    {pieces : List (Lexeme × List Char)} (h : parseProgram text = .ok p)
    (hp : Segments text.toList pieces)
    (hls : lexemes text.toList = pieces.map Prod.fst ++ [.eof]) :
    (∀ l ∈ pieces.map Prod.fst, l.Spelled) ∧
      ∃ q, move.walk (.between []) (pieces.map Prod.fst) = some q ∧
        move q ⟨.semicolon, ""⟩ = .go (.between p.toList) := by
  obtain ⟨rest, hanswer⟩ := (Parser.parse_eq_ok_iff reads_program ends_move).1 h
  rw [hls] at hanswer
  obtain ⟨q, taken, hw, hq⟩ :=
    Machine.exists_walk_of_answer (m := move) kind_of_done hp.kind_ne_endOfInput hanswer
  have hmem : ∀ l ∈ pieces.map Prod.fst, l ∈ lexemes text.toList := by
    intro l hl
    rw [hls]
    exact List.mem_append_left _ hl
  exact ⟨Machine.spelled_of_walk guides_move hw hmem, q, hw, move_semicolon hq⟩

/-- Where statements have been read, a program goes on as it begins, with those in front. -/
theorem run_behind {p : Program} {q : State} {ts us : List Token} {t : Token}
    (hw : move.walk (.between []) (ts.map Token.lexeme) = some q)
    (hq : move q t.lexeme = .go (.between p.toList)) (z : Token) :
    move.run Token.lexeme z (.between []) (ts ++ t :: us) =
      (move.run Token.lexeme z (.between []) us).map fun q => .ofList (p.toList ++ q.toList) := by
  have hw : move.walk (.between []) ((ts ++ [t]).map Token.lexeme) =
      some ((State.between []).onto p.toList) := by
    rw [State.onto, List.append_nil, List.map_append]
    exact Machine.walk_concat_iff.2 ⟨q, hw, hq⟩
  rw [← List.singleton_append, ← List.append_assoc]
  exact (Machine.run_append hw us).trans (Machine.run_map (move_onto p.toList) z (.between []) us)

end ProgramMachine

/-- The tokens of a text behind a semicolon are those it has alone. Their places are moved, if the
text does not begin with a quote. -/
theorem exists_lex_append {a b : String} {as bs : List (Lexeme × List Char)}
    (has : Segments a.toList as) (hs : ∀ l ∈ as.map Prod.fst, l.Spelled)
    (hbs : Segments b.toList bs) : ∃ ts t us us', lex (a ++ ";" ++ b) = .ok (ts ++ t :: us') ∧
      lex b = .ok us ∧ ts.map Token.lexeme = as.map Prod.fst ∧ t.lexeme = ⟨.semicolon, ""⟩ ∧
      List.Forall₂
        (Token.Moved (b.toList.head? ≠ some '"') (Position.start.past (a.toList ++ [';'])))
        us us' := by
  have htext : (a ++ ";" ++ b).toList = a.toList ++ ';' :: b.toList := by simp
  have hlex := lex_of_segments (htext ▸ has.append_semicolon hs hbs)
  obtain ⟨ts, t, hts, hlexemes, ht⟩ := placed_append as bs [] false
  rw [hts, List.nil_append, has.flatMap_eq] at hlex
  have hmoved : List.Forall₂
      (Token.Moved (b.toList.head? ≠ some '"') (Position.start.past (a.toList ++ [';'])))
      (placed [] false bs) (placed (a.toList ++ [';'] ++ []) false bs) :=
    placed_moved hbs (fun h _ => h) false
  rw [List.append_nil] at hmoved
  exact ⟨ts, t, _, _, hlex, lex_of_segments hbs, hlexemes, ht, hmoved⟩

/-- What comes behind an accepted text and a semicolon comes to what it comes to alone, behind the
statements of that text. An error keeps its cause, and its place moves by the text before it. -/
theorem parseProgram_append {a : String} {p : Program} (h : parseProgram a = .ok p) (b : String) :
    (∀ q, parseProgram b = .ok q → ∃ r, parseProgram (a ++ ";" ++ b) = .ok r ∧
      r.toList = p.toList ++ q.toList ∧ r ≠ .statements []) ∧
    ∀ f, parseProgram b = .error f → ∃ e e', f = .syntaxError e ∧
      parseProgram (a ++ ";" ++ b) = .error (.syntaxError e') ∧ e'.cause = e.cause ∧
      (b.toList.head? ≠ some '"' → e'.position =
        if e.position.line = 0 then
          ⟨a.toList.count '\n',
            e.position.column + ((a.toList.rtakeWhile (· ≠ '\n')).length + 1)⟩
        else ⟨e.position.line + a.toList.count '\n', e.position.column⟩) := by
  obtain ⟨as, has, hla⟩ := exists_segments a.toList
  obtain ⟨bs, hbs, -⟩ := exists_segments b.toList
  obtain ⟨hs, q, hw, hq⟩ := ProgramMachine.exists_walk_of_accepted h has hla
  obtain ⟨ts, t, us, us', hlex, hlex', hts, ht, hmoved⟩ := exists_lex_append has hs hbs
  obtain ⟨y, us₁, hus, hlb, hb⟩ := reads_program b
  obtain ⟨z, vs, hvs, -, hab⟩ := reads_program (a ++ ";" ++ b)
  cases hlex'.symm.trans hus
  cases hlex.symm.trans hvs
  have hrun := Machine.run_congr ProgramMachine.ends_move (fun _ _ hR => hR.1) hmoved
    (hlb ▸ terminated_lexemes _) y z (.between [])
  rw [ProgramMachine.run_behind (hts ▸ hw) (ht ▸ hq)] at hab
  rcases hrun with ⟨q, rest, rest', hy, hz⟩ | ⟨r, t, u, rest, rest', hy, hz, hlexeme, hplace⟩
  · rw [hy] at hb
    rw [hz] at hab
    refine ⟨fun q' hq' => ?_, fun f hf => ?_⟩
    · cases hb.symm.trans hq'
      exact ⟨_, hab, Program.toList_ofList _, Program.ofList_ne_statements_nil _⟩
    · cases hb.symm.trans hf
  · rw [hy] at hb
    rw [hz] at hab
    refine ⟨fun q' hq' => ?_, fun f hf => ⟨r.error t, r.error u, ?_, hab, ?_, fun hb => ?_⟩⟩
    · cases hb.symm.trans hq'
    · exact Except.error.inj (hf.symm.trans hb)
    · rw [Refusal.cause_error, Refusal.cause_error, hlexeme]
    · have hend : Position.start.past (a.toList ++ [';']) =
          ⟨a.toList.count '\n', (a.toList.rtakeWhile (· ≠ '\n')).length + 1⟩ := by
        rw [Position.past_append, Position.past_start]
        rfl
      rw [Refusal.position_error, Refusal.position_error, hplace hb, hend, Position.moved,
        Nat.add_comm t.position.column, Nat.add_comm t.position.line]

/-- The second text begins on the last line of the first one, behind the semicolon. -/
theorem parseProgram_drop_append_create :
    parseProgram "DROP KEYSPACE a\n" = .ok (.statements [.drop ⟨"a"⟩]) ∧
      parseProgram "CREATE x" =
        .error (.syntaxError ⟨.unexpected "IDENTIFIER (x)" ["KEYSPACE"], ⟨0, 7⟩⟩) ∧
      parseProgram ("DROP KEYSPACE a\n" ++ ";" ++ "CREATE x") =
        .error (.syntaxError ⟨.unexpected "IDENTIFIER (x)" ["KEYSPACE"], ⟨1, 8⟩⟩) := by
  have ha : parseProgram "DROP KEYSPACE a\n" = .ok (.statements [.drop ⟨"a"⟩]) := by
    decide +kernel
  have hb : parseProgram "CREATE x" =
      .error (.syntaxError ⟨.unexpected "IDENTIFIER (x)" ["KEYSPACE"], ⟨0, 7⟩⟩) := by
    decide +kernel
  obtain ⟨e, ⟨cause, position⟩, he, hab, rfl, hplace⟩ := (parseProgram_append ha "CREATE x").2 _ hb
  cases he
  have hposition : position = ⟨1, 8⟩ := hplace (by decide)
  exact ⟨ha, hb, hposition ▸ hab⟩

end KeyspaceQuery
