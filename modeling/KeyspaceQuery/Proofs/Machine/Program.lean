import KeyspaceQuery.Proofs.Machine.Statement
import KeyspaceQuery.Program

/-! The machine that reads a program. Inside a statement it does what the machine of statements
does. What an answered statement leaves to the program is told by its kind alone: a `DROP` has still
to be closed, and any other statement took the lexeme that closes it. -/

namespace KeyspaceQuery.ProgramMachine

open KeyspaceQuery.Parser

/-- Where the program is read, and the statements read so far. -/
inductive State
  | between (read : List Statement)
  | within (read : List Statement) (q : StatementMachine.State)
  | closing (read : List Statement)
  deriving DecidableEq, Repr

/-- Goes on behind a statement that took the lexeme that closes it. -/
def finish (read : List Statement) (l : Lexeme) : Move State Program :=
  if l.kind = .endOfInput then .done (.ofList read) true else .go (.between read)

/-- Closes a statement that did not take the lexeme behind it. -/
def close (read : List Statement) (l : Lexeme) : Move State Program :=
  match l.kind with
  | .whitespace => .go (.closing read)
  | .endOfInput => .done (.ofList read) true
  | .semicolon => .go (.between read)
  | _ => .refuse (.expected Expected.terminator) true

/-- A move inside a statement as one of the program. -/
def lift (read : List Statement) (l : Lexeme) : Move StatementMachine.State Statement →
    Move State Program
  | .go q => .go (.within read q)
  | .done s true => finish (read ++ [s]) l
  | .done s false => close (read ++ [s]) l
  | .refuse r taken => .refuse r taken

def move : Machine State Program
  | .between read, l =>
    match l.kind with
    | .whitespace => .go (.between read)
    | .endOfInput => .done (.ofList read) true
    | .semicolon => .go (.between read)
    | _ => lift read l (StatementMachine.Stage.start.move l)
  | .within read q, l => lift read l (StatementMachine.move q l)
  | .closing read, l => close read l

theorem lift_eof_ne_go {v : Move StatementMachine.State Statement} (h : ∀ q, v ≠ .go q)
    (read : List Statement) (q' : State) : lift read .eof v ≠ .go q' := by
  cases v with
  | go q => exact absurd rfl (h q)
  | done s taken => cases taken <;> nofun
  | refuse r taken => nofun

theorem ends_move : move.Ends := by
  intro q q'
  cases q with
  | between read => nofun
  | within read q => exact lift_eof_ne_go (StatementMachine.ends_move q) read q'
  | closing read => nofun

/-- A state inside a statement is come to inside that statement. -/
theorem go_of_lift {read read' : List Statement} {l : Lexeme} {q : StatementMachine.State}
    {v : Move StatementMachine.State Statement} (h : lift read l v = .go (.within read' q)) :
    v = .go q := by
  cases v with
  | go q => cases h; rfl
  | done s taken =>
    cases taken with
    | true =>
      simp only [lift, finish] at h
      split at h <;> cases h
    | false =>
      simp only [lift, close] at h
      split at h <;> cases h
  | refuse r taken => cases h

theorem exists_move_of_within {read : List Statement} {l : Lexeme} {q : State}
    {q' : StatementMachine.State} (h : move q l = .go (.within read q')) :
    ∃ q₀, StatementMachine.move q₀ l = .go q' := by
  cases q with
  | between read =>
    simp only [move] at h
    split at h
    · cases h
    · cases h
    · cases h
    · exact ⟨.stage .start, go_of_lift h⟩
  | within read q => exact ⟨q, go_of_lift h⟩
  | closing read =>
    simp only [move, close] at h
    split at h <;> cases h

section Tracks

variable {z : Token}

abbrev State.run (z : Token) (q : State) : List Token → Verdict Token Program :=
  move.run Token.lexeme z q

/-- Where the program is read behind the answer `s`. -/
def behind (read : List Statement) (s : Statement) : State :=
  if s.nodeType = .dropKeyspace then .closing (read ++ [s]) else .between (read ++ [s])

/-- The run of the program behind a verdict on one of its statements. -/
def resume (z : Token) (read : List Statement) : Verdict Token Statement → Verdict Token Program
  | .done s rest => (behind read s).run z rest
  | .refused r t rest => .refused r t rest

variable {t : Token} {ts : List Token} {read : List Statement} {q : StatementMachine.State}

theorem run_nil (hz : z.lexeme = .eof) (q : State) : q.run z [] = q.run z [z] :=
  Machine.run_nil ends_move hz q

theorem run_between_nil (hz : z.lexeme = .eof) (read : List Statement) :
    (State.between read).run z [] = .done (.ofList read) [] := by
  rw [State.run, Machine.run, hz]
  rfl

/-- An answer leads to the state behind it, with what it left still to be read. -/
theorem carryOut_lift_done (hz : z.lexeme = .eof) {s : Statement} {taken : Bool}
    (hts : t.kind = .endOfInput → ts = [])
    (h : StatementMachine.move q t.lexeme = .done s taken) :
    ((lift read t.lexeme (.done s taken)).carryOut t ts fun q => q.run z ts) =
      (behind read s).run z (if taken then ts else t :: ts) := by
  rcases StatementMachine.done_cases h with ⟨rfl, hs, hk | hk⟩ | ⟨rfl, hs⟩
  · obtain rfl := hts hk
    rw [behind, if_neg hs, if_pos rfl, run_between_nil hz, lift, finish, if_pos hk]
    rfl
  · rw [behind, if_neg hs, if_pos rfl, lift, finish, if_neg (by simp [hk])]
    rfl
  · rw [behind, if_pos hs]
    rfl

theorem run_within (hz : z.lexeme = .eof) (hts : Terminated (ts.map Token.lexeme)) :
    (State.within read q).run z ts = resume z read (q.run z ts) := by
  induction ts generalizing q with
  | nil => cases hts
  | cons t ts ih =>
    simp only [StatementMachine.State.run, State.run, Machine.run, move]
    cases hm : StatementMachine.move q t.lexeme with
    | go q' => exact ih (StatementMachine.ends_move.terminated hm hts)
    | done s taken =>
      exact carryOut_lift_done hz
        (fun ht => List.map_eq_nil_iff.1 (eq_nil_of_terminated hts ht)) hm
    | refuse r taken => rfl

theorem tracks_within (hz : z.lexeme = .eof) (read : List Statement) :
    Tracks z statement ((State.within read (.stage .start)).run z)
      fun s => (behind read s).run z := by
  have run (ts : List Token) (hts : ts = [] ∨ Terminated (ts.map Token.lexeme)) :
      (State.within read (.stage .start)).run z ts =
        resume z read (StatementMachine.Stage.start.run z ts) := by
    rcases hts with rfl | hts
    · rw [run_nil hz, StatementMachine.Stage.run, StatementMachine.State.run,
        Machine.run_nil StatementMachine.ends_move hz]
      exact run_within hz (by simpa [hz] using Terminated.eof)
    · exact run_within hz hts
  refine (StatementMachine.tracks_statement hz).of_eq (fun ts s ts' hts h => ?_)
    fun ts r t ts' hts h => ?_
  · rw [run ts hts, h, resume]
  · rw [run ts hts, h, resume]

theorem tracks_close (hz : z.lexeme = .eof) (read : List Statement) (s : Statement) :
    Tracks z (Parser.close s) ((behind read s).run z)
      fun _ => (State.between (read ++ [s])).run z := by
  unfold Parser.close behind
  split
  · refine tracks_next hz (run_nil hz _) (fun t ts ht => ?_) fun t ts ht hts => ?_
    · simp only [State.run, Machine.run, move, close, Token.kind_lexeme, ht]
      rfl
    · obtain ⟨kind, position, literal⟩ := t
      cases kind with
      | endOfInput =>
        obtain rfl := hts rfl
        exact (run_between_nil hz _).symm
      | semicolon => exact rfl
      | whitespace => exact absurd rfl ht
      | _ => exact ⟨.expected Expected.terminator, rfl, rfl⟩
  · exact tracks_pure rfl

/-- The run that begins with `t`, which is left to be read if it does not end a statement. -/
def runOn (z : Token) (read : List Statement) (t : Token) : List Token → Verdict Token Program :=
  if t.kind = .endOfInput then .done (.ofList read)
  else if t.kind = .semicolon then (State.between read).run z
  else (State.within read (.stage .start)).run z

theorem tracks_programStep (hz : z.lexeme = .eof) (read : List Statement) :
    Tracks z (programStep read) ((State.between read).run z)
      (afterRound (fun read => (State.between read).run z) fun read => .done (.ofList read)) := by
  refine tracks_bind (k := runOn z read)
    (tracks_next hz (run_nil hz _) (fun t ts ht => ?_) fun t ts ht _ => ?_) fun t => ?_
  · simp only [State.run, Machine.run, move, Token.kind_lexeme, ht]
    rfl
  · obtain ⟨kind, position, literal⟩ := t
    cases kind with
    | whitespace => exact absurd rfl ht
    | _ => exact rfl
  · unfold runOn
    split
    · exact tracks_pure rfl
    · split
      · exact tracks_pure rfl
      · refine tracks_bind (tracks_within hz read) fun s => ?_
        exact tracks_bind (tracks_close hz read s) fun _ => tracks_pure rfl

/-- The parser of programs does what the machine does from its start. -/
theorem tracks_program (hz : z.lexeme = .eof) :
    Tracks z program ((State.between []).run z) Verdict.done :=
  tracks_bind (tracks_rounds (tracks_programStep hz) []) fun _ => tracks_pure rfl

end Tracks

end KeyspaceQuery.ProgramMachine
