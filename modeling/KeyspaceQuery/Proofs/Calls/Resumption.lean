import KeyspaceQuery.Proofs.Calls.Parser
import KeyspaceQuery.Proofs.Composition

/-! A program is its first statement and what the same parser makes of the rest. The two ways of
reading differ in what they put back and, behind a `DROP`, in who takes the token that closes it,
but the streams they leave hold the same tokens. Streams that do so cannot be told apart by calls to
a parser. -/

namespace KeyspaceQuery

/-- What a parser that tracks the run gives. -/
def Verdict.result {α : Type} : Verdict Token α → Except SyntaxError α
  | done a _ => .ok a
  | refused r t _ => .error (r.error t)

section Verdict

variable {α β : Type} (v : Verdict Token α) (g : α → α)

theorem Verdict.result_map : (v.map g).result = v.result.map g := by cases v <;> rfl

theorem Verdict.rest_map : (v.map g).rest = v.rest := by cases v <;> rfl

end Verdict

namespace TokenStream

variable {z t : Token} {b c : TokenStream} {ts : List Token}

/-- The first of the tokens that is not blank, and those behind it. -/
def front (z : Token) : List Token → Token × List Token
  | [] => (z, [])
  | t :: ts => if t.kind = .whitespace then front z ts else (t, ts)

theorem front_cons (ht : t.kind ≠ .whitespace) (ts : List Token) : front z (t :: ts) = (t, ts) :=
  if_neg ht

theorem kind_ne_whitespace_of_eof (hz : z.lexeme = .eof) : z.kind ≠ .whitespace := by
  have : z.kind = .endOfInput := congrArg Lexeme.kind hz
  simp [this]

theorem kind_front_ne (hz : z.lexeme = .eof) (ts : List Token) :
    (front z ts).1.kind ≠ .whitespace := by
  induction ts with
  | nil => exact kind_ne_whitespace_of_eof hz
  | cons t ts ih =>
    rw [front]
    split
    · exact ih
    · assumption

theorem nextPastBlanks_of_holds (hz : z.lexeme = .eof) (h : b.Holds z ts) :
    ∃ c, b.nextPastBlanks = .ok ((front z ts).1, c) ∧ Took z (front z ts).1 (front z ts).2 c := by
  induction ts generalizing b with
  | nil =>
    obtain ⟨c, hn, hc⟩ := next_of_holds_nil h
    exact ⟨c, nextPastBlanks_of_next hn (kind_ne_whitespace_of_eof hz), hc⟩
  | cons t ts ih =>
    obtain ⟨c, hn, hc⟩ := next_of_holds h
    by_cases ht : t.kind = .whitespace
    · rw [nextPastBlanks_of_blank hn ht, front, if_pos ht]
      exact ih hc.holds
    · rw [front_cons ht]
      exact ⟨c, nextPastBlanks_of_next hn ht, hc⟩

theorem Took.terminated (h : Took z t ts c) : Terminated ((t :: ts).map Token.lexeme) := by
  obtain ⟨d, -, hd⟩ := h.putBack
  exact (terminated_of_holds hd).resolve_left (List.cons_ne_nil t ts)

end TokenStream

namespace Parser

open TokenStream (front)

section Tracks

variable {α : Type} {z : Token} {p : Parser α} {F : List Token → Verdict Token α}
  {b c : TokenStream} {ts : List Token}

theorem Tracks.run_eq (hp : Tracks z p F Verdict.done) (hb : b.Holds z ts) :
    ∃ c, p.run b = .ok ((F ts).result, c) ∧ c.Holds z (F ts).rest := by
  obtain ⟨c, ⟨a, ts', hr, hc, hF⟩ | ⟨r, t, ts', hr, hc, hF⟩⟩ := hp hb
  · exact ⟨c, hF ▸ hr, hF ▸ hc⟩
  · exact ⟨c, hF ▸ hr, hF ▸ hc⟩

/-- A call is answered by the tokens held. -/
theorem exists_reply_of_holds (hz : z.lexeme = .eof) (ts : List Token) (call : Call) :
    ∃ a us, ∀ b : TokenStream, b.Holds z ts →
      ∃ c, reply call b = .ok (a, c) ∧ c.Holds z us := by
  cases call with
  | statement =>
    let v := StatementMachine.Stage.start.run z ts
    refine ⟨.statement v.result, v.rest, fun b hb => ?_⟩
    obtain ⟨c, hr, hc⟩ := (StatementMachine.tracks_statement hz).run_eq hb
    exact ⟨c, by simp only [reply, hr]; rfl, hc⟩
  | program =>
    let v := (ProgramMachine.State.between []).run z ts
    refine ⟨.program v.result, v.rest, fun b hb => ?_⟩
    obtain ⟨c, hr, hc⟩ := (ProgramMachine.tracks_program hz).run_eq hb
    exact ⟨c, by simp only [reply, hr]; rfl, hc⟩

/-- Streams that hold the same tokens answer all calls alike. -/
theorem replies_eq_of_holds (hz : z.lexeme = .eof) (hb : b.Holds z ts) (hc : c.Holds z ts)
    (calls : List Call) : replies reply calls b = replies reply calls c := by
  induction calls generalizing b c ts with
  | nil => rfl
  | cons call calls ih =>
    obtain ⟨a, us, h⟩ := exists_reply_of_holds hz ts call
    obtain ⟨b', hb', hbus⟩ := h b hb
    obtain ⟨c', hc', hcus⟩ := h c hc
    rw [replies_cons hb', replies_cons hc', ih hbus hcus]

end Tracks

end Parser

namespace ProgramMachine

open TokenStream (front front_cons)
open KeyspaceQuery.Parser (endsStatement)

variable {z t : Token} {ts us : List Token} {read : List Statement} {s : Statement}

/-- Blanks before what closes a statement, or before a statement, are passed over. -/
theorem run_front {p : State} (hp : p.Open read) (hz : z.lexeme = .eof) (ts : List Token) :
    p.run z ts = p.run z ((front z ts).1 :: (front z ts).2) := by
  induction ts with
  | nil => exact run_nil hz p
  | cons t ts ih =>
    by_cases ht : t.kind = .whitespace
    · rw [front, if_pos ht, ← ih]
      cases hp <;> simp only [State.run, Machine.run, move, close, Token.kind_lexeme, ht] <;> rfl
    · rw [front_cons ht]

theorem run_start_front (hz : z.lexeme = .eof) (ts : List Token) :
    StatementMachine.Stage.start.run z ts =
      StatementMachine.Stage.start.run z ((front z ts).1 :: (front z ts).2) := by
  induction ts with
  | nil => exact Machine.run_nil StatementMachine.ends_move hz _
  | cons t ts ih =>
    by_cases ht : t.kind = .whitespace
    · rw [front, if_pos ht, ← ih]
      simp only [StatementMachine.Stage.run, StatementMachine.State.run, Machine.run,
        StatementMachine.move, StatementMachine.Stage.move, Token.kind_lexeme, ht, if_true]
      rfl
    · rw [front_cons ht]

/-- Where a statement begins, the program goes on as its verdict says. -/
theorem run_between_of_begins (hz : z.lexeme = .eof)
    (hts : Terminated ((t :: us).map Token.lexeme)) (ht : t.kind ≠ .whitespace)
    (hend : ¬ endsStatement t) (read : List Statement) : (State.between read).run z (t :: us) =
      resume z read (StatementMachine.Stage.start.run z (t :: us)) := by
  rw [StatementMachine.Stage.run, ← run_within hz hts]
  obtain ⟨kind, position, literal⟩ := t
  cases kind with
  | whitespace => exact absurd rfl ht
  | semicolon | endOfInput => exact absurd rfl hend
  | _ => rfl

/-- What closes a statement is read alike by a program that still needs it and by one that does
not. -/
theorem run_closing_of_ends (ht : endsStatement t) (us : List Token) :
    (State.closing read).run z (t :: us) = (State.between read).run z (t :: us) := by
  obtain ⟨kind, position, literal⟩ := t
  cases kind with
  | semicolon | endOfInput => rfl
  | _ => cases ht

theorem run_closing_of_not_ends (ht : t.kind ≠ .whitespace) (hend : ¬ endsStatement t)
    (read : List Statement) (us : List Token) : (State.closing read).run z (t :: us) =
      .refused (.expected Expected.terminator) t us := by
  obtain ⟨kind, position, literal⟩ := t
  cases kind with
  | whitespace => exact absurd rfl ht
  | semicolon | endOfInput => exact absurd rfl hend
  | _ => rfl

/-- Behind a statement the program is read as it would be alone, if the statement is closed. -/
theorem run_behind_eq (hz : z.lexeme = .eof)
    (h : ∀ p, s = .drop p → endsStatement (front z ts).1) :
    (behind [] s).run z ts =
      ((State.between []).run z ts).map fun p => .statements (s :: p.toList) := by
  have hbetween : (State.between [s]).run z ts =
      ((State.between []).run z ts).map fun p => .statements (s :: p.toList) :=
    Machine.run_map (move_onto [s]) z (.between []) ts
  unfold behind
  split
  · rename_i hdrop
    obtain ⟨p, hp⟩ := Statement.nodeType_eq_dropKeyspace_iff.1 hdrop
    rw [List.nil_append, run_front .closing hz, run_closing_of_ends (h p hp),
      ← run_front .between hz, hbetween]
  · exact hbetween

end ProgramMachine

namespace Parser

/-- What a program comes to where a statement begins: what the statement comes to, and behind it
what the parser makes of the rest when it is asked for a program again. Afterwards the parser is
where it would be then. -/
inductive Resumes (b : TokenStream) : Prop
  | refused {e c c'} : statement.run b = .ok (.error e, c) → program.run b = .ok (.error e, c') →
    (∀ calls, replies reply calls c' = replies reply calls c) → Resumes b
  /-- A `DROP` is followed by something that does not close it. -/
  | unclosed {p c t d d'} : statement.run b = .ok (.ok (.drop p), c) →
    c.nextPastBlanks = .ok (t, d) → t.kind ≠ .semicolon → t.kind ≠ .endOfInput →
    program.run b = .ok (.error ⟨.unexpected t.describe ["EOF", "SEMICOLON"], t.position⟩, d') →
    (∀ calls, replies reply calls d' = replies reply calls d) → Resumes b
  | resumed {s c o d d'} : statement.run b = .ok (.ok s, c) →
    (∀ p, s = .drop p → ∃ t e, c.nextPastBlanks = .ok (t, e) ∧
      (t.kind = .semicolon ∨ t.kind = .endOfInput)) →
    program.run c = .ok (o, d) →
    program.run b = .ok (o.map fun p => .statements (s :: p.toList), d') →
    (∀ calls, replies reply calls d' = replies reply calls d) → Resumes b

variable {z t : Token} {b c : TokenStream} {ts us : List Token} {s : Statement}

/-- Behind a statement that leaves `us`, which the program reads on. -/
theorem resumes_of_done (hz : z.lexeme = .eof) (hb : b.Holds z ts) (hc : c.Holds z us)
    (hs : statement.run b = .ok (.ok s, c))
    (hrun : (ProgramMachine.State.between []).run z ts = (ProgramMachine.behind [] s).run z us) :
    Resumes b := by
  obtain ⟨d, hd, hdus⟩ := TokenStream.nextPastBlanks_of_holds hz hc
  obtain ⟨e, hp, hprest⟩ := (ProgramMachine.tracks_program hz).run_eq hb
  rw [hrun] at hp hprest
  -- only a `DROP` leaves the token that closes it, so only there can that token be missing
  by_cases h : (∃ p, s = .drop p) ∧ ¬ endsStatement (TokenStream.front z us).1
  · obtain ⟨⟨p, rfl⟩, hend⟩ := h
    have hrefused := ProgramMachine.run_closing_of_not_ends (z := z)
      (TokenStream.kind_front_ne hz us) hend [.drop p] (TokenStream.front z us).2
    have hbehind : ProgramMachine.behind [] (.drop p) = .closing [.drop p] := rfl
    rw [hbehind, ProgramMachine.run_front .closing hz, hrefused] at hp hprest
    rw [endsStatement_iff, not_or] at hend
    exact .unclosed hs hd hend.1 hend.2 hp (replies_eq_of_holds hz hprest hdus.holds)
  · have hclosed (p : Path) (hdrop : s = .drop p) : endsStatement (TokenStream.front z us).1 :=
      by_contra fun hend => h ⟨⟨p, hdrop⟩, hend⟩
    obtain ⟨o, hq, hqrest⟩ := (ProgramMachine.tracks_program hz).run_eq hc
    rw [ProgramMachine.run_behind_eq hz hclosed] at hp hprest
    rw [Verdict.result_map] at hp
    rw [Verdict.rest_map] at hprest
    exact .resumed hs (fun p hdrop => ⟨_, d, hd, endsStatement_iff.1 (hclosed p hdrop)⟩) hq hp
      (replies_eq_of_holds hz hprest hqrest)

theorem resumes_of_holds (hz : z.lexeme = .eof) (hb : b.Holds z ts)
    (ht : b.nextPastBlanks = .ok (t, c)) (hend : ¬ endsStatement t) : Resumes b := by
  obtain ⟨c', hnext, htook⟩ := TokenStream.nextPastBlanks_of_holds hz hb
  cases hnext.symm.trans ht
  have hrun := ProgramMachine.run_between_of_begins hz htook.terminated
    (TokenStream.kind_front_ne hz ts) hend []
  rw [← ProgramMachine.run_front .between hz, ← ProgramMachine.run_start_front hz] at hrun
  obtain ⟨d, hs, hd⟩ := (StatementMachine.tracks_statement hz).run_eq hb
  cases hv : StatementMachine.Stage.start.run z ts with
  | done s us =>
    rw [hv] at hs hd hrun
    exact resumes_of_done hz hb hd hs hrun
  | refused r u us =>
    rw [hv] at hs hd hrun
    obtain ⟨e, hp, he⟩ := (ProgramMachine.tracks_program hz).run_eq hb
    rw [hrun] at hp he
    exact .refused hs hp (replies_eq_of_holds hz he hd)

end Parser

/-- However a parser was called before, it reads a program as the statement that begins there and
then, if the statement is closed, as a program again. -/
theorem program_resumes_behind_statement (text : String) (calls : List Parser.Call) :
    ∃ answers b, serve Parser.reply calls (.ofString text) = .ok (answers, b) ∧
      ∃ t c, b.nextPastBlanks = .ok (t, c) ∧
        (t.kind ≠ .semicolon ∧ t.kind ≠ .endOfInput → Parser.Resumes b) := by
  obtain ⟨answers, b, hserve, ⟨z, ts, hz, hb, -⟩, -⟩ := exists_serve
    (fun call _ hb => Parser.exists_reply_of_within call hb) calls
    (TokenStream.within_ofString text)
  obtain ⟨c, hnext, -⟩ := TokenStream.nextPastBlanks_of_holds hz hb
  refine ⟨answers, b, hserve, _, c, hnext, fun h => ?_⟩
  exact Parser.resumes_of_holds hz hb hnext (by simp [Parser.endsStatement_iff, h])

end KeyspaceQuery
