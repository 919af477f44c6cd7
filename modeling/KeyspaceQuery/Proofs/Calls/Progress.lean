import KeyspaceQuery.Proofs.Calls.Cursor
import KeyspaceQuery.Proofs.Calls.Resumption

/-! A parser that is called again and again comes to the end of its text. What a call leaves on the
stream is an end of what was there before, and a call for a statement leaves only what stands behind
the first token that is not blank, whatever it gives and whatever it puts back. So each such call
takes at least one of the tokens that count, as long as there are any. -/

namespace KeyspaceQuery

/-- The token is of the text and more than blanks. -/
def Token.isSolid (t : Token) : Bool := t.kind ≠ .whitespace ∧ t.kind ≠ .endOfInput

theorem Token.kind_ne_whitespace_of_isSolid {t : Token} (h : t.isSolid) : t.kind ≠ .whitespace :=
  (of_decide_eq_true h).1

namespace TokenStream

variable {z t : Token} {b : TokenStream} {ts pre post : List Token}

/-- Taken from one by one, the stream gives these tokens and then `z` for ever. -/
def Yields (z : Token) (ts : List Token) (b : TokenStream) : Prop :=
  ∀ n, replies reply (List.replicate n .next) b = .ok ((ts.takeD n z).map .token)

theorem reply_next {c : TokenStream} (h : b.next = .ok (t, c)) :
    reply .next b = .ok (.token t, c) := by
  simp only [reply, h]
  rfl

theorem yields_of_holds (h : b.Holds z ts) : b.Yields z ts := by
  intro n
  induction n generalizing b ts with
  | zero => rfl
  | succ n ih =>
    cases ts with
    | nil =>
      obtain ⟨c, hn, hc⟩ := next_of_holds_nil h
      rw [List.replicate_succ, replies_cons (reply_next hn), ih hc.holds]
      rfl
    | cons t ts =>
      obtain ⟨c, hn, hc⟩ := next_of_holds h
      rw [List.replicate_succ, replies_cons (reply_next hn), ih hc.holds]
      rfl

theorem terminated_front (hz : z.lexeme = .eof) (h : b.Holds z ts) :
    Terminated (((front z ts).1 :: (front z ts).2).map Token.lexeme) := by
  obtain ⟨_, -, htook⟩ := nextPastBlanks_of_holds hz h
  exact htook.terminated

theorem front_append (hpre : ∀ u ∈ pre, u.kind = .whitespace) (ht : t.kind ≠ .whitespace) :
    front z (pre ++ t :: post) = (t, post) := by
  induction pre with
  | nil => exact front_cons ht post
  | cons u pre ih =>
    obtain ⟨hu, hpre⟩ := List.forall_mem_cons.1 hpre
    rw [List.cons_append, front, if_pos hu, ih hpre]

theorem front_suffix (z : Token) (ts : List Token) : (front z ts).2 <:+ ts := by
  induction ts with
  | nil => exact List.suffix_refl _
  | cons t ts ih =>
    rw [front]
    split
    · exact ih.trans (List.suffix_cons _ _)
    · exact List.suffix_cons _ _

/-- Only the first token that is not blank is missing behind it. -/
theorem countP_front_add_one_le (hz : z.lexeme = .eof) (ts : List Token)
    (hf : (front z ts).1.kind ≠ .endOfInput) :
    (front z ts).2.countP Token.isSolid + 1 ≤ ts.countP Token.isSolid := by
  induction ts with
  | nil => exact absurd (congrArg Lexeme.kind hz) hf
  | cons t ts ih =>
    by_cases ht : t.kind = .whitespace
    · rw [front, if_pos ht] at hf ⊢
      exact (ih hf).trans ((List.suffix_cons t ts).sublist.countP_le)
    · rw [front_cons ht] at hf ⊢
      rw [List.countP_cons_of_pos (by simpa [Token.isSolid] using ⟨ht, hf⟩)]

theorem countP_front_le (hz : z.lexeme = .eof)
    (hts : Terminated (((front z ts).1 :: (front z ts).2).map Token.lexeme)) :
    (front z ts).2.countP Token.isSolid ≤ ts.countP Token.isSolid - 1 := by
  by_cases hf : (front z ts).1.kind = .endOfInput
  · rw [List.map_eq_nil_iff.1 (eq_nil_of_terminated hts hf)]
    exact Nat.zero_le _
  · exact Nat.le_sub_one_of_lt (countP_front_add_one_le hz ts hf)

theorem kind_front_of_countP_eq_zero (hz : z.lexeme = .eof) (h : ts.countP Token.isSolid = 0) :
    (front z ts).1.kind = .endOfInput := by
  by_contra hf
  have := countP_front_add_one_le hz ts hf
  omega

end TokenStream

namespace StatementMachine

open TokenStream (front)

variable {z : Token} {ts : List Token}

/-- Nothing is put back by what begins a statement or is refused there. -/
theorem Stage.takes_of_start (l : Lexeme) :
    (∃ q, start.move l = .go q) ∨ ∃ r, start.move l = .refuse r true := by
  obtain ⟨kind, w⟩ := l
  cases kind with
  | whitespace => exact .inl ⟨_, rfl⟩
  | keyword k => cases k <;> first | exact .inl ⟨_, rfl⟩ | exact .inr ⟨_, rfl⟩
  | _ => exact .inr ⟨_, rfl⟩

/-- The first token that is not blank is taken, and what is left stands behind it. -/
theorem rest_start_suffix (hz : z.lexeme = .eof)
    (hts : Terminated (((front z ts).1 :: (front z ts).2).map Token.lexeme)) :
    (Stage.start.run z ts).rest <:+ (front z ts).2 := by
  rw [ProgramMachine.run_start_front hz]
  generalize front z ts = f at hts ⊢
  simp only [Stage.run, State.run, Machine.run, move]
  rcases Stage.takes_of_start f.1.lexeme with ⟨q, hq⟩ | ⟨r, hr⟩
  · rw [hq]
    exact Machine.rest_run_suffix ends_move (ends_move.terminated (q := .stage .start) hq hts)
  · -- what is refused is taken all the same
    rw [hr]
    exact List.suffix_refl _

theorem run_start_of_end (hz : z.lexeme = .eof) (hf : (front z ts).1.kind = .endOfInput) :
    Stage.start.run z ts =
      .refused (.expected Expected.statement) (front z ts).1 (front z ts).2 := by
  rw [ProgramMachine.run_start_front hz]
  simp only [Stage.run, State.run, Machine.run, move, Stage.move, Stage.take, Token.kind_lexeme, hf]
  rfl

end StatementMachine

namespace ProgramMachine

open TokenStream (front)

variable {z : Token} {ts : List Token}

theorem run_between_of_end (hz : z.lexeme = .eof) (hf : (front z ts).1.kind = .endOfInput) :
    (State.between []).run z ts = .done .empty (front z ts).2 := by
  rw [run_front .between hz]
  simp only [State.run, Machine.run, move, Token.kind_lexeme, hf]
  rfl

theorem rest_between_suffix (hz : z.lexeme = .eof)
    (hts : ts = [] ∨ Terminated (ts.map Token.lexeme)) :
    ((State.between []).run z ts).rest <:+ ts := by
  rcases hts with rfl | hts
  · rw [run_between_nil hz]
    exact List.suffix_refl _
  · exact Machine.rest_run_suffix ends_move hts

end ProgramMachine

namespace Parser

open TokenStream (front)

variable {z : Token} {b c : TokenStream} {ts us : List Token}

theorem exists_run_statement_of_holds (hz : z.lexeme = .eof) (hb : b.Holds z ts) : ∃ c us,
    statement.run b = .ok ((StatementMachine.Stage.start.run z ts).result, c) ∧ c.Holds z us ∧
      us <:+ (front z ts).2 := by
  obtain ⟨c, hrun, hc⟩ := (StatementMachine.tracks_statement hz).run_eq hb
  exact ⟨c, _, hrun, hc, StatementMachine.rest_start_suffix hz (TokenStream.terminated_front hz hb)⟩

/-- A call leaves an end of what was on the stream, and one for a statement takes of it. -/
theorem exists_reply_leaving (hz : z.lexeme = .eof) (hb : b.Holds z ts) (call : Call) :
    ∃ a c us, reply call b = .ok (a, c) ∧ c.Holds z us ∧ us <:+ ts ∧
      us.countP Token.isSolid ≤ ts.countP Token.isSolid - [call].count .statement := by
  cases call with
  | statement =>
    obtain ⟨c, us, hrun, hc, hus⟩ := exists_run_statement_of_holds hz hb
    refine ⟨_, c, us, by simp only [reply, hrun]; rfl, hc,
      hus.trans (TokenStream.front_suffix z ts), ?_⟩
    calc us.countP Token.isSolid
      _ ≤ (front z ts).2.countP Token.isSolid := hus.sublist.countP_le
      _ ≤ ts.countP Token.isSolid - 1 :=
        TokenStream.countP_front_le hz (TokenStream.terminated_front hz hb)
  | program =>
    obtain ⟨c, hrun, hc⟩ := (ProgramMachine.tracks_program hz).run_eq hb
    have hus := ProgramMachine.rest_between_suffix hz (TokenStream.terminated_of_holds hb)
    exact ⟨_, c, _, by simp only [reply, hrun]; rfl, hc, hus, hus.sublist.countP_le⟩

theorem exists_serve_leaving (hz : z.lexeme = .eof) (calls : List Call) (hb : b.Holds z ts) :
    ∃ answers c us, serve reply calls b = .ok (answers, c) ∧ c.Holds z us ∧ us <:+ ts ∧
      us.countP Token.isSolid ≤ ts.countP Token.isSolid - calls.count .statement := by
  induction calls generalizing b ts with
  | nil => exact ⟨[], b, ts, rfl, hb, List.suffix_refl _, Nat.le_refl _⟩
  | cons call calls ih =>
    obtain ⟨a, c, us, hreply, hc, hus, hle⟩ := exists_reply_leaving hz hb call
    obtain ⟨answers, d, vs, hserve, hd, hvs, hle'⟩ := ih hc
    refine ⟨a :: answers, d, vs, serve_cons hreply hserve, hd, hvs.trans hus, ?_⟩
    rw [← List.singleton_append, List.count_append]
    omega

theorem exists_run_of_spent (hz : z.lexeme = .eof) (hb : b.Holds z ts)
    (h : ts.countP Token.isSolid = 0) :
    (∃ p c, statement.run b = .ok (.error
        ⟨.unexpected "EOF" ["CREATE", "DROP", "SELECT", "DELETE", "UPSERT"], p⟩, c)) ∧
      ∃ c, program.run b = .ok (.ok .empty, c) := by
  have hf := TokenStream.kind_front_of_countP_eq_zero hz h
  obtain ⟨c, hs, -⟩ := (StatementMachine.tracks_statement hz).run_eq hb
  obtain ⟨d, hp, -⟩ := (ProgramMachine.tracks_program hz).run_eq hb
  rw [StatementMachine.run_start_of_end hz hf] at hs
  rw [ProgramMachine.run_between_of_end hz hf] at hp
  refine ⟨⟨(front z ts).1.position, c, hs.trans ?_⟩, d, hp⟩
  simp only [Verdict.result, Refusal.error, SyntaxError.unexpected, Token.describe, hf]
  rfl

end Parser

/-- Whatever was asked of a parser before, what is still to come on its stream is an end of the
tokens of the text. If some of it counts, a call for a statement is answered, and nothing up to the
first token that counts can be had any more, by whatever calls. After as many calls for statements
as the text has tokens that count, there are no more statements to be had, and all programs are
empty. -/
theorem parser_progresses (text : String) : ∃ ts z, lex text = .ok ts ∧ z.lexeme = .eof ∧
    ∀ calls, ∃ answers b us, serve Parser.reply calls (.ofString text) = .ok (answers, b) ∧
      b.Yields z us ∧ us <:+ ts ∧
      (∀ pre t post, us = pre ++ t :: post → (∀ u ∈ pre, u.kind = .whitespace) → t.isSolid →
        ∃ o c, Parser.statement.run b = .ok (o, c) ∧
          ∀ more, ∃ answers d vs, serve Parser.reply more c = .ok (answers, d) ∧
            d.Yields z vs ∧ vs <:+ post) ∧
      (ts.countP Token.isSolid ≤ calls.count .statement →
        (∃ p c, Parser.statement.run b = .ok (.error
          ⟨.unexpected "EOF" ["CREATE", "DROP", "SELECT", "DELETE", "UPSERT"], p⟩, c)) ∧
        ∃ c, Parser.program.run b = .ok (.ok .empty, c)) := by
  obtain ⟨z, ts, hlex, hemits, hz, -⟩ := Source.emits_of_ready (Source.ready_ofString text)
  have hts : (TokenStream.ofString text).Holds z ts := hemits
  refine ⟨ts, z, hlex, hz, fun calls => ?_⟩
  obtain ⟨answers, b, us, hserve, hb, hus, hle⟩ := Parser.exists_serve_leaving hz calls hts
  refine ⟨answers, b, us, hserve, TokenStream.yields_of_holds hb, hus, ?_, fun hcount => ?_⟩
  · rintro pre t post rfl hpre ht
    obtain ⟨c, vs, hrun, hc, hvs⟩ := Parser.exists_run_statement_of_holds hz hb
    rw [TokenStream.front_append hpre (Token.kind_ne_whitespace_of_isSolid ht)] at hvs
    refine ⟨_, c, hrun, fun more => ?_⟩
    obtain ⟨answers, d, ws, hserve, hd, hws, -⟩ := Parser.exists_serve_leaving hz more hc
    exact ⟨answers, d, ws, hserve, TokenStream.yields_of_holds hd, hws.trans hvs⟩
  · exact Parser.exists_run_of_spent hz hb (by omega)

/-- The dot is refused with the blank behind it put back, and five calls are enough all the same. -/
theorem parser_progresses_past_dot : ∃ answers b,
    serve Parser.reply (List.replicate 5 .statement) (.ofString "DROP KEYSPACE a. b") =
      .ok (answers, b) ∧ ∃ c, Parser.program.run b = .ok (.ok .empty, c) := by
  have hlex : lex "DROP KEYSPACE a. b" = .ok
      [⟨.keyword .drop, ⟨0, 0⟩, "DROP"⟩, ⟨.whitespace, ⟨0, 4⟩, " "⟩,
        ⟨.keyword .keyspace, ⟨0, 5⟩, "KEYSPACE"⟩, ⟨.whitespace, ⟨0, 13⟩, " "⟩,
        ⟨.identifier, ⟨0, 14⟩, "a"⟩, ⟨.dot, ⟨0, 15⟩, ""⟩, ⟨.whitespace, ⟨0, 16⟩, " "⟩,
        ⟨.identifier, ⟨0, 17⟩, "b"⟩, ⟨.endOfInput, ⟨0, 19⟩, ""⟩] := by
    decide +kernel
  obtain ⟨ts, z, hlex', -, h⟩ := parser_progresses "DROP KEYSPACE a. b"
  cases hlex.symm.trans hlex'
  obtain ⟨answers, b, us, hserve, -, -, -, hspent⟩ := h (List.replicate 5 .statement)
  exact ⟨answers, b, hserve, (hspent (by decide)).2⟩

end KeyspaceQuery
