import KeyspaceQuery.Proofs.Errors.Statement
import KeyspaceQuery.Proofs.Grammar.Statement
import KeyspaceQuery.Proofs.Lexeme.Edges

/-! Texts that go on behind a semicolon. What is added can only change the last piece of the text
before it: the semicolon, which no statement goes on behind, or a string that is still open, which
nothing but the name of a dropped keyspace may stand before. -/

namespace KeyspaceQuery

namespace StatementMachine

variable {q q' : State} {l l' : Lexeme} {s : Statement} {taken : Bool}

theorem move_ne_go_of_semicolon_or_broken (hl : l.kind = .semicolon ∨ l.IsBroken) :
    move q l ≠ .go q' := fun h =>
  hl.elim (fun hl => move_ne_go_of_closing q q' (.inr hl) h) (not_isBroken_of_move h)

/-- What stands behind a dropped keyspace does not matter, if it is not a part of its name. -/
theorem move_of_done_drop (h : move q l = .done s taken) (hs : s.nodeType = .dropKeyspace)
    (hdot : l'.kind ≠ .dot) (hid : l'.kind ≠ .identifier) : move q l' = .done s false := by
  cases q with
  | stage q => exact absurd hs (Stage.closes_of_move h).isNotDrop
  | path hd text dotted =>
    cases hb : hd.behind ⟨text⟩ with
    | some q =>
      simp only [move, Head.leave, hb] at h
      split at h
      · split at h <;> cases h
      · cases h
      · split at h
        · cases h
        · exact absurd hs (Stage.closes_of_move h).isNotDrop
    | none =>
      simp only [move, Head.leave, hb] at h
      split at h
      · split at h <;> cases h
      · cases h
      · cases dotted with
        | true => cases h
        | false =>
          cases h
          rw [move_path hdot hid, Head.leave, hb]

/-- A statement read in characters that end with a semicolon is read in front of all others too. -/
theorem answer_lexemes_append {cs : List Char} {rest : List Lexeme} (hcs : cs.getLast? = some ';')
    (h : move.answer q (lexemes cs) = some (s, rest)) (ds : List Char) :
    ∃ rest', move.answer q (lexemes (cs ++ ds)) = some (s, rest') := by
  obtain ⟨pieces, hpieces, -⟩ := exists_segments cs
  induction hpieces generalizing q with
  | nil => cases hcs
  | @cons l slice left pieces hl _ ih =>
    have hlast (hnil : left = []) : l.kind = .semicolon ∨ l.IsBroken :=
      hl.semicolon_or_broken (by rwa [hnil, List.append_nil] at hcs)
    rw [lexemes_of_takes hl, Machine.answer] at h
    rw [List.append_assoc]
    rcases hl.append fun hnil => Lexeme.stopsAt_of_semicolon_or_broken (hlast hnil) ds with
      hl' | ⟨rfl, hbad, hquote⟩
    · rw [lexemes_of_takes hl', Machine.answer]
      cases hmove : move q l with
      | go q' =>
        have hleft : left ≠ [] := fun hnil =>
          move_ne_go_of_semicolon_or_broken (hlast hnil) hmove
        rw [List.getLast?_append_of_ne_nil _ hleft] at hcs
        rw [hmove] at h
        exact ih hcs h
      | done s' taken =>
        rw [hmove] at h
        cases h
        exact ⟨_, rfl⟩
      | refuse r taken =>
        rw [hmove] at h
        cases h
    · -- the string is still open, and what is added may close it or not
      have hhead : (slice ++ ds).head? = some '"' := by
        rw [List.head?_append, hquote]
        rfl
      obtain ⟨l', ls, hls, hkind⟩ := exists_lexemes_of_quote hhead
      rw [List.nil_append, hls, Machine.answer]
      cases hmove : move q l with
      | go q' => exact absurd (.inl hbad) (not_isBroken_of_move hmove)
      | done s' taken =>
        rw [hmove] at h
        cases h
        rcases done_cases hmove with hclose | ⟨-, hdrop⟩
        · rcases hclose.kind with hk | hk <;> cases hbad.symm.trans hk
        · have hdot : l'.kind ≠ .dot := by rcases hkind with hk | hk | hk <;> simp [hk]
          have hid : l'.kind ≠ .identifier := by rcases hkind with hk | hk | hk <;> simp [hk]
          rw [move_of_done_drop hmove hdrop hdot hid]
          exact ⟨_, rfl⟩
      | refuse r taken =>
        rw [hmove] at h
        cases h

end StatementMachine

/-- What stands behind the semicolon that ends a text has no part in the statement at its front. -/
theorem parseStatement_append_behind_semicolon {a : String} {s : Statement}
    (h : parseStatement (a ++ ";") = .ok s) (b : String) :
    parseStatement (a ++ ";" ++ b) = .ok s := by
  obtain ⟨rest, hanswer⟩ :=
    (Parser.parse_eq_ok_iff reads_statement StatementMachine.ends_move).1 h
  have hlast : (a ++ ";").toList.getLast? = some ';' := by simp
  rw [Parser.parse_eq_ok_iff reads_statement StatementMachine.ends_move, String.toList_append]
  exact StatementMachine.answer_lexemes_append hlast hanswer b.toList

/-- The string behind the name is open before the semicolon, and what is added closes it. -/
theorem parseStatement_drop_append_behind_semicolon :
    parseStatement ("DROP KEYSPACE a\"" ++ ";") = .ok (.drop ⟨"a"⟩) ∧
      parseStatement ("DROP KEYSPACE a\"" ++ ";" ++ "\" . b") = .ok (.drop ⟨"a"⟩) := by
  have h : parseStatement ("DROP KEYSPACE a\"" ++ ";") = .ok (.drop ⟨"a"⟩) := by decide +kernel
  exact ⟨h, parseStatement_append_behind_semicolon h "\" . b"⟩

end KeyspaceQuery
