import KeyspaceQuery.Proofs.Grammar.Program

/-! Blanks mean something next to a dot only. Lexemes without the other blanks still tell what a
text comes to: blanks that keep two words apart can be put back, since words never stand side by
side in a text, and all others are passed over wherever a machine meets them. -/

namespace KeyspaceQuery

/-- What counts of some lexemes: all but the blanks that no dot stands next to. Of the other blanks
it does not count which characters they are. -/
def significant (behindDot : Bool) : List Lexeme → List Lexeme
  | [] => []
  | l :: ls =>
    if l.kind = .whitespace then
      if behindDot ∨ ls.head?.map Lexeme.kind = some .dot then
        ⟨.whitespace, ""⟩ :: significant false ls
      else significant false ls
    else l :: significant (l.kind = .dot) ls

/-- Outcomes that are the same but for where an error stands. -/
inductive Alike {α : Type} : Except Failure α → Except Failure α → Prop
  | ok (a : α) : Alike (.ok a) (.ok a)
  | error {e f : SyntaxError} : e.cause = f.cause →
    Alike (.error (.syntaxError e)) (.error (.syntaxError f))

/-- One blank between any two words that stand side by side. -/
def respaced (behindWord : Bool) : List Lexeme → List Lexeme
  | [] => []
  | l :: ls =>
    if behindWord ∧ l.kind.isWord then .space :: l :: respaced true ls
    else l :: respaced l.kind.isWord ls

theorem Refusal.cause_blank (r : Refusal) {l : Lexeme} (hl : l.kind = .whitespace) :
    r.cause l = r.cause .space := by
  obtain ⟨kind, w⟩ := l
  cases hl
  cases r <;> rfl

variable {σ β : Type}

def Move.outcome (l : Lexeme) (next : σ → Option (Except SyntaxError.Cause β)) :
    Move σ β → Option (Except SyntaxError.Cause β)
  | go q => next q
  | done b _ => some (.ok b)
  | refuse r _ => some (.error (r.cause l))

namespace Machine

/-- The answer found in a list, or the cause of the refusal. Behind it there is nothing. -/
def outcome (m : Machine σ β) : σ → List Lexeme → Option (Except SyntaxError.Cause β)
  | _, [] => none
  | q, l :: ls => (m q l).outcome l fun q' => outcome m q' ls

/-- The state at the start, or behind a lexeme. -/
inductive Behind (m : Machine σ β) (q₀ : σ) : Option Lexeme → σ → Prop
  | start : Behind m q₀ none q₀
  | step {q q' l} : m q l = .go q' → Behind m q₀ (some l) q'

/-- A blank in front of the lexeme changes nothing. -/
def Skips (m : Machine σ β) (q : σ) (l : Lexeme) : Prop :=
  (∃ q', m q .space = .go q' ∧ m q' l = m q l) ∨
    ∃ b, m q .space = .done b false ∧ m q l = .done b false

structure SkipsBlanks (m : Machine σ β) (q₀ : σ) : Prop where
  literal : ∀ q {l}, l.kind = .whitespace → m q l = m q .space
  skips : ∀ {k q l}, m.Behind q₀ k q → (∀ j ∈ k, j.kind ≠ .dot) →
    (∀ j ∈ k, ¬ (j.kind.isWord ∧ l.kind.isWord)) → l.kind ≠ .dot → m.Skips q l

variable {m : Machine σ β} {q q₀ : σ} {l : Lexeme} {ls ms : List Lexeme}

theorem outcome_map (h : m.Ends) {z : Token} {q : σ} {ts : List Token}
    (hts : Terminated (ts.map Token.lexeme)) : m.outcome q (ts.map Token.lexeme) =
      match m.run Token.lexeme z q ts with
      | .done b _ => some (.ok b)
      | .refused r t _ => some (.error (r.error t).cause) := by
  induction ts generalizing q with
  | nil => cases hts
  | cons t ts ih =>
    simp only [List.map_cons, outcome, run]
    cases hm : m q t.lexeme with
    | go q' => exact ih (h.terminated hm hts)
    | done b taken => rfl
    | refuse r taken =>
      simp only [Move.outcome, Move.carryOut]
      rw [Refusal.cause_error]

theorem alike_of_outcome_eq {parse : String → Except Failure β} (h : Parser.Reads m q parse)
    (hm : m.Ends) {x y : String}
    (hxy : m.outcome q (lexemes x.toList) = m.outcome q (lexemes y.toList)) :
    Alike (parse x) (parse y) := by
  obtain ⟨z, ts, -, hts, hx⟩ := h x
  obtain ⟨w, us, -, hus, hy⟩ := h y
  rw [← hts, ← hus, outcome_map hm (hts ▸ terminated_lexemes _) (z := z),
    outcome_map hm (hus ▸ terminated_lexemes _) (z := w)] at hxy
  split at hx <;> split at hy <;> simp_all
  · exact .ok _
  · exact .error hxy

theorem outcome_cons_congr (h : ∀ q', m q l = .go q' → m.outcome q' ls = m.outcome q' ms) :
    m.outcome q (l :: ls) = m.outcome q (l :: ms) := by
  simp only [outcome]
  cases hm : m q l with
  | go q' => exact h q' hm
  | done b taken => rfl
  | refuse r taken => rfl

theorem outcome_cons_blank (h : m.SkipsBlanks q₀) (hl : l.kind = .whitespace) :
    m.outcome q (l :: ls) = m.outcome q (.space :: ls) := by
  simp only [outcome, h.literal q hl]
  cases m q .space with
  | go q' => rfl
  | done b taken => rfl
  | refuse r taken => exact congrArg (some ∘ Except.error) (r.cause_blank hl)

theorem outcome_of_skips (h : m.Skips q l) : m.outcome q (.space :: l :: ls) =
    m.outcome q (l :: ls) := by
  rcases h with ⟨q', hq, hl⟩ | ⟨b, hq, hl⟩
  · simp only [outcome, hq, Move.outcome, hl]
  · simp only [outcome, hq, hl, Move.outcome]

theorem respaced_cons (w : Bool) (h : ¬ (w = true ∧ l.kind.isWord = true)) :
    respaced w (l :: ls) = l :: respaced l.kind.isWord ls := by
  rw [respaced, if_neg h]

theorem significant_cons {d : Bool} (hl : l.kind ≠ .whitespace) :
    significant d (l :: ls) = l :: significant (l.kind = .dot) ls := by
  rw [significant, if_neg hl]

/-- Behind a lexeme that is apart from it, a word is not held for the second of two. -/
theorem respaced_of_apart {k : Option Lexeme} (h : ∀ j ∈ k, j.Apart l) :
    respaced (k.any fun j => j.kind.isWord) (l :: ls) = l :: respaced l.kind.isWord ls := by
  apply respaced_cons
  rintro ⟨hk, hl⟩
  obtain ⟨j, rfl, hj⟩ := (Option.any_eq_true _ _).1 hk
  exact (h j rfl).1 ⟨hj, hl⟩

/-- A list comes to the same as what counts of it, with blanks between words put back. -/
theorem outcome_respaced (h : m.SkipsBlanks q₀) (hm : m.Ends) {k : Option Lexeme}
    (hq : m.Behind q₀ k q) (hc : (k.toList ++ ls).IsChain Lexeme.Apart) (hls : Terminated ls) :
    m.outcome q ls = m.outcome q (respaced (k.any fun j => j.kind.isWord)
      (significant (k.any fun j => j.kind = .dot) ls)) := by
  induction ls generalizing k q with
  | nil => cases hls
  | cons l ls ih =>
    obtain ⟨hk, hc', happ⟩ := List.isChain_append.1 hc
    have hapart : ∀ j ∈ k, j.Apart l := fun j hj => happ j (by simp [Option.mem_def.1 hj]) l rfl
    have hstep (q' : σ) (hq' : m q l = .go q') : m.outcome q' ls =
        m.outcome q' (respaced l.kind.isWord (significant (l.kind = .dot) ls)) :=
      ih (k := some l) (.step hq') hc' (hm.terminated hq' hls)
    by_cases hl : l.kind = .whitespace
    · have hspace (q' : σ) (hq' : m q .space = .go q') :
          m.outcome q' ls = m.outcome q' (respaced false (significant false ls)) := by
        have := hstep q' (h.literal q hl ▸ hq')
        simpa [hl, TokenKind.isWord] using this
      have hls' : Terminated ls := by
        rcases terminated_cons_iff.1 hls with ⟨rfl, -⟩ | ⟨-, hls'⟩
        · cases hl
        · exact hls'
      rw [outcome_cons_blank h hl, significant, if_pos hl]
      by_cases hd : (k.any fun j => j.kind = .dot) = true ∨ ls.head?.map Lexeme.kind = some .dot
      · rw [if_pos hd, respaced_cons _ (by simp [TokenKind.isWord]), outcome_cons_congr hspace]
        exact (outcome_cons_blank h rfl).symm
      · rw [if_neg hd]
        obtain ⟨hkdot, hdot⟩ := not_or.1 hd
        obtain ⟨n, ns, rfl⟩ := List.exists_cons_of_ne_nil hls'.ne_nil
        have hn : n.kind ≠ .whitespace := fun hb => (hc'.rel_head? rfl).2 ⟨hl, hb⟩
        by_cases hw : (k.any fun j => j.kind.isWord) = true ∧ n.kind.isWord = true
        · -- the blank keeps two words apart
          rw [significant_cons hn, respaced, if_pos hw]
          refine outcome_cons_congr fun q' hq' => ?_
          have := hspace q' hq'
          rwa [significant_cons hn, respaced_cons _ (by simp), hw.2] at this
        · have hword : ∀ j ∈ k, ¬ (j.kind.isWord ∧ n.kind.isWord) := by
            rintro j rfl ⟨hj, hn⟩
            exact hw ⟨hj, hn⟩
          have hkdot' : ∀ j ∈ k, j.kind ≠ .dot := by
            rintro j rfl hj
            exact hkdot (by simpa using hj)
          rw [outcome_of_skips (h.skips hq hkdot' hword (by simpa using hdot))]
          have := ih hq (List.isChain_append.2 ⟨hk, hc'.tail, fun j hj i hi => ?_⟩) hls'
          · rwa [Bool.eq_false_iff.2 hkdot] at this
          · obtain rfl := Option.some.inj hi
            have hj : j ∈ k := Option.mem_toList.1 (List.mem_of_mem_getLast? hj)
            exact ⟨hword j hj, fun hb => hn hb.2⟩
    · rw [significant_cons hl, respaced_of_apart hapart]
      exact outcome_cons_congr hstep

/-- Texts in which the same counts come to the same. -/
theorem SkipsBlanks.alike_of_significant_eq {parse : String → Except Failure β}
    (h : m.SkipsBlanks q₀) (hm : m.Ends) (hr : Parser.Reads m q₀ parse) {x y : String}
    (hxy : significant false (lexemes x.toList) = significant false (lexemes y.toList)) :
    Alike (parse x) (parse y) := by
  have hrespaced (text : String) : m.outcome q₀ (lexemes text.toList) =
      m.outcome q₀ (respaced false (significant false (lexemes text.toList))) :=
    outcome_respaced h hm (k := none) .start (isChain_lexemes _) (terminated_lexemes _)
  apply alike_of_outcome_eq hr hm
  rw [hrespaced x, hxy, ← hrespaced y]

end Machine

namespace StatementMachine

variable {k l : Lexeme} {q q₁ : State}

theorem move_blank (q : State) (hl : l.kind = .whitespace) : move q l = move q .space := by
  obtain ⟨kind, w⟩ := l
  cases hl
  cases q with
  | stage s => rfl
  | path h text dotted => rfl

theorem skips_of_go (hq : move q₁ k = .go q) (hk : k.kind ≠ .dot)
    (hw : ¬ (k.kind.isWord ∧ l.kind.isWord)) (hl : l.kind ≠ .dot) : move.Skips q l := by
  cases q with
  | stage s => exact .inl ⟨.stage s, rfl, rfl⟩
  | path h text dotted =>
    have hkind := kind_of_path hq
    cases dotted with
    | true => exact absurd hkind hk
    | false =>
      -- a word behind the blank would have been one more part of the name
      have hid : l.kind ≠ .identifier := by
        intro hid
        rw [hkind, hid] at hw
        exact hw ⟨rfl, rfl⟩
      unfold Machine.Skips
      rw [move_path (by decide) (by decide), move_path hl hid, Head.leave, Head.leave]
      cases h.behind ⟨text⟩ with
      | some s => exact .inl ⟨.stage s, rfl, rfl⟩
      | none => exact .inr ⟨.drop ⟨text⟩, rfl, rfl⟩

theorem skipsBlanks_move : move.SkipsBlanks (.stage .start) where
  literal q {_} hl := move_blank q hl
  skips {_ _ _} hq hdot hw hl := by
    cases hq with
    | start => exact .inl ⟨.stage .start, rfl, rfl⟩
    | step hq => exact skips_of_go hq (hdot _ rfl) (hw _ rfl) hl

end StatementMachine

namespace ProgramMachine

variable {k l : Lexeme} {q q₁ : State}

theorem move_blank (q : State) (hl : l.kind = .whitespace) : move q l = move q .space := by
  obtain ⟨kind, w⟩ := l
  cases hl
  cases q with
  | between read => rfl
  | within read q =>
    simp only [move, StatementMachine.move_blank q (l := ⟨.whitespace, w⟩) rfl]
    cases StatementMachine.move q .space with
    | go q => rfl
    | done s taken => cases taken <;> rfl
    | refuse r taken => rfl
  | closing read => rfl

/-- A blank ends a `DROP`, which has then to be closed as it had before. -/
theorem skips_within {read : List Statement} {q : StatementMachine.State}
    (h : StatementMachine.move.Skips q l) : move.Skips (.within read q) l := by
  rcases h with ⟨q', hspace, hl⟩ | ⟨s, hspace, hl⟩
  · refine .inl ⟨.within read q', ?_, ?_⟩
    · simp only [move, hspace]
      rfl
    · simp only [move, hl]
  · refine .inl ⟨.closing (read ++ [s]), ?_, ?_⟩
    · simp only [move, hspace]
      rfl
    · simp only [move, hl]
      rfl

theorem skipsBlanks_move : move.SkipsBlanks (.between []) where
  literal q {_} hl := move_blank q hl
  skips {_ q _} hq hdot hw hl := by
    cases q with
    | between read => exact .inl ⟨.between read, rfl, rfl⟩
    | closing read => exact .inl ⟨.closing read, rfl, rfl⟩
    | within read q =>
      cases hq with
      | step hq =>
        obtain ⟨q₀, hq₀⟩ := exists_move_of_within hq
        exact skips_within (StatementMachine.skips_of_go hq₀ (hdot _ rfl) (hw _ rfl) hl)

end ProgramMachine

/-- All texts have tokens, and two texts in whose tokens the same counts come to the same, both as
programs and as statements: the same value, or errors of the same cause. -/
theorem alike_of_significant (x y : String) : ∃ xs ys, lex x = .ok xs ∧ lex y = .ok ys ∧
    (significant false (xs.map Token.lexeme) = significant false (ys.map Token.lexeme) →
      Alike (parseProgram x) (parseProgram y) ∧ Alike (parseStatement x) (parseStatement y)) := by
  obtain ⟨xs, hx, hxs⟩ := Parser.lex_of_reads reads_program x
  obtain ⟨ys, hy, hys⟩ := Parser.lex_of_reads reads_program y
  refine ⟨xs, ys, hx, hy, fun h => ?_⟩
  rw [hxs, hys] at h
  exact ⟨ProgramMachine.skipsBlanks_move.alike_of_significant_eq ProgramMachine.ends_move
      reads_program h,
    StatementMachine.skipsBlanks_move.alike_of_significant_eq StatementMachine.ends_move
      reads_statement h⟩

/-- Blanks around a semicolon, and what blanks they are between words, make no difference; the one
before a dot is told in both. -/
theorem alike_of_other_blanks :
    Alike (parseProgram "DROP KEYSPACE a .b;") (parseProgram " DROP\nKEYSPACE a\t.b ; ") ∧
      Alike (parseStatement "DROP KEYSPACE a .b;") (parseStatement " DROP\nKEYSPACE a\t.b ; ") := by
  obtain ⟨xs, ys, hx, hy, h⟩ :=
    alike_of_significant "DROP KEYSPACE a .b;" " DROP\nKEYSPACE a\t.b ; "
  have hx' : lex "DROP KEYSPACE a .b;" = .ok
      [⟨.keyword .drop, ⟨0, 0⟩, "DROP"⟩, ⟨.whitespace, ⟨0, 4⟩, " "⟩,
        ⟨.keyword .keyspace, ⟨0, 5⟩, "KEYSPACE"⟩, ⟨.whitespace, ⟨0, 13⟩, " "⟩,
        ⟨.identifier, ⟨0, 14⟩, "a"⟩, ⟨.whitespace, ⟨0, 15⟩, " "⟩, ⟨.dot, ⟨0, 16⟩, ""⟩,
        ⟨.identifier, ⟨0, 17⟩, "b"⟩, ⟨.semicolon, ⟨0, 18⟩, ""⟩, ⟨.endOfInput, ⟨0, 19⟩, ""⟩] := by
    decide +kernel
  have hy' : lex " DROP\nKEYSPACE a\t.b ; " = .ok
      [⟨.whitespace, ⟨0, 0⟩, " "⟩, ⟨.keyword .drop, ⟨0, 1⟩, "DROP"⟩, ⟨.whitespace, ⟨0, 5⟩, "\n"⟩,
        ⟨.keyword .keyspace, ⟨1, 0⟩, "KEYSPACE"⟩, ⟨.whitespace, ⟨1, 8⟩, " "⟩,
        ⟨.identifier, ⟨1, 9⟩, "a"⟩, ⟨.whitespace, ⟨1, 10⟩, "\t"⟩, ⟨.dot, ⟨1, 11⟩, ""⟩,
        ⟨.identifier, ⟨1, 12⟩, "b"⟩, ⟨.whitespace, ⟨1, 13⟩, " "⟩, ⟨.semicolon, ⟨1, 14⟩, ""⟩,
        ⟨.whitespace, ⟨1, 15⟩, " "⟩, ⟨.endOfInput, ⟨1, 17⟩, ""⟩] := by
    decide +kernel
  cases hx'.symm.trans hx
  cases hy'.symm.trans hy
  exact h (by decide)

end KeyspaceQuery
