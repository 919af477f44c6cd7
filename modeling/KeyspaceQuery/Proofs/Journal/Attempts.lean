import KeyspaceQuery.Proofs.Calls.Parser

/-! What the journal says about statements. Each attempt at one notes the token it begins with and
then its outcome, but the outcome is lost where `CREATE` or `DROP` is not followed by `KEYSPACE`.
Nothing else that the parser does is noted beside its tokens, so the messages of a program are those
of its attempts. -/

namespace KeyspaceQuery

namespace TokenStream

variable {t : Token} {b b' c : TokenStream}

/-- What was noted about statements. -/
def debugMessages (b : TokenStream) : List String :=
  (b.journal.toList.filter (·.level = "DEBUG")).map Event.message

theorem debugMessages_note {e : Event} (he : e.level = "DEBUG") (b : TokenStream) :
    (b.note e).debugMessages = b.debugMessages ++ [e.message] := by
  simp [debugMessages, note, he]

theorem debugMessages_next (h : b.next = .ok (t, c)) : c.debugMessages = b.debugMessages := by
  unfold next at h
  split at h
  · cases h
    rfl
  · obtain ⟨⟨_, _⟩, _, h⟩ := bind_eq_ok_iff.1 h
    cases h
    simp [debugMessages, Event.level]

theorem debugMessages_nextPastBlanks (h : b.nextPastBlanks = .ok (t, c)) :
    c.debugMessages = b.debugMessages := by
  fun_induction nextPastBlanks b with
  | case1 => cases h
  | case2 b u d hn _ ih => exact (ih h).trans (debugMessages_next hn)
  | case3 b u d hn _ =>
    cases h
    exact debugMessages_next hn

theorem debugMessages_putBack (h : b.putBack = .ok c) : c.debugMessages = b.debugMessages := by
  unfold putBack at h
  split at h <;> cases h
  rfl

/-- The streams differ in their journals at most. -/
structure SameTokens (b c : TokenStream) : Prop where
  source : b.source = c.source
  slot : b.slot = c.slot

theorem sameTokens_note (e : Event) (b : TokenStream) : SameTokens (b.note e) b := ⟨rfl, rfl⟩

theorem next_of_sameTokens (hb : SameTokens b b') (h : b.next = .ok (t, c)) :
    ∃ c', b'.next = .ok (t, c') ∧ SameTokens c c' := by
  unfold next at h ⊢
  rw [← hb.source, ← hb.slot]
  split at h
  · cases h
    exact ⟨_, rfl, rfl, rfl⟩
  · obtain ⟨⟨_, _⟩, hn, h⟩ := bind_eq_ok_iff.1 h
    cases h
    rw [hn]
    exact ⟨_, rfl, rfl, rfl⟩

/-- What was noted makes no difference to what is read. -/
theorem nextPastBlanks_of_sameTokens (hb : SameTokens b b') (h : b.nextPastBlanks = .ok (t, c)) :
    ∃ c', b'.nextPastBlanks = .ok (t, c') ∧ SameTokens c c' := by
  fun_induction nextPastBlanks b generalizing b' with
  | case1 => cases h
  | case2 b u d hn hu ih =>
    obtain ⟨d', hn', hd⟩ := next_of_sameTokens hb hn
    rw [nextPastBlanks_of_blank hn' hu]
    exact ih hd h
  | case3 b u d hn hu =>
    cases h
    obtain ⟨d', hn', hd⟩ := next_of_sameTokens hb hn
    exact ⟨d', nextPastBlanks_of_next hn' hu, hd⟩

/-- What comes next begins like a statement on a keyspace, but lacks the word `KEYSPACE`. -/
def LacksKeyspaceWord (b : TokenStream) : Prop :=
  ∃ t c u d, b.nextPastBlanks = .ok (t, c) ∧ c.nextPastBlanks = .ok (u, d) ∧
    (t.kind = .keyword .create ∨ t.kind = .keyword .drop) ∧ u.kind ≠ .keyword .keyspace

theorem lacksKeyspaceWord_iff {u : Token} {d : TokenStream} (ht : b.nextPastBlanks = .ok (t, c))
    (hu : c.nextPastBlanks = .ok (u, d)) : b.LacksKeyspaceWord ↔
      (t.kind = .keyword .create ∨ t.kind = .keyword .drop) ∧ u.kind ≠ .keyword .keyspace := by
  refine ⟨?_, fun h => ⟨t, c, u, d, ht, hu, h⟩⟩
  rintro ⟨t', c', u', d', ht', hu', h⟩
  cases ht.symm.trans ht'
  cases hu.symm.trans hu'
  exact h

theorem not_lacksKeyspaceWord (ht : b.nextPastBlanks = .ok (t, c))
    (hcreate : t.kind ≠ .keyword .create) (hdrop : t.kind ≠ .keyword .drop) :
    ¬ b.LacksKeyspaceWord := by
  rintro ⟨t', c', u, d, ht', -, h⟩
  cases ht.symm.trans ht'
  exact h.1.elim hcreate hdrop

end TokenStream

namespace Parser

variable {σ α β : Type} {b c : TokenStream}

theorem run_bind_eq_ok {p : Parser α} {f : α → Parser β} {o : Except SyntaxError β}
    (h : (p >>= f).run b = .ok (o, c)) : (∃ e, p.run b = .ok (.error e, c) ∧ o = .error e) ∨
      ∃ a d, p.run b = .ok (.ok a, d) ∧ (f a).run d = .ok (o, c) := by
  simp only [bind] at h
  rcases hp : p.run b with x | ⟨e | a, d⟩ <;> simp only [hp] at h
  · cases h
  · cases h
    exact .inl ⟨e, rfl, rfl⟩
  · exact .inr ⟨a, d, rfl, h⟩

/-- The parser notes nothing about statements. -/
def Quiet (p : Parser α) : Prop :=
  ∀ ⦃b o c⦄, p.run b = .ok (o, c) → c.debugMessages = b.debugMessages

theorem quiet_pure {a : α} : Quiet (pure a) := by
  intro b o c h
  cases h
  rfl

theorem quiet_reject {e : SyntaxError} : Quiet (reject e : Parser α) := by
  intro b o c h
  cases h
  rfl

theorem quiet_bind {p : Parser α} {f : α → Parser β} (hp : Quiet p) (hf : ∀ a, Quiet (f a)) :
    Quiet (p >>= f) := by
  intro b o c h
  rcases run_bind_eq_ok h with ⟨e, hr, -⟩ | ⟨a, d, hr, h⟩
  · exact hp hr
  · exact (hf a h).trans (hp hr)

theorem debugMessages_settle {d : Choice α} {o : Except SyntaxError α}
    (h : settle b d = .ok (o, c)) : c.debugMessages = b.debugMessages := by
  cases d with
  | consume a | reject e =>
    cases h
    rfl
  | leave a =>
    obtain ⟨_, hput, h⟩ := bind_eq_ok_iff.1 h
    cases h
    exact TokenStream.debugMessages_putBack hput

theorem quiet_next {choose : Token → Choice α} : Quiet (next choose) := by
  intro b o c h
  obtain ⟨⟨t, d⟩, hn, h⟩ := bind_eq_ok_iff.1 h
  exact (debugMessages_settle h).trans (TokenStream.debugMessages_nextPastBlanks hn)

theorem quiet_nextRaw {choose : Token → Choice α} : Quiet (nextRaw choose) := by
  intro b o c h
  obtain ⟨⟨t, d⟩, hn, h⟩ := bind_eq_ok_iff.1 h
  exact (debugMessages_settle h).trans (TokenStream.debugMessages_next hn)

theorem quiet_rounds {step : σ → Parser (Round σ α)} {advances : Advances step}
    (h : ∀ s, Quiet (step s)) (s : σ) : Quiet (rounds step advances s) := by
  intro b o c hr
  simp only [rounds] at hr
  fun_induction runRounds step advances s b with
  | case1 => cases hr
  | case2 s b e d hs | case3 s b a d hs =>
    cases hr
    exact h s hs
  | case4 s b s' d hs ih => exact (ih hr).trans (h s hs)

theorem quiet_oneOrMore {more : Parser Bool} {progresses : more.Progresses (· = true)}
    {item : Parser α} (hmore : Quiet more) (hitem : Quiet item) :
    Quiet (oneOrMore more progresses item) := by
  refine quiet_bind hitem fun a => quiet_rounds (fun items => ?_) [a]
  refine quiet_bind hmore fun again => ?_
  cases again with
  | false => exact quiet_pure
  | true => exact quiet_bind hitem fun _ => quiet_pure

section Quiet

theorem quiet_string : Quiet string := quiet_bind quiet_next fun _ => quiet_pure

theorem quiet_identifier : Quiet identifier := quiet_bind quiet_next fun _ => quiet_pure

theorem quiet_word (k : Keyword) (expected : List Expectation) : Quiet (word k expected) :=
  quiet_bind quiet_next fun _ => quiet_pure

theorem quiet_keyspace : Quiet keyspace := by
  refine quiet_bind quiet_next fun first => ?_
  refine quiet_bind (quiet_rounds (fun _ => quiet_nextRaw) _) fun x => ?_
  dsimp only
  split
  · exact quiet_reject
  · exact quiet_pure

theorem quiet_equality (admits : Admits) (key : String) : Quiet (equality admits key) := by
  refine quiet_bind quiet_string fun first => quiet_bind quiet_next fun pair => ?_
  split
  · exact quiet_bind quiet_string fun _ => quiet_pure
  · exact quiet_pure

theorem quiet_range (key : String) : Quiet (range key) :=
  quiet_bind quiet_string fun _ => quiet_bind quiet_next fun _ =>
    quiet_bind quiet_string fun _ => quiet_pure

theorem quiet_filter (admits : Admits) : Quiet (filter admits) := by
  refine quiet_bind quiet_identifier fun key => quiet_bind quiet_next fun isRange => ?_
  split
  · exact quiet_range key
  · exact quiet_equality admits key

theorem quiet_keys : Quiet keys := by
  refine quiet_bind quiet_next fun several => ?_
  split
  · exact quiet_oneOrMore quiet_next quiet_identifier
  · exact quiet_bind quiet_identifier fun _ => quiet_pure

theorem quiet_create : Quiet create :=
  quiet_bind quiet_keyspace fun _ => quiet_bind (quiet_word _ _) fun _ =>
    quiet_bind quiet_keys fun _ => quiet_bind quiet_next fun _ => quiet_pure

theorem quiet_drop : Quiet drop := quiet_bind quiet_keyspace fun _ => quiet_pure

theorem quiet_keyspaceWhere (admits : Admits) : Quiet (keyspaceWhere admits) :=
  quiet_bind quiet_keyspace fun _ => quiet_bind (quiet_word _ _) fun _ =>
    quiet_bind (quiet_oneOrMore quiet_next (quiet_filter admits)) fun _ => quiet_pure

theorem quiet_fromWhere (build : Path → List Filter → Statement) : Quiet (fromWhere build) :=
  quiet_bind (quiet_word _ _) fun _ => quiet_bind (quiet_keyspaceWhere _) fun _ => quiet_pure

theorem quiet_upsert : Quiet upsert :=
  quiet_bind quiet_string fun _ => quiet_bind (quiet_word _ _) fun _ =>
    quiet_bind (quiet_keyspaceWhere _) fun _ => quiet_pure

theorem quiet_close (s : Statement) : Quiet (close s) := by
  unfold close
  split
  · exact quiet_next
  · exact quiet_pure

end Quiet

/-- What is noted about the outcome of a statement. -/
def outcomeMessage : Except SyntaxError Statement → String
  | .ok s => "parsed " ++ s.nodeType.name ++ ": " ++ s.render
  | .error e => "parse failed: " ++ e.message

theorem debugMessages_reported {p : Parser Statement} (hp : Quiet p)
    {o : Except SyntaxError Statement} (h : (reported p).run b = .ok (o, c)) :
    c.debugMessages = b.debugMessages ++ [outcomeMessage o] := by
  obtain ⟨⟨o', d⟩, hr, h⟩ := bind_eq_ok_iff.1 h
  cases h
  cases o with
  | ok s | error e => rw [TokenStream.debugMessages_note rfl, hp hr]; rfl

theorem run_expect {kind : TokenKind} {expected : List Expectation} {o : Except SyntaxError Token}
    (h : (expect kind expected).run b = .ok (o, c)) :
    ∃ u, b.nextPastBlanks = .ok (u, c) ∧ ((∃ a, o = .ok a) ↔ u.kind = kind) := by
  obtain ⟨⟨u, d⟩, hn, h⟩ := bind_eq_ok_iff.1 h
  by_cases hu : u.kind = kind
  · simp only [hu, if_true] at h
    cases h
    exact ⟨u, hn, iff_of_true ⟨u, rfl⟩ hu⟩
  · simp only [hu, if_false] at h
    cases h
    exact ⟨u, hn, iff_of_false nofun hu⟩

theorem run_word {k : Keyword} {expected : List Expectation} {o : Except SyntaxError Unit}
    (h : (word k expected).run b = .ok (o, c)) :
    ∃ u, b.nextPastBlanks = .ok (u, c) ∧ (o = .ok () ↔ u.kind = .keyword k) := by
  rcases run_bind_eq_ok h with ⟨e, hr, rfl⟩ | ⟨a, d, hr, h⟩
  · obtain ⟨u, hn, hu⟩ := run_expect hr
    exact ⟨u, hn, by simpa using hu⟩
  · cases h
    obtain ⟨u, hn, hu⟩ := run_expect hr
    exact ⟨u, hn, by simpa using hu⟩

/-- Behind `CREATE` or `DROP` the outcome is noted once `KEYSPACE` was read. -/
theorem debugMessages_behind_keyspaceWord {p : Parser Statement} (hp : Quiet p)
    {o : Except SyntaxError Statement}
    (h : (word .keyspace Expected.keyspaceWord >>= fun _ => reported p).run b = .ok (o, c)) :
    ∃ u d, b.nextPastBlanks = .ok (u, d) ∧
      (u.kind = .keyword .keyspace →
        c.debugMessages = b.debugMessages ++ [outcomeMessage o]) ∧
      (u.kind ≠ .keyword .keyspace → c.debugMessages = b.debugMessages ∧ ∃ e, o = .error e) := by
  rcases run_bind_eq_ok h with ⟨e, hr, rfl⟩ | ⟨⟨⟩, d, hr, h⟩
  · obtain ⟨u, hn, hu⟩ := run_word hr
    exact ⟨u, c, hn, fun hk => (nomatch hu.2 hk), fun _ => ⟨quiet_word _ _ hr, e, rfl⟩⟩
  · obtain ⟨u, hn, hu⟩ := run_word hr
    refine ⟨u, d, hn, fun _ => ?_, fun hk => absurd (hu.1 rfl) hk⟩
    rw [debugMessages_reported hp h, quiet_word _ _ hr]

/-- An attempt at the statement that comes next on `b` begins with `t` and comes to `o`, and it has
the messages `ms`. -/
structure Notes (b : TokenStream) (t : Token) (o : Except SyntaxError Statement)
    (ms : List String) : Prop where
  start : ∃ d, b.nextPastBlanks = .ok (t, d)
  noted : ¬ b.LacksKeyspaceWord →
    ms = ["parsing statement starting with " ++ t.describe, outcomeMessage o]
  lost : b.LacksKeyspaceWord →
    ms = ["parsing statement starting with " ++ t.describe] ∧ ∃ e, o = .error e

section Notes

variable {t : Token} {d : TokenStream} {p : Parser Statement} {o : Except SyntaxError Statement}

theorem debugMessages_started (hn : b.nextPastBlanks = .ok (t, d)) :
    (d.note (.started t)).debugMessages =
      b.debugMessages ++ ["parsing statement starting with " ++ t.describe] := by
  rw [TokenStream.debugMessages_note rfl, TokenStream.debugMessages_nextPastBlanks hn]
  rfl

theorem notes_of_reported (hn : b.nextPastBlanks = .ok (t, d)) (hlacks : ¬ b.LacksKeyspaceWord)
    (hp : Quiet p) (h : (reported p).run (d.note (.started t)) = .ok (o, c)) :
    ∃ ms, Notes b t o ms ∧ c.debugMessages = b.debugMessages ++ ms := by
  refine ⟨_, ⟨⟨d, hn⟩, fun _ => rfl, fun h => absurd h hlacks⟩, ?_⟩
  rw [debugMessages_reported hp h, debugMessages_started hn, List.append_assoc]
  rfl

theorem notes_behind_keyspaceWord (hn : b.nextPastBlanks = .ok (t, d))
    (ht : t.kind = .keyword .create ∨ t.kind = .keyword .drop) (hp : Quiet p)
    (h : (word .keyspace Expected.keyspaceWord >>= fun _ => reported p).run
      (d.note (.started t)) = .ok (o, c)) :
    ∃ ms, Notes b t o ms ∧ c.debugMessages = b.debugMessages ++ ms := by
  obtain ⟨u, e, hu, hnoted, hlost⟩ := debugMessages_behind_keyspaceWord hp h
  -- `u` was read behind the note, and would be read without it
  obtain ⟨e', hu, -⟩ :=
    TokenStream.nextPastBlanks_of_sameTokens (TokenStream.sameTokens_note _ d) hu
  have hlacks := TokenStream.lacksKeyspaceWord_iff hn hu
  by_cases hk : u.kind = .keyword .keyspace
  · refine ⟨_, ⟨⟨d, hn⟩, fun _ => rfl, fun h => absurd hk (hlacks.1 h).2⟩, ?_⟩
    rw [hnoted hk, debugMessages_started hn, List.append_assoc]
    rfl
  · obtain ⟨hsame, herror⟩ := hlost hk
    refine ⟨_, ⟨⟨d, hn⟩, fun h => absurd (hlacks.2 ⟨ht, hk⟩) h, fun _ => ⟨rfl, herror⟩⟩, ?_⟩
    rw [hsame, debugMessages_started hn]

/-- Behind the token it begins with, a statement is read and its outcome noted. -/
theorem exists_notes_of_run (h : statement.run b = .ok (o, c)) :
    ∃ t ms, Notes b t o ms ∧ c.debugMessages = b.debugMessages ++ ms := by
  rcases run_bind_eq_ok h with ⟨e, hr, -⟩ | ⟨t, d, hr, h⟩
  · obtain ⟨⟨t, d⟩, -, hr⟩ := bind_eq_ok_iff.1 hr
    cases hr
  · obtain ⟨⟨t, d⟩, hn, hr⟩ := bind_eq_ok_iff.1 hr
    cases hr
    rcases run_bind_eq_ok h with ⟨e, hr, -⟩ | ⟨⟨⟩, d', hr, h⟩
    · cases hr
    · cases hr
      refine ⟨t, ?_⟩
      have other (hcreate : t.kind ≠ .keyword .create) (hdrop : t.kind ≠ .keyword .drop) :
          ¬ b.LacksKeyspaceWord := TokenStream.not_lacksKeyspaceWord hn hcreate hdrop
      split at h
      · exact notes_behind_keyspaceWord hn (.inl ‹_›) quiet_create h
      · exact notes_behind_keyspaceWord hn (.inr ‹_›) quiet_drop h
      · exact notes_of_reported hn (other (by simp [*]) (by simp [*])) (quiet_fromWhere _) h
      · exact notes_of_reported hn (other (by simp [*]) (by simp [*])) (quiet_fromWhere _) h
      · exact notes_of_reported hn (other (by simp [*]) (by simp [*])) quiet_upsert h
      · exact notes_of_reported hn (other ‹_› ‹_›) quiet_reject h

end Notes

/-- A call for a statement that was answered. -/
structure Attempt where
  before : TokenStream
  outcome : Except SyntaxError Statement
  after : TokenStream
  run_eq : statement.run before = .ok (outcome, after)

/-- What the attempt noted. -/
def Attempt.messages (a : Attempt) : List String :=
  a.after.debugMessages.drop a.before.debugMessages.length

/-- The attempt has the messages it should have, behind those that were there before it. -/
def Attempt.Noted (a : Attempt) : Prop :=
  ∃ t, Notes a.before t a.outcome a.messages ∧
    a.after.debugMessages = a.before.debugMessages ++ a.messages

theorem Attempt.noted (a : Attempt) : a.Noted := by
  obtain ⟨t, ms, hnotes, hms⟩ := exists_notes_of_run a.run_eq
  have : a.messages = ms := by rw [messages, hms, List.drop_left]
  exact ⟨t, this ▸ hnotes, this ▸ hms⟩

section Program

variable {read : List Statement}

/-- What a round of a program may come to, by the attempt that is made in it, if one is made. -/
inductive RoundOf (read : List Statement) :
    List Attempt → Except SyntaxError (Round (List Statement) (List Statement)) → Prop
  | ended : RoundOf read [] (.ok (.done read))
  | passed : RoundOf read [] (.ok (.again read))
  | failed {a e} : a.outcome = .error e → RoundOf read [a] (.error e)
  /-- A `DROP` is followed by something that does not close it. -/
  | unclosed {a p} {t : Token} : a.outcome = .ok (.drop p) →
    RoundOf read [a] (.error ⟨.unexpected t.describe ["EOF", "SEMICOLON"], t.position⟩)
  | closed {a s} : a.outcome = .ok s → RoundOf read [a] (.ok (.again (read ++ [s])))

theorem error_of_close {s : Statement} {e : SyntaxError} (h : (close s).run b = .ok (.error e, c)) :
    (∃ p, s = .drop p) ∧
      ∃ t : Token, e = ⟨.unexpected t.describe ["EOF", "SEMICOLON"], t.position⟩ := by
  unfold close at h
  split at h
  · obtain ⟨⟨t, d⟩, -, h⟩ := bind_eq_ok_iff.1 h
    refine ⟨Statement.nodeType_eq_dropKeyspace_iff.1 ‹_›, t, ?_⟩
    dsimp only at h
    split at h <;> cases h
    rfl
  · cases h

theorem exists_roundOf_run {o : Except SyntaxError (Round (List Statement) (List Statement))}
    (h : (programStep read).run b = .ok (o, c)) : ∃ attempts, RoundOf read attempts o ∧
      c.debugMessages = b.debugMessages ++ attempts.flatMap Attempt.messages := by
  rcases run_bind_eq_ok h with ⟨e, hr, -⟩ | ⟨t, d, hr, h⟩
  · obtain ⟨⟨t, d⟩, -, hr⟩ := bind_eq_ok_iff.1 hr
    dsimp only at hr
    split at hr
    · cases hr
    · obtain ⟨_, -, hr⟩ := bind_eq_ok_iff.1 hr
      cases hr
  · have hd := quiet_next hr
    split at h
    · cases h
      exact ⟨[], .ended, by simpa using hd⟩
    · split at h
      · cases h
        exact ⟨[], .passed, by simpa using hd⟩
      · rcases run_bind_eq_ok h with ⟨e, hs, rfl⟩ | ⟨s, f, hs, h⟩
        · obtain ⟨-, -, hms⟩ := Attempt.noted ⟨d, _, c, hs⟩
          exact ⟨[⟨d, _, c, hs⟩], .failed rfl, by simpa [hd] using hms⟩
        · obtain ⟨-, -, hms⟩ := Attempt.noted ⟨d, _, f, hs⟩
          have hattempt : f.debugMessages =
              b.debugMessages ++ [Attempt.mk d _ f hs].flatMap Attempt.messages := by
            simpa [hd] using hms
          rcases run_bind_eq_ok h with ⟨e, hclose, rfl⟩ | ⟨⟨⟩, g, hclose, h⟩
          · obtain ⟨⟨p, rfl⟩, t, rfl⟩ := error_of_close hclose
            exact ⟨[⟨d, _, f, hs⟩], .unclosed rfl, (quiet_close _ hclose).trans hattempt⟩
          · cases h
            exact ⟨[⟨d, _, f, hs⟩], .closed rfl, (quiet_close s hclose).trans hattempt⟩

/-- The attempts that the statements of a program come from, or those that its error ends. -/
inductive Account : List Attempt → Except SyntaxError (List Statement) → Prop
  | done : Account [] (.ok [])
  | failed {a e} : a.outcome = .error e → Account [a] (.error e)
  | unclosed {a p} {t : Token} : a.outcome = .ok (.drop p) →
    Account [a] (.error ⟨.unexpected t.describe ["EOF", "SEMICOLON"], t.position⟩)
  | cons {a s attempts o} : a.outcome = .ok s → Account attempts o →
    Account (a :: attempts) (o.map (s :: ·))

theorem exists_account_runRounds {o : Except SyntaxError (List Statement)}
    (h : runRounds programStep advances_programStep read b = .ok (o, c)) :
    ∃ attempts o', Account attempts o' ∧ o = o'.map (read ++ ·) ∧
      c.debugMessages = b.debugMessages ++ attempts.flatMap Attempt.messages := by
  fun_induction runRounds programStep advances_programStep read b with
  | case1 => cases h
  | case2 read b e d hs =>
    cases h
    obtain ⟨attempts, hround, hms⟩ := exists_roundOf_run hs
    cases hround with
    | failed ha => exact ⟨_, _, .failed ha, rfl, hms⟩
    | unclosed ha => exact ⟨_, _, .unclosed ha, rfl, hms⟩
  | case3 read b ss d hs =>
    cases h
    obtain ⟨attempts, hround, hms⟩ := exists_roundOf_run hs
    cases hround with
    | ended => exact ⟨_, _, .done, congrArg Except.ok (List.append_nil _).symm, hms⟩
  | case4 read b read' d hs ih =>
    obtain ⟨attempts, o', haccount, rfl, hms'⟩ := ih h
    obtain ⟨round, hround, hms⟩ := exists_roundOf_run hs
    cases hround with
    | passed => exact ⟨_, _, haccount, rfl, by simpa [hms] using hms'⟩
    | closed ha =>
      refine ⟨_, _, .cons ha haccount, ?_, by simpa [hms] using hms'⟩
      cases o' <;> simp [Except.map]

theorem exists_account_of_run {o : Except SyntaxError Program}
    (h : program.run b = .ok (o, c)) : ∃ attempts, Account attempts (o.map Program.toList) ∧
      c.debugMessages = b.debugMessages ++ attempts.flatMap Attempt.messages := by
  rcases run_bind_eq_ok h with ⟨e, hr, rfl⟩ | ⟨ss, d, hr, h⟩
  · obtain ⟨attempts, o', haccount, ho, hms⟩ := exists_account_runRounds hr
    cases o' with
    | ok ss => cases ho
    | error e' =>
      cases ho
      exact ⟨attempts, haccount, hms⟩
  · cases h
    obtain ⟨attempts, o', haccount, ho, hms⟩ := exists_account_runRounds hr
    cases o' with
    | ok ss' =>
      cases ho
      exact ⟨attempts, by simpa [Except.map, Program.toList_ofList] using haccount, hms⟩
    | error e' => cases ho

end Program

end Parser

/-- However a parser was called before, the next attempt at a statement notes the token it begins
with and then its outcome, unless `KEYSPACE` is missing behind `CREATE` or `DROP`: then it fails and
does not say so. A program notes what its attempts note, one behind the other, and nothing else. -/
theorem attempts_noted (text : String) (calls : List Parser.Call) :
    ∃ answers b, serve Parser.reply calls (.ofString text) = .ok (answers, b) ∧
      (∃ a : Parser.Attempt, a.before = b ∧ a.Noted) ∧
      ∃ o c attempts, Parser.program.run b = .ok (o, c) ∧
        Parser.Account attempts (o.map Program.toList) ∧ (∀ a ∈ attempts, a.Noted) ∧
        c.debugMessages = b.debugMessages ++ attempts.flatMap Parser.Attempt.messages := by
  obtain ⟨answers, b, hserve, hb, -⟩ := exists_serve
    (fun call _ hb => Parser.exists_reply_of_within call hb) calls
    (TokenStream.within_ofString text)
  obtain ⟨o, c, hs, -⟩ := Parser.exists_run_of_within
    (fun _ => StatementMachine.tracks_statement) StatementMachine.ends_move hb
  obtain ⟨o', c', hp, -⟩ := Parser.exists_run_of_within
    (fun _ => ProgramMachine.tracks_program) ProgramMachine.ends_move hb
  obtain ⟨attempts, haccount, hms⟩ := Parser.exists_account_of_run hp
  exact ⟨answers, b, hserve, ⟨⟨b, o, c, hs⟩, rfl, Parser.Attempt.noted _⟩, o', c', attempts, hp,
    haccount, fun a _ => a.noted, hms⟩

/-- The failure of this attempt is not noted. -/
theorem drop_at_end_not_noted :
    (Parser.statement.run (.ofString "DROP")).map (fun r => (r.1, r.2.debugMessages)) =
      .ok (.error ⟨.unexpected "EOF" ["KEYSPACE"], ⟨0, 5⟩⟩,
        ["parsing statement starting with DROP"]) := by
  decide +kernel

end KeyspaceQuery
