import KeyspaceQuery.Parser
import KeyspaceQuery.Proofs.Lexeme.Source
import KeyspaceQuery.Proofs.Machine

/-! Parsers beside runs of a machine. A stream holds the tokens that come next on it, a token that
was put back among them. A parser tracks a run if from every stream it does what the run does with
the tokens held, refusals and the tokens left over included. Each way to build parsers has its lemma
here, so that a parser is compared with the machine step by step. -/

namespace KeyspaceQuery

namespace TokenStream

/-- The tokens `ts` come next, and then `z` for ever. -/
def Holds (z : Token) (b : TokenStream) (ts : List Token) : Prop :=
  match b.slot with
  | .putBack t =>
    ∃ us, ts = t :: us ∧ (t.lexeme = .eof ∧ us = [] ∧ b.source.Spent z ∨
      t.kind ≠ .endOfInput ∧ us ≠ [] ∧ b.source.Emits z us)
  | _ => b.source.Emits z ts

variable {z t : Token} {b c : TokenStream} {ts : List Token}

theorem holds_of_taken (hs : c.slot = .taken t) : c.Holds z ts ↔ c.source.Emits z ts := by
  simp [Holds, hs]

/-- What is known of a stream from which `t` was just taken, with `ts` behind it. -/
structure Took (z t : Token) (ts : List Token) (c : TokenStream) : Prop where
  holds : c.Holds z ts
  putBack : ∃ d, c.putBack = .ok d ∧ d.Holds z (t :: ts)

theorem took_of_eof (hs : c.slot = .taken t) (ht : t.lexeme = .eof) (h : c.source.Spent z) :
    Took z t [] c where
  holds := (holds_of_taken hs).2 (.spent h)
  putBack := ⟨{ c with slot := .putBack t }, by simp [TokenStream.putBack, hs],
    ⟨[], rfl, .inl ⟨ht, rfl, h⟩⟩⟩

theorem took_of_ne_eof (hs : c.slot = .taken t) (ht : t.kind ≠ .endOfInput) (hts : ts ≠ [])
    (h : c.source.Emits z ts) : Took z t ts c where
  holds := (holds_of_taken hs).2 h
  putBack := ⟨{ c with slot := .putBack t }, by simp [TokenStream.putBack, hs],
    ⟨ts, rfl, .inr ⟨ht, hts, h⟩⟩⟩

/-- A stream that nothing was put back to takes its next token from the source. -/
theorem next_of_emits (hs : ∀ u, b.slot ≠ .putBack u) {s : Source}
    (h : b.source.nextToken = .ok (t, s)) :
    ∃ c, b.next = .ok (t, c) ∧ c.slot = .taken t ∧ c.source = s := by
  refine ⟨⟨s, .taken t, b.journal.push (.scanned t)⟩, ?_, rfl, rfl⟩
  unfold next
  split
  · exact absurd ‹_› (hs _)
  · rw [h]
    rfl

theorem next_of_holds (h : b.Holds z (t :: ts)) : ∃ c, b.next = .ok (t, c) ∧ Took z t ts c := by
  cases hs : b.slot with
  | putBack u =>
    simp only [Holds, hs] at h
    obtain ⟨us, hus, h⟩ := h
    cases hus
    refine ⟨{ b with slot := .taken t }, by simp [next, hs], ?_⟩
    rcases h with ⟨ht, rfl, h⟩ | ⟨ht, hne, h⟩
    · exact took_of_eof rfl ht h
    · exact took_of_ne_eof rfl ht hne h
  | fresh | taken u =>
    simp only [Holds, hs] at h
    cases h with
    | last hn ht h =>
      obtain ⟨c, hc, hslot, rfl⟩ := next_of_emits (by simp [hs]) hn
      exact ⟨c, hc, took_of_eof hslot ht h⟩
    | cons hn ht hne h =>
      obtain ⟨c, hc, hslot, rfl⟩ := next_of_emits (by simp [hs]) hn
      exact ⟨c, hc, took_of_ne_eof hslot ht hne h⟩

theorem next_of_holds_nil (h : b.Holds z []) : ∃ c, b.next = .ok (z, c) ∧ Took z z [] c := by
  cases hs : b.slot with
  | putBack u =>
    simp only [Holds, hs] at h
    obtain ⟨us, hus, -⟩ := h
    cases hus
  | fresh | taken u =>
    simp only [Holds, hs] at h
    cases h with
    | spent h =>
      obtain ⟨s, hn, hs'⟩ := Source.nextToken_of_spent h
      obtain ⟨c, hc, hslot, rfl⟩ := next_of_emits (by simp [hs]) hn
      exact ⟨c, hc, took_of_eof hslot (Source.lexeme_of_spent h) hs'⟩

theorem nextPastBlanks_of_next (h : b.next = .ok (t, c)) (ht : t.kind ≠ .whitespace) :
    b.nextPastBlanks = .ok (t, c) := by
  unfold nextPastBlanks
  split
  · simp_all
  · rename_i h'
    obtain ⟨rfl, rfl⟩ := Prod.mk.inj (Except.ok.inj (h.symm.trans h'))
    rw [if_neg ht]

theorem nextPastBlanks_of_blank (h : b.next = .ok (t, c)) (ht : t.kind = .whitespace) :
    b.nextPastBlanks = c.nextPastBlanks := by
  conv_lhs => unfold nextPastBlanks
  split
  · simp_all
  · rename_i h'
    obtain ⟨rfl, rfl⟩ := Prod.mk.inj (Except.ok.inj (h.symm.trans h'))
    rw [if_pos ht]

theorem terminated_of_emits {r : Source} (h : r.Emits z ts) :
    ts = [] ∨ Terminated (ts.map Token.lexeme) := by
  induction h with
  | spent => exact .inl rfl
  | last _ ht _ => exact .inr (by simpa [ht] using Terminated.eof)
  | cons _ ht hne _ ih => exact .inr (.cons ht (ih.resolve_left hne))

theorem terminated_of_holds (h : b.Holds z ts) : ts = [] ∨ Terminated (ts.map Token.lexeme) := by
  unfold Holds at h
  split at h
  · obtain ⟨us, rfl, ⟨ht, rfl, -⟩ | ⟨ht, hne, h⟩⟩ := h
    · exact .inr (by simpa [ht] using Terminated.eof)
    · exact .inr (.cons ht ((terminated_of_emits h).resolve_left hne))
  · exact terminated_of_emits h

end TokenStream

namespace Parser

variable {α β γ δ : Type} {z : Token}

/-- From a stream that holds `ts` the parser gives a value, and the run `F` on `ts` comes to the run
`k` of that value on what is left, or else both refuse the same token. -/
def Tracks (z : Token) (p : Parser α) (F : List Token → Verdict Token β)
    (k : α → List Token → Verdict Token β) : Prop :=
  ∀ ⦃b ts⦄, b.Holds z ts → ∃ c,
    (∃ a ts', p.run b = .ok (.ok a, c) ∧ c.Holds z ts' ∧ F ts = k a ts') ∨
      ∃ r t ts', p.run b = .ok (.error (r.error t), c) ∧ c.Holds z ts' ∧ F ts = .refused r t ts'

variable {F : List Token → Verdict Token δ} {k : α → List Token → Verdict Token δ}

theorem tracks_pure {a : α} (h : F = k a) : Tracks z (pure a) F k :=
  fun b ts hb => ⟨b, .inl ⟨a, ts, rfl, hb, congrFun h ts⟩⟩

theorem tracks_reject {r : Refusal} {t : Token} :
    Tracks z (reject (r.error t)) (Verdict.refused r t) k :=
  fun b ts h => ⟨b, .inr ⟨r, t, ts, rfl, h, rfl⟩⟩

theorem tracks_note {e : Event} {k : Unit → List Token → Verdict Token δ} (h : F = k ()) :
    Tracks z (note e) F k :=
  fun b ts hb => ⟨b.note e, .inl ⟨(), ts, rfl, hb, congrFun h ts⟩⟩

theorem tracks_bind {p : Parser α} {f : α → Parser γ} {k' : γ → List Token → Verdict Token δ}
    (hp : Tracks z p F k) (hf : ∀ a, Tracks z (f a) (k a) k') : Tracks z (p >>= f) F k' := by
  intro b ts h
  obtain ⟨c, ⟨a, ts', hr, hc, hF⟩ | ⟨r, t, ts', hr, hc, hF⟩⟩ := hp h
  · obtain ⟨d, hd⟩ := hf a hc
    refine ⟨d, ?_⟩
    simpa only [bind, hr, hF] using hd
  · exact ⟨c, .inr ⟨r, t, ts', by simp only [bind, hr], hc, hF⟩⟩

theorem tracks_reported {p : Parser Statement} {k : Statement → List Token → Verdict Token δ}
    (hp : Tracks z p F k) : Tracks z (reported p) F k := by
  intro b ts h
  obtain ⟨c, ⟨a, ts', hr, hc, hF⟩ | ⟨r, t, ts', hr, hc, hF⟩⟩ := hp h
  · exact ⟨c.note (.parsed a), .inl ⟨a, ts', by simp only [reported, hr]; rfl, hc, hF⟩⟩
  · exact ⟨c.note (.failed (r.error t)),
      .inr ⟨r, t, ts', by simp only [reported, hr]; rfl, hc, hF⟩⟩

/-- A run may be replaced by one that does the same with every list that ends where its input
does. -/
theorem Tracks.of_eq {p : Parser α} {F' : List Token → Verdict Token γ}
    {k' : α → List Token → Verdict Token γ} (hp : Tracks z p F k)
    (done : ∀ ts a ts', (ts = [] ∨ Terminated (ts.map Token.lexeme)) → F ts = k a ts' →
      F' ts = k' a ts')
    (refused : ∀ ts r t ts', (ts = [] ∨ Terminated (ts.map Token.lexeme)) →
      F ts = .refused r t ts' → F' ts = .refused r t ts') : Tracks z p F' k' := by
  intro b ts h
  have hts := TokenStream.terminated_of_holds h
  obtain ⟨c, ⟨a, ts', hr, hc, hF⟩ | ⟨r, t, ts', hr, hc, hF⟩⟩ := hp h
  · exact ⟨c, .inl ⟨a, ts', hr, hc, done ts a ts' hts hF⟩⟩
  · exact ⟨c, .inr ⟨r, t, ts', hr, hc, refused ts r t ts' hts hF⟩⟩

/-- The run `v` that begins with `t` does what was chosen about `t`. -/
def Settles (k : α → List Token → Verdict Token δ) (t : Token) (ts : List Token)
    (v : Verdict Token δ) : Choice α → Prop
  | .consume a => v = k a ts
  | .leave a => v = k a (t :: ts)
  | .reject e => ∃ r, e = Refusal.error r t ∧ v = .refused r t ts

theorem run_settle {d : Choice α} {t : Token} {ts : List Token} {v : Verdict Token δ}
    {c : TokenStream} (hd : Settles k t ts v d) (hc : TokenStream.Took z t ts c) : ∃ c',
      (∃ a ts', settle c d = .ok (.ok a, c') ∧ c'.Holds z ts' ∧ v = k a ts') ∨
        ∃ r t' ts', settle c d = .ok (.error (r.error t'), c') ∧ c'.Holds z ts' ∧
          v = .refused r t' ts' := by
  cases d with
  | consume a => exact ⟨c, .inl ⟨a, ts, rfl, hc.holds, hd⟩⟩
  | leave a =>
    obtain ⟨c', hput, hc'⟩ := hc.putBack
    exact ⟨c', .inl ⟨a, t :: ts, by simp only [settle, hput]; rfl, hc', hd⟩⟩
  | reject e =>
    obtain ⟨r, rfl, hv⟩ := hd
    exact ⟨c, .inr ⟨r, t, ts, rfl, hc.holds, hv⟩⟩

theorem tracks_nextRaw {choose : Token → Choice α} (hnil : F [] = F [z])
    (h : ∀ t ts, Settles k t ts (F (t :: ts)) (choose t)) : Tracks z (nextRaw choose) F k := by
  intro b ts hb
  cases ts with
  | nil =>
    obtain ⟨c, hn, hc⟩ := TokenStream.next_of_holds_nil hb
    rw [hnil]
    simpa only [nextRaw, hn, bind, Except.bind] using run_settle (h z []) hc
  | cons t ts =>
    obtain ⟨c, hn, hc⟩ := TokenStream.next_of_holds hb
    simpa only [nextRaw, hn, bind, Except.bind] using run_settle (h t ts) hc

/-- Nothing is held behind the end of the input. -/
theorem tracks_next {choose : Token → Choice α} (hz : z.lexeme = .eof) (hnil : F [] = F [z])
    (blank : ∀ t ts, t.kind = .whitespace → F (t :: ts) = F ts)
    (h : ∀ t ts, t.kind ≠ .whitespace → (t.kind = .endOfInput → ts = []) →
      Settles k t ts (F (t :: ts)) (choose t)) :
    Tracks z (next choose) F k := by
  have hz' : z.kind ≠ .whitespace := by
    have : z.kind = .endOfInput := congrArg Lexeme.kind hz
    simp [this]
  intro b ts hb
  induction ts generalizing b with
  | nil =>
    obtain ⟨c, hn, hc⟩ := TokenStream.next_of_holds_nil hb
    rw [hnil]
    simpa only [next, TokenStream.nextPastBlanks_of_next hn hz', bind, Except.bind] using
      run_settle (h z [] hz' fun _ => rfl) hc
  | cons t ts ih =>
    obtain ⟨c, hn, hc⟩ := TokenStream.next_of_holds hb
    by_cases ht : t.kind = .whitespace
    · rw [blank t ts ht]
      simpa only [next, TokenStream.nextPastBlanks_of_blank hn ht] using ih hc.holds
    · have hend : t.kind = .endOfInput → ts = [] := by
        have := (TokenStream.terminated_of_holds hb).resolve_left (List.cons_ne_nil t ts)
        exact fun he => List.map_eq_nil_iff.1 (eq_nil_of_terminated this he)
      simpa only [next, TokenStream.nextPastBlanks_of_next hn ht, bind, Except.bind] using
        run_settle (h t ts ht hend) hc

/-- The run behind a round: that of the next one, or that of the value given. -/
def afterRound {σ : Type} (F : σ → List Token → Verdict Token δ)
    (k : α → List Token → Verdict Token δ) : Round σ α → List Token → Verdict Token δ
  | .again s => F s
  | .done a => k a

theorem tracks_rounds {σ : Type} {step : σ → Parser (Round σ α)} {advances : Advances step}
    {F : σ → List Token → Verdict Token δ}
    (h : ∀ s, Tracks z (step s) (F s) (afterRound F k)) (s : σ) :
    Tracks z (rounds step advances s) (F s) k := by
  intro b ts hb
  simp only [rounds]
  fun_induction runRounds step advances s b generalizing ts with
  | case1 s b x hr =>
    obtain ⟨c, ⟨a, ts', hr', -⟩ | ⟨r, t, ts', hr', -⟩⟩ := h s hb
    · cases hr.symm.trans hr'
    · cases hr.symm.trans hr'
  | case2 s b e c hr =>
    obtain ⟨c', ⟨a, ts', hr', -⟩ | ⟨r, t, ts', hr', hc, hF⟩⟩ := h s hb
    · cases hr.symm.trans hr'
    · cases hr.symm.trans hr'
      exact ⟨c, .inr ⟨r, t, ts', rfl, hc, hF⟩⟩
  | case3 s b a c hr =>
    obtain ⟨c', ⟨a', ts', hr', hc, hF⟩ | ⟨r, t, ts', hr', -⟩⟩ := h s hb
    · cases hr.symm.trans hr'
      exact ⟨c, .inl ⟨a, ts', rfl, hc, hF⟩⟩
    · cases hr.symm.trans hr'
  | case4 s b s' c hr ih =>
    obtain ⟨c', ⟨a', ts', hr', hc, hF⟩ | ⟨r, t, ts', hr', -⟩⟩ := h s hb
    · cases hr.symm.trans hr'
      rw [hF]
      exact ih hc
    · cases hr.symm.trans hr'

/-- Items read so far, with another one to come in `I` and none yet called for in `M`. -/
theorem tracks_oneOrMore {more : Parser Bool} {progresses : more.Progresses (· = true)}
    {item : Parser α} {I M k : List α → List Token → Verdict Token δ}
    (hitem : ∀ items, Tracks z item (I items) fun a => M (items ++ [a]))
    (hmore : ∀ items, Tracks z more (M items) fun again => if again then I items else k items) :
    Tracks z (oneOrMore more progresses item) (I []) k := by
  refine tracks_bind (hitem []) fun a => tracks_rounds (F := M) (fun items => ?_) [a]
  refine tracks_bind (hmore items) fun again => ?_
  cases again with
  | false => exact tracks_pure rfl
  | true => exact tracks_bind (hitem items) fun a => tracks_pure rfl

/-- Texts are read from `q` as `parse` does it: what is answered or refused is the same. -/
def Reads {σ : Type} (m : Machine σ α) (q : σ) (parse : String → Except Failure α) : Prop :=
  ∀ text, ∃ z ts, lex text = .ok ts ∧ ts.map Token.lexeme = lexemes text.toList ∧
    match m.run Token.lexeme z q ts with
    | .done a _ => parse text = .ok a
    | .refused r t _ => parse text = .error (.syntaxError (r.error t))

theorem reads_of_tracks {σ : Type} {m : Machine σ α} {q : σ} {p : Parser α}
    (h : ∀ z, z.lexeme = .eof → Tracks z p (m.run Token.lexeme z q) Verdict.done) :
    Reads m q p.parse := by
  intro text
  obtain ⟨z, ts, hlex, hemits, hz, hts⟩ := Source.emits_of_ready (Source.ready_ofString text)
  rw [Source.remaining_ofString] at hts
  refine ⟨z, ts, hlex, hts, ?_⟩
  have hb : (TokenStream.ofString text).Holds z ts := hemits
  obtain ⟨c, ⟨a, rest, hr, -, hF⟩ | ⟨r, t, rest, hr, -, hF⟩⟩ := h z hz hb
  · rw [hF]
    simp only [parse, hr]
  · rw [hF]
    simp only [parse, hr]

section Reads

variable {σ : Type} {m : Machine σ α} {q : σ} {parse : String → Except Failure α}

theorem lex_of_reads (h : Reads m q parse) (text : String) :
    ∃ ts, lex text = .ok ts ∧ ts.map Token.lexeme = lexemes text.toList := by
  obtain ⟨z, ts, hlex, hts, -⟩ := h text
  exact ⟨ts, hlex, hts⟩

theorem parse_eq_ok_iff (h : Reads m q parse) (hm : m.Ends) {text : String} {a : α} :
    parse text = .ok a ↔ ∃ rest, m.answer q (lexemes text.toList) = some (a, rest) := by
  obtain ⟨z, ts, -, hts, hr⟩ := h text
  rw [← hts, Machine.answer_map hm (hts ▸ terminated_lexemes _) (z := z)]
  split at hr <;> simp [*]

/-- A text is refused at the token that the machine refuses. -/
theorem exists_parse_of_refuse (h : Reads m q parse) {text : String} {pre post : List Lexeme}
    {l : Lexeme} {q' : σ} {r : Refusal} {taken : Bool}
    (htext : lexemes text.toList = pre ++ l :: post) (hw : m.walk q pre = some q')
    (hr : m q' l = .refuse r taken) : ∃ ps t us, lex text = .ok (ps ++ t :: us) ∧
      ps.map Token.lexeme = pre ∧ t.lexeme = l ∧
      parse text = .error (.syntaxError (r.error t)) := by
  obtain ⟨z, ts, hlex, hts, hrun⟩ := h text
  obtain ⟨ps, us, rfl, rfl, hus⟩ := List.map_eq_append_iff.1 (hts.trans htext)
  obtain ⟨t, us, rfl, rfl, rfl⟩ := List.map_eq_cons_iff.1 hus
  refine ⟨ps, t, us, hlex, rfl, rfl, ?_⟩
  rw [Machine.run_append hw, Machine.run, hr] at hrun
  exact hrun

/-- A text that is not accepted has a syntax error, at a token that the machine comes to and
refuses. -/
theorem exists_refuse_of_parse (h : Reads m q parse) (hm : m.Ends) {text : String} {f : Failure}
    (hf : parse text = .error f) :
    ∃ ts pre t post q' r taken, lex text = .ok ts ∧ ts = pre ++ t :: post ∧
      m.walk q (pre.map Token.lexeme) = some q' ∧ m q' t.lexeme = .refuse r taken ∧
      f = .syntaxError (r.error t) := by
  obtain ⟨z, ts, hlex, hts, hr⟩ := h text
  split at hr
  · cases hf.symm.trans hr
  · rename_i r t rest hrun
    obtain ⟨pre, post, q', taken, hpre, hw, hq⟩ :=
      Machine.exists_refuse_of_run hm (hts ▸ terminated_lexemes _) hrun
    exact ⟨ts, pre, t, post, q', r, taken, hlex, hpre, hw, hq, Except.error.inj (hf.symm.trans hr)⟩

end Reads

end Parser

end KeyspaceQuery
