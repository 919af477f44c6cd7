import KeyspaceQuery.Proofs.Lexeme.Spelling
import KeyspaceQuery.Proofs.Machine.Tracks

/-! Where errors point and what they offer. Lexemes are viable if some accepted text begins with
them. A refused token ends what is viable, and each alternative that is offered for it goes on with
it. Of a machine this needs to be known state by state only: what it refuses, and how it can be led
to an answer from there. -/

namespace KeyspaceQuery

/-- The kind of token that asks for the capability. -/
def Capability.kind : Capability → TokenKind
  | logicalOr => .or
  | between => .keyword .between

/-- The kinds of token that the entries of an error name. -/
def entryKinds : List (String × TokenKind) :=
  [("CREATE", .keyword .create), ("DROP", .keyword .drop), ("SELECT", .keyword .select),
    ("DELETE", .keyword .delete), ("UPSERT", .keyword .upsert), ("KEYSPACE", .keyword .keyspace),
    ("WITH", .keyword .withWord), ("KEY", .keyword .key), ("KEYS", .keyword .keys),
    ("FROM", .keyword .fromWord), ("INTO", .keyword .into), ("WHERE", .keyword .whereWord),
    ("BETWEEN", .keyword .between), ("keyspace", .identifier), ("identifier", .identifier),
    ("string", .str), ("EQ", .equal), ("COMMA", .comma), ("AND", .and), ("OR", .or),
    ("SEMICOLON", .semicolon), ("EOF", .endOfInput)]

theorem Expectation.mem_entryKinds (x : Expectation) : (x.text, x.kind) ∈ entryKinds := by
  cases x with
  | keyword k => cases k <;> decide
  | _ => decide

section Statements

variable {α : Type} (parse : String → Except Failure α)

/-- Some text whose tokens begin with these is accepted. -/
def Viable (ls : List Lexeme) : Prop :=
  ∃ text ts a, lex text = .ok ts ∧ ls <+: ts.map Token.lexeme ∧ parse text = .ok a

/-- Behind `pre`, and at most one token of blanks, a token of the kind may come. -/
def Offered (pre : List Lexeme) (kind : TokenKind) : Prop :=
  ∃ blanks l, blanks.length ≤ 1 ∧ (∀ b ∈ blanks, b.kind = .whitespace) ∧ l.kind = kind ∧
    Viable parse (pre ++ blanks ++ [l])

/-- The error points at the first token that cannot be right, and offers what could be. -/
def Blames (text : String) (e : SyntaxError) : Prop :=
  ∃ ts pre t post, lex text = .ok ts ∧ ts = pre ++ t :: post ∧ e.position = t.position ∧
    Viable parse (pre.map Token.lexeme) ∧ ¬ Viable parse ((pre ++ [t]).map Token.lexeme) ∧
    match e.cause with
    | .unexpected found expected => found = t.describe ∧
        ∀ entry ∈ expected, ∃ kind, (entry, kind) ∈ entryKinds ∧
          Offered parse (pre.map Token.lexeme) kind
    | .notAllowed capability => t.kind = capability.kind

end Statements

/-- A lexeme that meets the expectation. -/
def Expectation.lexeme : Expectation → Lexeme
  | keyword k => ⟨.keyword k, k.text⟩
  | keyspace | identifier => ⟨.identifier, "k"⟩
  | string => ⟨.str, ""⟩
  | equal => ⟨.equal, ""⟩
  | comma => ⟨.comma, ""⟩
  | and => ⟨.and, "AND"⟩
  | or => ⟨.or, "OR"⟩
  | semicolon => ⟨.semicolon, ""⟩
  | endOfInput => .eof

theorem Expectation.kind_lexeme (x : Expectation) : x.lexeme.kind = x.kind := by
  cases x <;> rfl

/-- A lexeme that can be written down and is not blank. -/
structure Lexeme.IsPlain (l : Lexeme) : Prop where
  spelled : l.Spelled
  isNotBlank : l.kind ≠ .whitespace

theorem Expectation.isPlain_lexeme {x : Expectation} (h : x ≠ .endOfInput) :
    x.lexeme.IsPlain := by
  cases x with
  | keyword k => exact ⟨Lexeme.spelled_keyword k, nofun⟩
  | endOfInput => exact absurd rfl h
  | keyspace | identifier | and | or => exact ⟨⟨by decide, by decide⟩, nofun⟩
  | string => exact ⟨trivial, nofun⟩
  | equal | comma | semicolon => exact ⟨rfl, nofun⟩

/-- Each lexeme behind a blank. -/
def spaced (ls : List Lexeme) : List Lexeme := ls.flatMap fun l => [.space, l]

theorem spelled_of_mem_spaced {ls : List Lexeme} (h : ∀ l ∈ ls, l.IsPlain) :
    ∀ l ∈ spaced ls, l.Spelled := by
  intro l hl
  obtain ⟨m, hm, hl⟩ := List.mem_flatMap.1 hl
  simp only [List.mem_cons, List.not_mem_nil, or_false] at hl
  rcases hl with rfl | rfl
  · exact Lexeme.spelled_space
  · exact (h l hm).spelled

theorem isChain_cons_spaced {l : Lexeme} {ls : List Lexeme} (hl : l.IsPlain)
    (h : ∀ l ∈ ls, l.IsPlain) : (l :: spaced ls).IsChain Lexeme.Apart := by
  induction ls generalizing l with
  | nil => exact .singleton _
  | cons m ls ih =>
    obtain ⟨hm, hls⟩ := List.forall_mem_cons.1 h
    exact .cons_cons (Lexeme.apart_space hl.isNotBlank)
      (.cons_cons (Lexeme.space_apart hm.isNotBlank) (ih hm hls))

namespace Machine

variable {σ α : Type} {m : Machine σ α} {expected : σ → List Expectation}

/-- Some lexemes with blanks between them bring the machine to an answer. -/
def Completes (m : Machine σ α) (q : σ) : Prop :=
  ∃ ls, (∀ l ∈ ls, l.IsPlain) ∧ ∃ a, m.answer q (spaced ls ++ [.eof]) = some a

/-- The move is an answer or leads on to one. -/
def Leads (m : Machine σ α) (v : Move σ α) : Prop :=
  (∃ q, v = .go q ∧ m.Completes q) ∨ ∃ b taken, v = .done b taken

/-- What has to be known of the states of a machine, with what each of them expects. -/
structure Guides (m : Machine σ α) (expected : σ → List Expectation) : Prop where
  ends : m.Ends
  notBroken : ∀ {q q' l}, m q l = .go q' → ¬ l.IsBroken
  refuses : ∀ {q l r taken}, m q l = .refuse r taken → expected q ≠ [] ∧
    (r = .expected (expected q) ∨ ∃ c, r = .notAllowed c ∧ l.kind = c.kind)
  offers : ∀ {q x}, x ∈ expected q → m.Leads (m q x.lexeme)
  /-- Behind a word a blank may come before another one. -/
  passesBlank : ∀ {q q' l x}, m q l = .go q' → l.kind.isWord → x ∈ expected q' →
    ∃ q'', m q' .space = .go q'' ∧ m q'' x.lexeme = m q' x.lexeme

theorem exists_answer_of_leads {q : σ} {l : Lexeme} (h : m.Leads (m q l)) :
    ∃ ls, (∀ l ∈ ls, l.IsPlain) ∧ ∃ a, m.answer q (l :: spaced ls ++ [.eof]) = some a := by
  rcases h with ⟨q', hq, ls, hls, a, ha⟩ | ⟨b, taken, hb⟩
  · exact ⟨ls, hls, a, by rw [List.cons_append, answer, hq]; exact ha⟩
  · exact ⟨[], by simp, _, by rw [List.cons_append, answer, hb]; rfl⟩

/-- What a machine goes through on the way is spelled. -/
theorem spelled_of_walk (hm : m.Guides expected) {cs : List Char} {q q' : σ}
    {pre : List Lexeme} (h : m.walk q pre = some q') (hpre : ∀ l ∈ pre, l ∈ lexemes cs) :
    ∀ l ∈ pre, l.Spelled := by
  induction pre generalizing q with
  | nil => simp
  | cons l pre ih =>
    obtain ⟨hl, hpre⟩ := List.forall_mem_cons.1 hpre
    obtain ⟨q₁, hml, h⟩ := walk_cons_iff.1 h
    refine List.forall_mem_cons.2 ⟨?_, ih h hpre⟩
    rcases spelled_of_mem_lexemes hl with rfl | hb | hs
    · exact absurd hml (hm.ends q q₁)
    · exact absurd hb (hm.notBroken hml)
    · exact hs

section Reads

variable {parse : String → Except Failure α} {q₀ q : σ} {pre : List Lexeme}

theorem viable_of_answer (h : Parser.Reads m q₀ parse) (hm : m.Ends) {ls : List Lexeme}
    {a : α × List Lexeme} (hs : ∀ l ∈ ls, l.Spelled) (hc : ls.IsChain Lexeme.Apart)
    (ha : m.answer q₀ (ls ++ [.eof]) = some a) (hpre : pre <+: ls ++ [.eof]) :
    Viable parse pre := by
  obtain ⟨ts, hlex, hts⟩ := Parser.lex_of_reads h (String.ofList (ls.flatMap Lexeme.spelling))
  rw [String.toList_ofList, lexemes_spelling hs hc] at hts
  refine ⟨_, ts, a.1, hlex, hts ▸ hpre, (Parser.parse_eq_ok_iff h hm).2 ⟨a.2, ?_⟩⟩
  rw [String.toList_ofList, lexemes_spelling hs hc]
  exact ha

/-- A text that goes on with a refused lexeme is not accepted, whatever comes behind. -/
theorem not_viable_of_refuse (h : Parser.Reads m q₀ parse) (hm : m.Ends) {l : Lexeme} {r : Refusal}
    {taken : Bool} (hw : m.walk q₀ pre = some q) (hr : m q l = .refuse r taken) :
    ¬ Viable parse (pre ++ [l]) := by
  rintro ⟨text, ts, a, hlex, ⟨post, hpost⟩, hok⟩
  obtain ⟨ts', hlex', hts⟩ := Parser.lex_of_reads h text
  obtain rfl := Except.ok.inj (hlex'.symm.trans hlex)
  obtain ⟨rest, ha⟩ := (Parser.parse_eq_ok_iff h hm).1 hok
  rw [← hts, ← hpost, List.append_assoc, answer_append hw, List.singleton_append, answer, hr] at ha
  cases ha

/-- What leads from a state to an answer is viable behind what leads to the state. -/
theorem viable_append (h : Parser.Reads m q₀ parse) (hm : m.Ends) (hw : m.walk q₀ pre = some q)
    (hs : ∀ l ∈ pre, l.Spelled) (hc : pre.IsChain Lexeme.Apart) {more w : List Lexeme}
    {a : α × List Lexeme} (hmore : ∀ l ∈ more, l.Spelled) (hchain : more.IsChain Lexeme.Apart)
    (hjoin : ∀ k ∈ pre.getLast?, ∀ l ∈ more.head?, k.Apart l)
    (ha : m.answer q (more ++ [.eof]) = some a) (hpre : w <+: more ++ [.eof]) :
    Viable parse (pre ++ w) := by
  have hspelled : ∀ l ∈ pre ++ more, l.Spelled := by
    intro l hl
    exact (List.mem_append.1 hl).elim (hs l) (hmore l)
  refine viable_of_answer h hm (a := a) hspelled (List.isChain_append.2 ⟨hc, hchain, hjoin⟩) ?_ ?_
  · rw [List.append_assoc, answer_append hw, ha]
  · rw [List.append_assoc]
    exact (List.prefix_append_right_inj pre).2 hpre

/-- The end of the input has nothing behind it, so it needs no other completion. -/
theorem offered_endOfInput (h : Parser.Reads m q₀ parse) (hm : m.Guides expected)
    (hw : m.walk q₀ pre = some q) (hs : ∀ l ∈ pre, l.Spelled) (hc : pre.IsChain Lexeme.Apart)
    (hx : .endOfInput ∈ expected q) : Offered parse pre .endOfInput := by
  obtain ⟨b, hb⟩ : ∃ b, m.answer q ([] ++ [.eof]) = some b := by
    have hl : m.Leads (m q .eof) := hm.offers hx
    rcases hl with ⟨q', hq, -⟩ | ⟨b, taken, hq⟩
    · exact absurd hq (hm.ends q q')
    · exact ⟨_, by rw [List.nil_append, answer, hq]; rfl⟩
  refine ⟨[], .eof, by simp, by simp, rfl, ?_⟩
  rw [List.append_nil]
  exact viable_append h hm.ends hw hs hc (by simp) .nil (by simp) hb (List.prefix_refl _)

/-- A lexeme that leads to an answer may come behind what it is apart from. -/
theorem viable_of_leads (h : Parser.Reads m q₀ parse) (hm : m.Ends) (hw : m.walk q₀ pre = some q)
    (hs : ∀ l ∈ pre, l.Spelled) (hc : pre.IsChain Lexeme.Apart) {l : Lexeme} (hl : l.IsPlain)
    (hlead : m.Leads (m q l)) (hjoin : ∀ k ∈ pre.getLast?, k.Apart l) :
    Viable parse (pre ++ [l]) := by
  obtain ⟨ls, hls, a, ha⟩ := exists_answer_of_leads hlead
  have hmore : ∀ k ∈ l :: spaced ls, k.Spelled :=
    List.forall_mem_cons.2 ⟨hl.spelled, spelled_of_mem_spaced hls⟩
  refine viable_append h hm hw hs hc hmore (isChain_cons_spaced hl hls) (fun k hk l' hl' => ?_) ha
    (by simp)
  obtain rfl := Option.some.inj hl'
  exact hjoin k hk

theorem viable_of_leads_behind_space (h : Parser.Reads m q₀ parse) (hm : m.Ends)
    (hw : m.walk q₀ pre = some q) (hs : ∀ l ∈ pre, l.Spelled) (hc : pre.IsChain Lexeme.Apart)
    (hlast : ∀ k ∈ pre.getLast?, k.kind ≠ .whitespace) {q' : σ} (hspace : m q .space = .go q')
    {l : Lexeme} (hl : l.IsPlain) (hlead : m.Leads (m q' l)) :
    Viable parse (pre ++ [.space] ++ [l]) := by
  have hw' : m.walk q₀ (pre ++ [Lexeme.space]) = some q' := walk_concat_iff.2 ⟨q, hw, hspace⟩
  have hs' : ∀ l ∈ pre ++ [Lexeme.space], l.Spelled :=
    List.forall_mem_append.2 ⟨hs, List.forall_mem_singleton.2 Lexeme.spelled_space⟩
  have hc' : (pre ++ [Lexeme.space]).IsChain Lexeme.Apart := by
    refine List.isChain_append.2 ⟨hc, .singleton _, fun k hk l hl' => ?_⟩
    obtain rfl := Option.some.inj hl'
    exact Lexeme.apart_space (hlast k hk)
  apply viable_of_leads h hm hw' hs' hc' hl hlead
  intro k hk
  rw [List.getLast?_concat] at hk
  obtain rfl := Option.some.inj hk
  exact Lexeme.space_apart hl.isNotBlank

/-- An expected lexeme may come at once, or behind a blank that keeps it apart from a word. -/
theorem offered_of_mem_expected (h : Parser.Reads m q₀ parse) (hm : m.Guides expected)
    {x : Expectation} (hw : m.walk q₀ pre = some q) (hs : ∀ l ∈ pre, l.Spelled)
    (hc : pre.IsChain Lexeme.Apart) (hx : x ∈ expected q) : Offered parse pre x.kind := by
  by_cases hend : x = .endOfInput
  · subst hend
    exact offered_endOfInput h hm hw hs hc hx
  have hl := Expectation.isPlain_lexeme hend
  by_cases hjoin : ∀ k ∈ pre.getLast?, k.Apart x.lexeme
  · refine ⟨[], x.lexeme, by simp, by simp, x.kind_lexeme, ?_⟩
    rw [List.append_nil]
    exact viable_of_leads h hm.ends hw hs hc hl (hm.offers hx) hjoin
  · -- only a word runs into another one
    simp only [not_forall] at hjoin
    obtain ⟨k, hk, hjoin⟩ := hjoin
    obtain ⟨hkw, hxw⟩ : k.kind.isWord ∧ x.lexeme.kind.isWord := by
      by_contra hn
      exact hjoin ⟨hn, fun hb => hl.isNotBlank hb.2⟩
    obtain ⟨init, rfl⟩ := List.getLast?_eq_some_iff.1 hk
    obtain ⟨q₁, -, hkq⟩ := walk_concat_iff.1 hw
    obtain ⟨q', hspace, hq'⟩ := hm.passesBlank hkq hkw hx
    refine ⟨[.space], x.lexeme, by simp, by simp [Lexeme.space], x.kind_lexeme, ?_⟩
    refine viable_of_leads_behind_space h hm.ends hw hs hc (fun j hj hb => ?_) hspace hl
      (hq' ▸ hm.offers hx)
    obtain rfl := Option.some.inj (hk.symm.trans hj)
    rw [hb] at hkw
    cases hkw

end Reads

/-- A text that is not accepted has an error that points at the first token that cannot be right. -/
theorem accepted_or_blames {parse : String → Except Failure α} {q₀ : σ}
    (h : Parser.Reads m q₀ parse) (hm : m.Guides expected) (text : String) :
    (∃ a, parse text = .ok a) ∨
      ∃ e, parse text = .error (.syntaxError e) ∧ Blames parse text e := by
  rcases hp : parse text with f | a
  swap
  · exact .inl ⟨a, rfl⟩
  obtain ⟨ts, pre, t, post, q, r, taken, hlex, rfl, hw, hr, rfl⟩ :=
    Parser.exists_refuse_of_parse h hm.ends hp
  obtain ⟨ts', hlex', hts⟩ := Parser.lex_of_reads h text
  obtain rfl := Except.ok.inj (hlex'.symm.trans hlex)
  have hpre : pre.map Token.lexeme <+: lexemes text.toList := by
    rw [← hts, List.map_append]
    exact List.prefix_append _ _
  have hs := spelled_of_walk hm hw fun l hl => hpre.subset hl
  have hc := List.IsChain.prefix (isChain_lexemes text.toList) hpre
  have offered (x : Expectation) (hx : x ∈ expected q) :
      Offered parse (pre.map Token.lexeme) x.kind :=
    offered_of_mem_expected h hm hw hs hc hx
  obtain ⟨hne, hr'⟩ := hm.refuses hr
  refine .inr ⟨_, rfl, _, pre, t, post, hlex, rfl, ?_, ?_, ?_, ?_⟩
  · rcases hr' with rfl | ⟨c, rfl, -⟩ <;> rfl
  · obtain ⟨x, hx⟩ := List.exists_mem_of_ne_nil _ hne
    obtain ⟨blanks, l, -, -, -, text', ts', a, hlex', hpre', ha⟩ := offered x hx
    refine ⟨text', ts', a, hlex', List.IsPrefix.trans ?_ hpre', ha⟩
    rw [List.append_assoc]
    exact List.prefix_append _ _
  · rw [List.map_append, List.map_singleton]
    exact not_viable_of_refuse h hm.ends hw hr
  · rcases hr' with rfl | ⟨c, rfl, hc⟩
    · refine ⟨rfl, fun entry hentry => ?_⟩
      obtain ⟨x, hx, rfl⟩ := List.mem_map.1 hentry
      exact ⟨x.kind, x.mem_entryKinds, offered x hx⟩
    · exact hc

end Machine

end KeyspaceQuery
