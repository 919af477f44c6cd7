import KeyspaceQuery.Proofs.Grammar
import KeyspaceQuery.Proofs.Lexeme.Spelling
import KeyspaceQuery.Proofs.Machine.Statement

/-! What a statement is, by the grammar and by the machine. Stage by stage the answer of the machine
is told by the symbol that comes next, so that the whole answer is told by a sentence. -/

namespace KeyspaceQuery

open Grammar

/-- What is left of a text at some place before its end. -/
structure Readable (ls : List Lexeme) : Prop where
  apart : ls.IsChain Lexeme.Apart
  terminated : Terminated ls

theorem readable_lexemes (cs : List Char) : Readable (lexemes cs) :=
  ⟨isChain_lexemes cs, terminated_lexemes cs⟩

theorem Readable.leaves {ls rest : List Lexeme} (h : Readable ls) (hr : Leaves ls rest) :
    Readable rest :=
  ⟨h.apart.suffix hr.suffix, hr.terminated h.terminated⟩

namespace Grammar

variable {kind : TokenKind} {l : Lexeme} {w : String} {ls rest : List Lexeme}

theorem symbol_cons_of_blank (hl : l.kind = .whitespace) (hk : kind ≠ .whitespace) :
    Symbol kind w (l :: ls) rest ↔ Symbol kind w ls rest := by
  refine ⟨?_, ?_⟩
  · intro h
    cases h with
    | here => exact absurd hl hk
    | blank _ h => exact h
  · exact .blank hl

theorem symbol_cons (hl : l.kind ≠ .whitespace) :
    Symbol kind w (l :: ls) rest ↔ l = ⟨kind, w⟩ ∧ rest = ls := by
  refine ⟨?_, ?_⟩
  · intro h
    cases h with
    | here => exact ⟨rfl, rfl⟩
    | blank hb _ => exact absurd hb hl
  · rintro ⟨rfl, rfl⟩
    exact .here

theorem Symbol.length_lt (h : Symbol kind w ls rest) : rest.length < ls.length :=
  Nat.lt_of_succ_le h.leaves_cons.suffix.length_le

theorem Mark.length_lt (h : Mark kind ls rest) : rest.length < ls.length := by
  obtain ⟨w, h⟩ := h
  exact h.length_lt

/-- A keyspace is its parts behind blanks. -/
theorem keyspace_iff {p : Path} :
    Keyspace p ls rest ↔ ∃ w mid ws, Identifier w ls mid ∧
      Parts ws (⟨.identifier, w⟩ :: mid) rest ∧ p = ⟨".".intercalate ws⟩ := by
  refine ⟨?_, ?_⟩
  · intro h
    induction h with
    | parts h =>
      cases h with
      | last h => exact ⟨_, _, _, .here, .last h, rfl⟩
      | dot h => exact ⟨_, _, _, .here, .dot h, rfl⟩
    | blank hl _ ih =>
      obtain ⟨w, mid, ws, hw, h⟩ := ih
      exact ⟨w, mid, ws, .blank hl hw, h⟩
  · rintro ⟨w, mid, ws, hw, h, rfl⟩
    induction hw with
    | here => exact .parts h
    | blank hl _ ih => exact .blank hl (ih h)

theorem Parts.ne_nil {ws : List String} (h : Parts ws ls rest) : ws ≠ [] := by
  cases h <;> exact List.cons_ne_nil _ _

/-- Phrases that are read one after the other until what is read behind one of them is an end. -/
theorem joined_of_loop {α β : Type} {item : Phrase α} {I M : List α → List Lexeme → Option β}
    {E : List α → List Lexeme → β → Prop}
    (hitem : ∀ xs ls b, I xs ls = some b ↔ ∃ x mid, item x ls mid ∧ M (xs ++ [x]) mid = some b)
    (hmore : ∀ xs ls b, M xs ls = some b ↔
      (∃ mid, Mark kind ls mid ∧ I xs mid = some b) ∨ E xs ls b)
    (leaves : ∀ x ls mid, item x ls mid → Leaves ls mid) (xs : List α) (ls : List Lexeme) (b : β) :
    I xs ls = some b ↔ ∃ ys mid, Joined kind item ys ls mid ∧ E (xs ++ ys) mid b := by
  refine ⟨?_, ?_⟩
  · induction hn : ls.length using Nat.strong_induction_on generalizing xs ls with
    | _ n ih =>
      intro h
      obtain ⟨x, mid, hx, h⟩ := (hitem xs ls b).1 h
      rcases (hmore _ mid b).1 h with ⟨next, hm, h⟩ | h
      · have hlt : next.length < n :=
          hn ▸ Nat.lt_of_lt_of_le hm.length_lt (leaves x ls mid hx).suffix.length_le
        obtain ⟨ys, last, hys, h⟩ := ih _ hlt _ next rfl h
        exact ⟨x :: ys, last, .cons hx hm hys, by simpa using h⟩
      · exact ⟨[x], mid, .one hx, h⟩
  · rintro ⟨ys, mid, h, he⟩
    induction h generalizing xs with
    | one hx => exact (hitem _ _ _).2 ⟨_, _, hx, (hmore _ _ _).2 (.inr he)⟩
    | cons hx hm _ ih =>
      refine (hitem _ _ _).2 ⟨_, _, hx, (hmore _ _ _).2 (.inl ⟨_, hm, ih _ ?_⟩)⟩
      simpa using he

end Grammar

namespace StatementMachine

abbrev Stage.answer (s : Stage) : List Lexeme → Option (Statement × List Lexeme) :=
  StatementMachine.move.answer (.stage s)

variable {s : Stage} {ls rest : List Lexeme} {a : Statement × List Lexeme}

/-- A stage looks at the first symbol that comes. -/
theorem answer_iff : s.answer ls = some a ↔
    ∃ l mid, l.kind ≠ .whitespace ∧ Symbol l.kind l.literal ls mid ∧
      ((s.take l).answer l mid fun q => move.answer q mid) = some a := by
  induction ls with
  | nil => exact ⟨nofun, fun ⟨_, _, _, h, _⟩ => nomatch h⟩
  | cons m ls ih =>
    simp only [Stage.answer, Machine.answer, move, Stage.move]
    by_cases hm : m.kind = .whitespace
    · simp only [hm, if_true]
      refine ih.trans (exists_congr fun l => exists_congr fun mid => and_congr_right fun hl => ?_)
      rw [symbol_cons_of_blank hm hl]
    · simp only [hm, if_false]
      refine ⟨?_, ?_⟩
      · exact fun h => ⟨m, ls, hm, .here, h⟩
      · rintro ⟨l, mid, -, hl, h⟩
        obtain ⟨rfl, rfl⟩ := (symbol_cons hm).1 hl
        exact h

theorem answer_of_symbol {kind : TokenKind} {w : String} {mid : List Lexeme}
    (hk : kind ≠ .whitespace) (hw : Symbol kind w ls mid)
    (h : ((s.take ⟨kind, w⟩).answer ⟨kind, w⟩ mid fun q => move.answer q mid) = some a) :
    s.answer ls = some a :=
  answer_iff.2 ⟨⟨kind, w⟩, mid, hk, hw, h⟩

theorem answer_of_terminator {x : Statement} (heof : ∀ w, s.take ⟨.endOfInput, w⟩ = .done x true)
    (hsemi : ∀ w, s.take ⟨.semicolon, w⟩ = .done x true) (ht : Terminator ls rest) :
    s.answer ls = some (x, rest) := by
  rcases ht with ⟨w, h⟩ | ⟨w, h⟩
  · exact answer_of_symbol (by decide) h (by rw [heof]; rfl)
  · exact answer_of_symbol (by decide) h (by rw [hsemi]; rfl)

theorem answer_demand_iff {kind : TokenKind} {n : String → State}
    (hs : ∀ l, s.take l = s.demand kind l n) (hk : kind ≠ .whitespace) :
    s.answer ls = some a ↔ ∃ w mid, Symbol kind w ls mid ∧ move.answer (n w) mid = some a := by
  refine ⟨?_, ?_⟩
  · intro h
    obtain ⟨l, mid, -, hl, h⟩ := answer_iff.1 h
    rw [hs, Stage.demand] at h
    split at h
    · exact ⟨l.literal, mid, ‹l.kind = kind› ▸ hl, h⟩
    · cases h
  · rintro ⟨w, mid, hw, h⟩
    apply answer_of_symbol hk hw
    rw [hs, Stage.demand, if_pos rfl]
    exact h

theorem answer_mark_iff {kind : TokenKind} {q : State}
    (hs : ∀ l, s.take l = s.demand kind l fun _ => q) (hk : kind ≠ .whitespace) :
    s.answer ls = some a ↔ ∃ mid, Mark kind ls mid ∧ move.answer q mid = some a := by
  rw [answer_demand_iff hs hk]
  exact ⟨fun ⟨w, mid, hw, h⟩ => ⟨mid, ⟨w, hw⟩, h⟩, fun ⟨mid, ⟨w, hw⟩, h⟩ => ⟨w, mid, hw, h⟩⟩

theorem answer_terminator_iff {p : Path} {ks : List String} :
    (Stage.terminator p ks).answer ls = some a ↔
      ∃ rest, Terminator ls rest ∧ a = (.create p ks, rest) := by
  refine ⟨?_, ?_⟩
  · intro h
    obtain ⟨⟨kind, w⟩, mid, -, hl, h⟩ := answer_iff.1 h
    cases kind with
    | endOfInput => exact ⟨mid, .inl ⟨w, hl⟩, (Option.some.inj h).symm⟩
    | semicolon => exact ⟨mid, .inr ⟨w, hl⟩, (Option.some.inj h).symm⟩
    | _ => cases h
  · rintro ⟨rest, ht, rfl⟩
    exact answer_of_terminator (fun _ => rfl) (fun _ => rfl) ht

theorem answer_moreKeys_iff {p : Path} {ks : List String} :
    (Stage.moreKeys p ks).answer ls = some a ↔
      (∃ mid, Mark .comma ls mid ∧ (Stage.nextKey p ks).answer mid = some a) ∨
        ∃ rest, Terminator ls rest ∧ a = (.create p ks, rest) := by
  refine ⟨?_, ?_⟩
  · intro h
    obtain ⟨⟨kind, w⟩, mid, -, hl, h⟩ := answer_iff.1 h
    cases kind with
    | comma => exact .inl ⟨mid, ⟨w, hl⟩, h⟩
    | endOfInput => exact .inr ⟨mid, .inl ⟨w, hl⟩, (Option.some.inj h).symm⟩
    | semicolon => exact .inr ⟨mid, .inr ⟨w, hl⟩, (Option.some.inj h).symm⟩
    | _ => cases h
  · rintro (⟨mid, ⟨w, hw⟩, h⟩ | ⟨rest, ht, rfl⟩)
    · exact answer_of_symbol (by decide) hw h
    · exact answer_of_terminator (fun _ => rfl) (fun _ => rfl) ht

theorem answer_nextKey_iff {p : Path} :
    (Stage.nextKey p []).answer ls = some a ↔ ∃ ks mid rest,
      Joined .comma Identifier ks ls mid ∧ Terminator mid rest ∧ a = (.create p ks, rest) := by
  have loop := joined_of_loop (I := fun ks => (Stage.nextKey p ks).answer)
    (M := fun ks => (Stage.moreKeys p ks).answer)
    (E := fun ks ls a => ∃ rest, Terminator ls rest ∧ a = (.create p ks, rest))
    (fun ks ls a => answer_demand_iff (n := fun k => .stage (.moreKeys p (ks ++ [k])))
      (fun _ => rfl) (by decide))
    (fun ks ls a => answer_moreKeys_iff) (fun _ _ _ h => h.leaves) [] ls a
  simpa only [List.nil_append, exists_and_left] using loop

theorem answer_keyOrKeys_cases {p : Path} :
    (Stage.keyOrKeys p).answer ls = some a ↔
      (∃ mid, Word .key ls mid ∧ (Stage.oneKey p).answer mid = some a) ∨
        ∃ mid, Word .keys ls mid ∧ (Stage.nextKey p []).answer mid = some a := by
  refine ⟨?_, ?_⟩
  · intro h
    obtain ⟨⟨kind, w⟩, mid, -, hl, h⟩ := answer_iff.1 h
    cases kind with
    | keyword k =>
      cases k with
      | key => exact .inl ⟨mid, ⟨w, hl⟩, h⟩
      | keys => exact .inr ⟨mid, ⟨w, hl⟩, h⟩
      | _ => cases h
    | _ => cases h
  · rintro (⟨mid, ⟨w, hw⟩, h⟩ | ⟨mid, ⟨w, hw⟩, h⟩)
    · exact answer_of_symbol (by decide) hw h
    · exact answer_of_symbol (by decide) hw h

theorem answer_keyOrKeys_iff {p : Path} :
    (Stage.keyOrKeys p).answer ls = some a ↔
      ∃ ks mid rest, Keys ks ls mid ∧ Terminator mid rest ∧ a = (.create p ks, rest) := by
  have hkey (b : List Lexeme) : (Stage.oneKey p).answer b = some a ↔ _ :=
    answer_demand_iff (n := fun k => .stage (.terminator p [k])) (fun _ => rfl) (by decide)
  rw [answer_keyOrKeys_cases]
  refine ⟨?_, ?_⟩
  · rintro (⟨b, hw, h⟩ | ⟨b, hw, h⟩)
    · obtain ⟨k, c, hk, h⟩ := (hkey b).1 h
      obtain ⟨rest, h⟩ := answer_terminator_iff.1 h
      exact ⟨[k], c, rest, .one hw hk, h⟩
    · obtain ⟨ks, c, rest, hks, h⟩ := answer_nextKey_iff.1 h
      exact ⟨ks, c, rest, .several hw hks, h⟩
  · rintro ⟨ks, c, rest, hks, h⟩
    cases hks with
    | one hw hk => exact .inl ⟨_, hw, (hkey _).2 ⟨_, _, hk, answer_terminator_iff.2 ⟨rest, h⟩⟩⟩
    | several hw hks => exact .inr ⟨_, hw, answer_nextKey_iff.2 ⟨ks, c, rest, hks, h⟩⟩

section Filters

variable {t : Target} {fs : List Filter} {k v : String}

theorem answer_moreFilters_iff :
    (Stage.moreFilters t fs).answer ls = some a ↔
      (∃ mid, Mark .and ls mid ∧ (Stage.filter t fs).answer mid = some a) ∨
        ∃ rest, Terminator ls rest ∧ a = (t.statement fs, rest) := by
  refine ⟨?_, ?_⟩
  · intro h
    obtain ⟨⟨kind, w⟩, mid, -, hl, h⟩ := answer_iff.1 h
    cases kind with
    | and => exact .inl ⟨mid, ⟨w, hl⟩, h⟩
    | endOfInput => exact .inr ⟨mid, .inl ⟨w, hl⟩, (Option.some.inj h).symm⟩
    | semicolon => exact .inr ⟨mid, .inr ⟨w, hl⟩, (Option.some.inj h).symm⟩
    | _ => cases h
  · rintro (⟨mid, ⟨w, hw⟩, h⟩ | ⟨rest, ht, rfl⟩)
    · exact answer_of_symbol (by decide) hw h
    · exact answer_of_terminator (fun _ => rfl) (fun _ => rfl) ht

/-- Behind a value a second one may follow, or else what may follow a filter. -/
theorem answer_logical_iff :
    (Stage.logical t fs k v).answer ls = some a ↔
      (t.admits.logicalOr = true ∧ ∃ mid, Mark .or ls mid ∧
        (Stage.second t fs k v).answer mid = some a) ∨
        (Stage.moreFilters t (fs ++ [.equality k (.literal v)])).answer ls = some a := by
  rw [answer_moreFilters_iff]
  refine ⟨?_, ?_⟩
  · intro h
    obtain ⟨⟨kind, w⟩, mid, -, hl, h⟩ := answer_iff.1 h
    cases kind with
    | or =>
      cases hor : t.admits.logicalOr with
      | true => exact .inl ⟨rfl, mid, ⟨w, hl⟩, by simpa [Stage.take, hor, Move.answer] using h⟩
      | false => simp [Stage.take, hor, Move.answer] at h
    | and => exact .inr (.inl ⟨mid, ⟨w, hl⟩, h⟩)
    | endOfInput => exact .inr (.inr ⟨mid, .inl ⟨w, hl⟩, (Option.some.inj h).symm⟩)
    | semicolon => exact .inr (.inr ⟨mid, .inr ⟨w, hl⟩, (Option.some.inj h).symm⟩)
    | _ => cases h
  · rintro (⟨hor, mid, ⟨w, hw⟩, h⟩ | ⟨mid, ⟨w, hw⟩, h⟩ | ⟨rest, ht, rfl⟩)
    · exact answer_of_symbol (by decide) hw (by simpa [Stage.take, hor, Move.answer] using h)
    · exact answer_of_symbol (by decide) hw h
    · exact answer_of_terminator (fun _ => rfl) (fun _ => rfl) ht

theorem answer_operator_iff :
    (Stage.operator t fs k).answer ls = some a ↔
      (∃ mid, Mark .equal ls mid ∧ (Stage.comparand t fs k).answer mid = some a) ∨
        (t.admits.between = true ∧ ∃ mid, Word .between ls mid ∧
          (Stage.lower t fs k).answer mid = some a) := by
  refine ⟨?_, ?_⟩
  · intro h
    obtain ⟨⟨kind, w⟩, mid, -, hl, h⟩ := answer_iff.1 h
    cases kind with
    | equal => exact .inl ⟨mid, ⟨w, hl⟩, h⟩
    | keyword word =>
      cases word with
      | between =>
        cases hb : t.admits.between with
        | true => exact .inr ⟨rfl, mid, ⟨w, hl⟩, by simpa [Stage.take, hb, Move.answer] using h⟩
        | false => simp [Stage.take, hb, Move.answer] at h
      | _ => cases h
    | _ => cases h
  · rintro (⟨mid, ⟨w, hw⟩, h⟩ | ⟨hb, mid, ⟨w, hw⟩, h⟩)
    · exact answer_of_symbol (by decide) hw h
    · exact answer_of_symbol (by decide) hw (by simpa [Stage.take, hb, Move.answer] using h)

/-- The filters that a target admits. -/
def Target.Admitted : Target → Phrase Filter
  | upsert _ _ => Equality
  | _ => Condition

theorem Target.admitted_iff {f : Filter} :
    t.Admitted f ls rest ↔ Equality f ls rest ∨ t.admits = .read ∧ Condition f ls rest := by
  cases t with
  | upsert =>
    have : Admits.write ≠ .read := by decide
    exact ⟨.inl, fun h => h.elim id fun h => absurd h.1 this⟩
  | select | delete => exact ⟨fun h => .inr ⟨rfl, h⟩, fun h => h.elim .equality And.right⟩

theorem Target.admits_eq_read (h : t.admits.logicalOr = true ∨ t.admits.between = true) :
    t.admits = .read := by
  cases t with
  | upsert => rcases h with h | h <;> cases h
  | select | delete => rfl

theorem Target.leaves_of_admitted {f : Filter} (h : t.Admitted f ls rest) : Leaves ls rest :=
  (admitted_iff.1 h).elim Equality.leaves fun h => h.2.leaves

theorem answer_comparand_iff :
    (Stage.comparand t fs k).answer ls = some a ↔ ∃ v mid, Symbol .str v ls mid ∧
      (Stage.logical t fs k v).answer mid = some a :=
  answer_demand_iff (n := fun v => .stage (.logical t fs k v)) (fun _ => rfl) (by decide)

theorem answer_second_iff :
    (Stage.second t fs k v).answer ls = some a ↔ ∃ u mid, Symbol .str u ls mid ∧
      (Stage.moreFilters t (fs ++ [.equality k (.group (.either v u))])).answer mid = some a :=
  answer_demand_iff
    (n := fun u => .stage (.moreFilters t (fs ++ [.equality k (.group (.either v u))])))
    (fun _ => rfl) (by decide)

theorem answer_lower_iff :
    (Stage.lower t fs k).answer ls = some a ↔ ∃ v b c u mid,
      Symbol .str v ls b ∧ Mark .and b c ∧ Symbol .str u c mid ∧
        (Stage.moreFilters t (fs ++ [.between k (.range v u)])).answer mid = some a := by
  have hlower : (Stage.lower t fs k).answer ls = some a ↔ _ :=
    answer_demand_iff (n := fun v => .stage (.rangeAnd t fs k v)) (fun _ => rfl) (by decide)
  have hand (v : String) (b : List Lexeme) : (Stage.rangeAnd t fs k v).answer b = some a ↔ _ :=
    answer_mark_iff (q := .stage (.upper t fs k v)) (fun _ => rfl) (by decide)
  have hupper (v : String) (c : List Lexeme) : (Stage.upper t fs k v).answer c = some a ↔ _ :=
    answer_demand_iff (n := fun u => .stage (.moreFilters t (fs ++ [.between k (.range v u)])))
      (fun _ => rfl) (by decide)
  refine ⟨?_, ?_⟩
  · intro h
    obtain ⟨v, b, hv, h⟩ := hlower.1 h
    obtain ⟨c, hb, h⟩ := (hand v b).1 h
    obtain ⟨u, mid, hu, h⟩ := (hupper v c).1 h
    exact ⟨v, b, c, u, mid, hv, hb, hu, h⟩
  · rintro ⟨v, b, c, u, mid, hv, hb, hu, h⟩
    exact hlower.2 ⟨v, b, hv, (hand v b).2 ⟨c, hb, (hupper v c).2 ⟨u, mid, hu, h⟩⟩⟩

theorem answer_key_iff :
    (Stage.filter t fs).answer ls = some a ↔ ∃ k mid, Identifier k ls mid ∧
      (Stage.operator t fs k).answer mid = some a :=
  answer_demand_iff (n := fun k => .stage (.operator t fs k)) (fun _ => rfl) (by decide)

/-- Every target takes a key with one value. -/
theorem answer_filter_of_equality {f : Filter} {mid : List Lexeme} (hf : Equality f ls mid)
    (h : (Stage.moreFilters t (fs ++ [f])).answer mid = some a) :
    (Stage.filter t fs).answer ls = some a := by
  cases hf with
  | literal hk he hv =>
    refine answer_key_iff.2 ⟨_, _, hk, answer_operator_iff.2 (.inl ⟨_, he, ?_⟩)⟩
    exact answer_comparand_iff.2 ⟨_, _, hv, answer_logical_iff.2 (.inr h)⟩

theorem answer_filter_of_condition (hr : t.admits = .read) {f : Filter} {mid : List Lexeme}
    (hf : Condition f ls mid) (h : (Stage.moreFilters t (fs ++ [f])).answer mid = some a) :
    (Stage.filter t fs).answer ls = some a := by
  have hor : t.admits.logicalOr = true := by rw [hr]; rfl
  have hbetween : t.admits.between = true := by rw [hr]; rfl
  cases hf with
  | equality hf => exact answer_filter_of_equality hf h
  | either hk he hv ho hu =>
    refine answer_key_iff.2 ⟨_, _, hk, answer_operator_iff.2 (.inl ⟨_, he, ?_⟩)⟩
    refine answer_comparand_iff.2 ⟨_, _, hv, answer_logical_iff.2 (.inl ⟨hor, _, ho, ?_⟩)⟩
    exact answer_second_iff.2 ⟨_, _, hu, h⟩
  | between hk he hv ha hu =>
    refine answer_key_iff.2 ⟨_, _, hk, answer_operator_iff.2 (.inr ⟨hbetween, _, he, ?_⟩)⟩
    exact answer_lower_iff.2 ⟨_, _, _, _, _, hv, ha, hu, h⟩

theorem answer_filter_iff :
    (Stage.filter t fs).answer ls = some a ↔
      ∃ f mid, t.Admitted f ls mid ∧ (Stage.moreFilters t (fs ++ [f])).answer mid = some a := by
  refine ⟨?_, ?_⟩
  · intro h
    obtain ⟨k, b, hk, h⟩ := answer_key_iff.1 h
    rcases answer_operator_iff.1 h with ⟨c, he, h⟩ | ⟨hb, c, he, h⟩
    · obtain ⟨v, d, hv, h⟩ := answer_comparand_iff.1 h
      rcases answer_logical_iff.1 h with ⟨hor, e, ho, h⟩ | h
      · obtain ⟨u, mid, hu, h⟩ := answer_second_iff.1 h
        refine ⟨_, mid, Target.admitted_iff.2 (.inr ⟨Target.admits_eq_read (.inl hor), ?_⟩), h⟩
        exact .either hk he hv ho hu
      · exact ⟨_, d, Target.admitted_iff.2 (.inl (.literal hk he hv)), h⟩
    · obtain ⟨v, d, e, u, mid, hv, ha, hu, h⟩ := answer_lower_iff.1 h
      refine ⟨_, mid, Target.admitted_iff.2 (.inr ⟨Target.admits_eq_read (.inr hb), ?_⟩), h⟩
      exact .between hk he hv ha hu
  · rintro ⟨f, mid, hf, h⟩
    rcases Target.admitted_iff.1 hf with hf | ⟨hr, hf⟩
    · exact answer_filter_of_equality hf h
    · exact answer_filter_of_condition hr hf h

/-- Filters are read behind others up to what closes the statement. -/
theorem answer_filters_iff :
    (Stage.filter t fs).answer ls = some a ↔ ∃ gs mid rest,
      Joined .and t.Admitted gs ls mid ∧ Terminator mid rest ∧
        a = (t.statement (fs ++ gs), rest) := by
  have loop := joined_of_loop (I := fun fs => (Stage.filter t fs).answer)
    (M := fun fs => (Stage.moreFilters t fs).answer)
    (E := fun fs ls a => ∃ rest, Terminator ls rest ∧ a = (t.statement fs, rest))
    (fun fs ls a => answer_filter_iff) (fun fs ls a => answer_moreFilters_iff)
    (fun _ _ _ h => Target.leaves_of_admitted h) fs ls a
  simpa only [exists_and_left] using loop

theorem filters_of_answer_moreFilters {s : Statement}
    (h : (Stage.moreFilters t fs).answer ls = some (s, rest)) :
    ∃ gs, s = t.statement (fs ++ gs) := by
  rcases answer_moreFilters_iff.1 h with ⟨mid, -, h⟩ | ⟨rest, -, h⟩
  · obtain ⟨gs, _, _, -, -, h⟩ := answer_filters_iff.1 h
    exact ⟨gs, (Prod.mk.inj h).1⟩
  · exact ⟨[], by simpa using (Prod.mk.inj h).1⟩

theorem answer_whereWord_iff :
    (Stage.whereWord t).answer ls = some a ↔ ∃ mid fs b rest, Word .whereWord ls mid ∧
      Joined .and t.Admitted fs mid b ∧ Terminator b rest ∧ a = (t.statement fs, rest) := by
  rw [answer_mark_iff (q := .stage (.filter t [])) (fun _ => rfl) (by decide)]
  simp only [answer_filters_iff, List.nil_append, exists_and_left]

end Filters

section Keyspace

/-- The answer behind the name of a keyspace. -/
def Head.answer (h : Head) (p : Path) (ls : List Lexeme) : Option (Statement × List Lexeme) :=
  match h.behind p with
  | some s => s.answer ls
  | none => some (.drop p, ls)

theorem answer_leave (h : Head) (p : Path) (l : Lexeme) (ls : List Lexeme) :
    ((h.leave p l).answer l ls fun q => move.answer q ls) = h.answer p (l :: ls) := by
  unfold Head.leave Head.answer
  cases h.behind p <;> rfl

theorem path_text_append (text w : String) {ws : List String} (h : ws ≠ []) :
    text ++ w ++ "." ++ ".".intercalate ws = text ++ ".".intercalate (w :: ws) := by
  rw [String.intercalate_cons_of_ne_nil h]
  simp only [String.append_assoc]

/-- Behind an identifier comes no other one, so what is not a dot ends the name. -/
theorem answer_path_of_parts {h : Head} {text : String} {ws : List String} (hp : Parts ws ls rest)
    (hls : Readable ls) :
    move.answer (.path h text true) ls = h.answer ⟨text ++ ".".intercalate ws⟩ rest := by
  induction hp generalizing text with
  | @last w rest hdot =>
    rw [String.intercalate_singleton]
    rcases rest with _ | ⟨⟨kind, v⟩, rest⟩
    · cases hls.terminated with
      | cons _ h => cases h
    · have happ := hls.apart.rel_head? (y := ⟨kind, v⟩) rfl
      cases kind with
      | dot => exact absurd rfl (hdot _ rfl)
      | identifier => exact absurd ⟨rfl, rfl⟩ happ.1
      | _ => exact answer_leave h ⟨text ++ w⟩ _ rest
  | dot hws ih =>
    rw [← path_text_append _ _ hws.ne_nil, ← ih (hls.leaves (.cons nofun (.cons nofun (.refl _))))]
    rfl

theorem parts_of_answer_path {h : Head} (text : String) {ls : List Lexeme}
    (ha : move.answer (.path h text true) ls = some a) : ∃ ws rest, Parts ws ls rest := by
  match ls with
  | [] => cases ha
  | ⟨kind, w⟩ :: ls =>
    cases kind with
    | identifier =>
      match ls with
      | [] => cases ha
      | ⟨kind, d⟩ :: ls =>
        cases kind with
        | dot =>
          obtain ⟨ws, rest, h⟩ := parts_of_answer_path (text ++ w ++ ".") ha
          exact ⟨w :: ws, rest, .dot h⟩
        | _ => exact ⟨[w], _, .last (by rintro l ⟨⟩; nofun)⟩
    | _ => cases ha

theorem answer_keyspace_iff {h : Head} (hls : Readable ls) :
    (Stage.keyspace h).answer ls = some a ↔
      ∃ p mid, Keyspace p ls mid ∧ h.answer p mid = some a := by
  have start (w : String) (mid : List Lexeme) : move.answer (.path h w false) mid =
      move.answer (.path h "" true) (⟨.identifier, w⟩ :: mid) := by
    rw [← String.empty_append (s := w)]
    rfl
  rw [answer_demand_iff (n := fun w => .path h w false) (fun _ => rfl) (by decide)]
  refine ⟨?_, ?_⟩
  · rintro ⟨w, mid, hw, ha⟩
    rw [start] at ha
    obtain ⟨ws, rest, hws⟩ := parts_of_answer_path "" ha
    rw [answer_path_of_parts hws (hls.leaves hw.leaves_cons), String.empty_append] at ha
    exact ⟨_, rest, keyspace_iff.2 ⟨w, mid, ws, hw, hws, rfl⟩, ha⟩
  · rintro ⟨p, rest, hp, ha⟩
    obtain ⟨w, mid, ws, hw, hws, rfl⟩ := keyspace_iff.1 hp
    refine ⟨w, mid, hw, ?_⟩
    rwa [start, answer_path_of_parts hws (hls.leaves hw.leaves_cons), String.empty_append]

/-- A head goes on with filters if there are any behind its keyspace. -/
theorem answer_keyspaceWhere_iff {h : Head} {t : Path → Target}
    (hh : ∀ p, h.behind p = some (.whereWord (t p))) (hls : Readable ls) :
    (Stage.keyspace h).answer ls = some a ↔ ∃ p b c fs d rest, Keyspace p ls b ∧
      Word .whereWord b c ∧ Joined .and (t p).Admitted fs c d ∧ Terminator d rest ∧
        a = ((t p).statement fs, rest) := by
  rw [answer_keyspace_iff hls]
  simp only [Head.answer, hh]
  refine ⟨?_, ?_⟩
  · rintro ⟨p, b, hp, ha⟩
    obtain ⟨c, fs, d, rest, h⟩ := answer_whereWord_iff.1 ha
    exact ⟨p, b, c, fs, d, rest, hp, h⟩
  · rintro ⟨p, b, c, fs, d, rest, hp, h⟩
    exact ⟨p, b, hp, answer_whereWord_iff.2 ⟨c, fs, d, rest, h⟩⟩

theorem answer_start_cases : Stage.start.answer ls = some a ↔
    (∃ mid, Word .create ls mid ∧ (Stage.keyspaceWord .create).answer mid = some a) ∨
    (∃ mid, Word .drop ls mid ∧ (Stage.keyspaceWord .drop).answer mid = some a) ∨
    (∃ mid, Word .select ls mid ∧ (Stage.fromWord .select).answer mid = some a) ∨
    (∃ mid, Word .delete ls mid ∧ (Stage.fromWord .delete).answer mid = some a) ∨
    (∃ mid, Word .upsert ls mid ∧ Stage.value.answer mid = some a) := by
  refine ⟨?_, ?_⟩
  · intro h
    obtain ⟨⟨kind, w⟩, mid, -, hl, h⟩ := answer_iff.1 h
    cases kind with
    | keyword k =>
      cases k with
      | create => exact .inl ⟨mid, ⟨w, hl⟩, h⟩
      | drop => exact .inr (.inl ⟨mid, ⟨w, hl⟩, h⟩)
      | select => exact .inr (.inr (.inl ⟨mid, ⟨w, hl⟩, h⟩))
      | delete => exact .inr (.inr (.inr (.inl ⟨mid, ⟨w, hl⟩, h⟩)))
      | upsert => exact .inr (.inr (.inr (.inr ⟨mid, ⟨w, hl⟩, h⟩)))
      | _ => cases h
    | _ => cases h
  · rintro (⟨mid, ⟨w, hw⟩, h⟩ | ⟨mid, ⟨w, hw⟩, h⟩ | ⟨mid, ⟨w, hw⟩, h⟩ | ⟨mid, ⟨w, hw⟩, h⟩ |
      ⟨mid, ⟨w, hw⟩, h⟩)
    all_goals exact answer_of_symbol (by decide) hw h

theorem answer_create_iff (hls : Readable ls) :
    (Stage.keyspaceWord .create).answer ls = some a ↔ ∃ p ks b c d e rest, Word .keyspace ls b ∧
      Keyspace p b c ∧ Word .withWord c d ∧ Keys ks d e ∧ Terminator e rest ∧
        a = (.create p ks, rest) := by
  rw [answer_mark_iff (q := .stage (.keyspace .create)) (fun _ => rfl) (by decide)]
  have hwith (p : Path) (c : List Lexeme) : (Stage.withWord p).answer c = some a ↔ _ :=
    answer_mark_iff (q := .stage (.keyOrKeys p)) (fun _ => rfl) (by decide)
  refine ⟨?_, ?_⟩
  · rintro ⟨b, hk, h⟩
    obtain ⟨p, c, hp, h⟩ := (answer_keyspace_iff (hls.leaves hk.leaves)).1 h
    obtain ⟨d, hw, h⟩ := (hwith p c).1 h
    obtain ⟨ks, e, rest, hks, h⟩ := answer_keyOrKeys_iff.1 h
    exact ⟨p, ks, b, c, d, e, rest, hk, hp, hw, hks, h⟩
  · rintro ⟨p, ks, b, c, d, e, rest, hk, hp, hw, hks, h⟩
    refine ⟨b, hk, (answer_keyspace_iff (hls.leaves hk.leaves)).2 ⟨p, c, hp, ?_⟩⟩
    exact (hwith p c).2 ⟨d, hw, answer_keyOrKeys_iff.2 ⟨ks, e, rest, hks, h⟩⟩

theorem answer_drop_iff (hls : Readable ls) :
    (Stage.keyspaceWord .drop).answer ls = some a ↔ ∃ p b rest, Word .keyspace ls b ∧
      Keyspace p b rest ∧ a = (.drop p, rest) := by
  rw [answer_mark_iff (q := .stage (.keyspace .drop)) (fun _ => rfl) (by decide)]
  refine ⟨?_, ?_⟩
  · rintro ⟨b, hk, h⟩
    obtain ⟨p, rest, hp, h⟩ := (answer_keyspace_iff (hls.leaves hk.leaves)).1 h
    exact ⟨p, b, rest, hk, hp, (Option.some.inj h).symm⟩
  · rintro ⟨p, b, rest, hk, hp, rfl⟩
    exact ⟨b, hk, (answer_keyspace_iff (hls.leaves hk.leaves)).2 ⟨p, rest, hp, rfl⟩⟩

theorem answer_fromWord_iff {h : Head} {t : Path → Target}
    (hh : ∀ p, h.behind p = some (.whereWord (t p))) (hls : Readable ls) :
    (Stage.fromWord h).answer ls = some a ↔ ∃ b p c d fs e rest, Word .fromWord ls b ∧
      Keyspace p b c ∧ Word .whereWord c d ∧ Joined .and (t p).Admitted fs d e ∧
        Terminator e rest ∧ a = ((t p).statement fs, rest) := by
  rw [answer_mark_iff (q := .stage (.keyspace h)) (fun _ => rfl) (by decide)]
  refine ⟨?_, ?_⟩
  · rintro ⟨b, hf, ha⟩
    obtain ⟨p, c, d, fs, e, rest, h⟩ := (answer_keyspaceWhere_iff hh (hls.leaves hf.leaves)).1 ha
    exact ⟨b, p, c, d, fs, e, rest, hf, h⟩
  · rintro ⟨b, p, c, d, fs, e, rest, hf, h⟩
    exact ⟨b, hf, (answer_keyspaceWhere_iff hh (hls.leaves hf.leaves)).2 ⟨p, c, d, fs, e, rest, h⟩⟩

theorem answer_value_iff (hls : Readable ls) :
    Stage.value.answer ls = some a ↔ ∃ v b c p d e fs f rest, Symbol .str v ls b ∧ Word .into b c ∧
      Keyspace p c d ∧ Word .whereWord d e ∧ Joined .and Equality fs e f ∧ Terminator f rest ∧
        a = (.upsert v p fs, rest) := by
  rw [answer_demand_iff (n := fun v => .stage (.intoWord v)) (fun _ => rfl) (by decide)]
  have hinto (v : String) (b : List Lexeme) : (Stage.intoWord v).answer b = some a ↔ _ :=
    answer_mark_iff (q := .stage (.keyspace (.upsert v))) (fun _ => rfl) (by decide)
  have hwhere (v : String) {c : List Lexeme} (hc : Readable c) :=
    answer_keyspaceWhere_iff (h := .upsert v) (t := .upsert v) (a := a) (fun _ => rfl) hc
  refine ⟨?_, ?_⟩
  · rintro ⟨v, b, hv, h⟩
    obtain ⟨c, hi, h⟩ := (hinto v b).1 h
    obtain ⟨p, d, e, fs, f, rest, h⟩ :=
      (hwhere v ((hls.leaves hv.leaves).leaves hi.leaves)).1 h
    exact ⟨v, b, c, p, d, e, fs, f, rest, hv, hi, h⟩
  · rintro ⟨v, b, c, p, d, e, fs, f, rest, hv, hi, h⟩
    refine ⟨v, b, hv, (hinto v b).2 ⟨c, hi, ?_⟩⟩
    exact (hwhere v ((hls.leaves hv.leaves).leaves hi.leaves)).2 ⟨p, d, e, fs, f, rest, h⟩

/-- What the machine answers is what the grammar derives. -/
theorem answer_start_iff {s : Statement} (hls : Readable ls) :
    Stage.start.answer ls = some (s, rest) ↔ Sentence s ls rest := by
  rw [answer_start_cases]
  refine ⟨?_, ?_⟩
  · rintro (⟨b, hw, h⟩ | ⟨b, hw, h⟩ | ⟨b, hw, h⟩ | ⟨b, hw, h⟩ | ⟨b, hw, h⟩)
    · obtain ⟨p, ks, c, d, e, f, rest, hk, hp, hwith, hks, ht, ⟨⟩⟩ :=
        (answer_create_iff (hls.leaves hw.leaves)).1 h
      exact .closed nofun (.create hw hk hp hwith hks) ht
    · obtain ⟨p, c, rest, hk, hp, ⟨⟩⟩ := (answer_drop_iff (hls.leaves hw.leaves)).1 h
      exact .drop (.drop hw hk hp)
    · obtain ⟨c, p, d, e, fs, f, rest, hf, hp, hwh, hfs, ht, ⟨⟩⟩ :=
        (answer_fromWord_iff (t := .select) (fun _ => rfl) (hls.leaves hw.leaves)).1 h
      exact .closed nofun (.select hw hf hp hwh hfs) ht
    · obtain ⟨c, p, d, e, fs, f, rest, hf, hp, hwh, hfs, ht, ⟨⟩⟩ :=
        (answer_fromWord_iff (t := .delete) (fun _ => rfl) (hls.leaves hw.leaves)).1 h
      exact .closed nofun (.delete hw hf hp hwh hfs) ht
    · obtain ⟨v, c, d, p, e, f, fs, g, rest, hv, hi, hp, hwh, hfs, ht, ⟨⟩⟩ :=
        (answer_value_iff (hls.leaves hw.leaves)).1 h
      exact .closed nofun (.upsert hw hv hi hp hwh hfs) ht
  · rintro (⟨hs, hb, ht⟩ | hb)
    · cases hb with
      | create hw hk hp hwith hks =>
        exact .inl ⟨_, hw, (answer_create_iff (hls.leaves hw.leaves)).2
          ⟨_, _, _, _, _, _, _, hk, hp, hwith, hks, ht, rfl⟩⟩
      | drop => exact absurd rfl (hs _)
      | select hw hf hp hwh hfs =>
        exact .inr (.inr (.inl ⟨_, hw, (answer_fromWord_iff (t := .select) (fun _ => rfl)
          (hls.leaves hw.leaves)).2 ⟨_, _, _, _, _, _, _, hf, hp, hwh, hfs, ht, rfl⟩⟩))
      | delete hw hf hp hwh hfs =>
        exact .inr (.inr (.inr (.inl ⟨_, hw, (answer_fromWord_iff (t := .delete) (fun _ => rfl)
          (hls.leaves hw.leaves)).2 ⟨_, _, _, _, _, _, _, hf, hp, hwh, hfs, ht, rfl⟩⟩)))
      | upsert hw hv hi hp hwh hfs =>
        exact .inr (.inr (.inr (.inr ⟨_, hw, (answer_value_iff (hls.leaves hw.leaves)).2
          ⟨_, _, _, _, _, _, _, _, _, hv, hi, hp, hwh, hfs, ht, rfl⟩⟩)))
    · cases hb with
      | drop hw hk hp =>
        exact .inr (.inl ⟨_, hw, (answer_drop_iff (hls.leaves hw.leaves)).2
          ⟨_, _, _, hk, hp, rfl⟩⟩)

end Keyspace

end StatementMachine

theorem reads_statement : Parser.Reads StatementMachine.move (.stage .start) parseStatement :=
  Parser.reads_of_tracks fun _ => StatementMachine.tracks_statement

theorem parseStatement_eq_ok_iff {text : String} {s : Statement} :
    parseStatement text = .ok s ↔ ∃ rest, Sentence s (lexemes text.toList) rest := by
  rw [Parser.parse_eq_ok_iff reads_statement StatementMachine.ends_move]
  exact exists_congr fun rest => StatementMachine.answer_start_iff (readable_lexemes _)

/-- A text is parsed as `s` if and only if some of its first tokens are a sentence of `s`. There is
at most one such sentence, and without one there is a syntax error. -/
theorem parseStatement_ok_iff_begins (text : String) : ∃ ts, lex text = .ok ts ∧
    (∀ s, parseStatement text = .ok s ↔ ∃ pre, Begins s pre (ts.map Token.lexeme)) ∧
    (∀ s s' pre pre', Begins s pre (ts.map Token.lexeme) → Begins s' pre' (ts.map Token.lexeme) →
      s = s' ∧ pre = pre') ∧
    ((∃ e, parseStatement text = .error (.syntaxError e)) ↔
      ∀ s pre, ¬ Begins s pre (ts.map Token.lexeme)) := by
  obtain ⟨ts, hlex, hts⟩ := Parser.lex_of_reads reads_statement text
  have accepted (s : Statement) :
      parseStatement text = .ok s ↔ ∃ pre, Begins s pre (ts.map Token.lexeme) := by
    rw [parseStatement_eq_ok_iff, hts]
    refine ⟨?_, ?_⟩
    · rintro ⟨rest, h⟩
      obtain ⟨pre, hpre⟩ := h.suffix
      exact ⟨pre, rest, hpre.symm, h⟩
    · rintro ⟨pre, rest, -, h⟩
      exact ⟨rest, h⟩
  refine ⟨ts, hlex, accepted, ?_, ?_⟩
  · rintro s s' pre pre' ⟨rest, hpre, h⟩ ⟨rest', hpre', h'⟩
    have hr : Readable (ts.map Token.lexeme) := hts ▸ readable_lexemes _
    rw [← StatementMachine.answer_start_iff hr] at h h'
    obtain ⟨rfl, rfl⟩ := Prod.mk.inj (Option.some.inj (h.symm.trans h'))
    exact ⟨rfl, List.append_cancel_right (hpre.symm.trans hpre')⟩
  · refine ⟨?_, ?_⟩
    · rintro ⟨e, he⟩ s pre h
      cases he.symm.trans ((accepted s).2 ⟨pre, h⟩)
    · intro h
      rcases hp : parseStatement text with f | s
      · obtain ⟨-, -, t, -, -, r, -, -, -, -, -, rfl⟩ :=
          Parser.exists_refuse_of_parse reads_statement StatementMachine.ends_move hp
        exact ⟨_, rfl⟩
      · obtain ⟨pre, hpre⟩ := (accepted s).1 hp
        exact absurd hpre (h s pre)

end KeyspaceQuery
