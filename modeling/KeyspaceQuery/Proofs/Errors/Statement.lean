import KeyspaceQuery.Proofs.Errors
import KeyspaceQuery.Proofs.Machine.Statement

/-! What the stages of a statement expect, and how each of them can be led to an answer. -/

namespace KeyspaceQuery.StatementMachine

def State.expected : State → List Expectation
  | stage s => s.expected
  | path _ _ true => Expected.identifier
  | path h text false =>
    match h.behind ⟨text⟩ with
    | some s => s.expected
    | none => []

theorem State.expected_path {h : Head} {text : String} {s : Stage}
    (hs : h.behind ⟨text⟩ = some s) : (path h text false).expected = s.expected := by
  simp only [expected, hs]

theorem State.expected_path_none {h : Head} {text : String} (hs : h.behind ⟨text⟩ = none) :
    (path h text false).expected = [] := by
  simp only [expected, hs]

theorem Stage.expected_ne_nil (s : Stage) : s.expected ≠ [] := by
  cases s with
  | operator t | logical t => cases t <;> nofun
  | _ => nofun

theorem Stage.refuses_of_take {s : Stage} {l : Lexeme} {r : Refusal} {taken : Bool}
    (h : s.take l = .refuse r taken) :
    r = .expected s.expected ∨ ∃ c, r = .notAllowed c ∧ l.kind = c.kind := by
  cases s with
  | start | keyOrKeys | terminator | moreKeys | moreFilters =>
    simp only [take, refuse] at h
    split at h <;> cases h
    exact .inl rfl
  | operator =>
    simp only [take, refuse] at h
    split at h
    · cases h
    · split at h <;> cases h
      exact .inr ⟨.between, rfl, ‹_›⟩
    · cases h
      exact .inl rfl
  | logical =>
    simp only [take, refuse] at h
    split at h
    · cases h
    · cases h
    · cases h
    · split at h <;> cases h
      exact .inr ⟨.logicalOr, rfl, ‹_›⟩
    · cases h
      exact .inl rfl
  | _ =>
    simp only [take, demand, refuse] at h
    split at h <;> cases h
    exact .inl rfl

theorem Stage.refuses_of_move {s : Stage} {l : Lexeme} {r : Refusal} {taken : Bool}
    (h : s.move l = .refuse r taken) :
    r = .expected s.expected ∨ ∃ c, r = .notAllowed c ∧ l.kind = c.kind := by
  unfold move at h
  split at h
  · cases h
  · exact refuses_of_take h

theorem refuses_of_move {q : State} {l : Lexeme} {r : Refusal} {taken : Bool}
    (h : move q l = .refuse r taken) : q.expected ≠ [] ∧
      (r = .expected q.expected ∨ ∃ c, r = .notAllowed c ∧ l.kind = c.kind) := by
  cases q with
  | stage s => exact ⟨s.expected_ne_nil, Stage.refuses_of_move h⟩
  | path hd text dotted =>
    simp only [move] at h
    split at h
    · split at h <;> cases h
      rename_i hdot
      subst hdot
      exact ⟨List.cons_ne_nil _ _, .inl rfl⟩
    · cases h
    · cases dotted with
      | true =>
        cases h
        exact ⟨List.cons_ne_nil _ _, .inl rfl⟩
      | false =>
        simp only [Bool.false_eq_true, if_false, Head.leave] at h
        cases hs : hd.behind ⟨text⟩ with
        | some s =>
          rw [hs] at h
          rw [State.expected_path hs]
          exact ⟨s.expected_ne_nil, Stage.refuses_of_move h⟩
        | none =>
          rw [hs] at h
          cases h

theorem Stage.not_isBroken_of_move {s : Stage} {q : State} {l : Lexeme}
    (h : s.move l = .go q) : ¬ l.IsBroken := by
  obtain ⟨kind, w⟩ := l
  rintro (hk | hk | hk) <;> cases hk <;> cases s <;> cases h

theorem not_isBroken_of_move {q q' : State} {l : Lexeme} (h : move q l = .go q') :
    ¬ l.IsBroken := by
  cases q with
  | stage s => exact Stage.not_isBroken_of_move h
  | path hd text dotted =>
    simp only [move] at h
    split at h
    · rename_i hk
      rintro (hb | hb | hb) <;> cases hk.symm.trans hb
    · rename_i hk
      rintro (hb | hb | hb) <;> cases hk.symm.trans hb
    · split at h
      · cases h
      · unfold Head.leave at h
        split at h
        · exact Stage.not_isBroken_of_move h
        · cases h

/-- What the shortest way to an answer is made of, up to the end of the input. -/
def Head.way : Head → List Expectation
  | create => [.keyword .withWord, .keyword .key, .identifier]
  | drop => []
  | _ => [.keyword .whereWord, .identifier, .equal, .string]

def Stage.way : Stage → List Expectation
  | start => [.keyword .drop, .keyword .keyspace, .keyspace]
  | keyspaceWord h => .keyword .keyspace :: .keyspace :: h.way
  | fromWord h => .keyword .fromWord :: .keyspace :: h.way
  | value => .string :: .keyword .into :: .keyspace :: Head.way (.upsert "")
  | intoWord v => .keyword .into :: .keyspace :: Head.way (.upsert v)
  | keyspace h => .keyspace :: h.way
  | withWord _ => Head.create.way
  | keyOrKeys _ => [.keyword .key, .identifier]
  | oneKey _ | nextKey _ _ => [.identifier]
  | whereWord _ => Head.select.way
  | filter _ _ => [.identifier, .equal, .string]
  | operator _ _ _ => [.equal, .string]
  | lower _ _ _ => [.string, .and, .string]
  | rangeAnd _ _ _ _ => [.and, .string]
  | comparand _ _ _ | second _ _ _ _ | upper _ _ _ _ => [.string]
  | terminator _ _ | moreKeys _ _ | logical _ _ _ _ | moreFilters _ _ => []

/-- An answer that has nothing more to be closed than what the end of the input closes. -/
def Settled : Statement × List Lexeme → Prop
  | (s, rest) => rest = [.eof] ∨ rest = [] ∧ s.nodeType ≠ .dropKeyspace

def Finishes (q : State) : Prop :=
  ∃ ls, (∀ l ∈ ls, l.IsPlain) ∧ ∃ a, move.answer q (spaced ls ++ [.eof]) = some a ∧ Settled a

theorem Head.endOfInput_not_mem_way (h : Head) : .endOfInput ∉ h.way := by
  cases h <;> simp [way]

theorem Stage.endOfInput_not_mem_way (s : Stage) : .endOfInput ∉ s.way := by
  cases s <;> simp [way, Head.endOfInput_not_mem_way]

theorem isPlain_of_mem_way {way : List Expectation} (h : .endOfInput ∉ way) :
    ∀ l ∈ way.map Expectation.lexeme, l.IsPlain := by
  intro l hl
  obtain ⟨x, hx, rfl⟩ := List.mem_map.1 hl
  exact Expectation.isPlain_lexeme (ne_of_mem_of_not_mem hx h)

/-- The way of a stage leads to an answer. -/
theorem finishes_stage (s : Stage) : Finishes (.stage s) := by
  refine ⟨s.way.map Expectation.lexeme, isPlain_of_mem_way s.endOfInput_not_mem_way, ?_⟩
  cases s with
  | start => exact ⟨_, rfl, .inl rfl⟩
  | keyspaceWord h | fromWord h | keyspace h =>
    cases h with
    | drop => exact ⟨_, rfl, .inl rfl⟩
    | _ => exact ⟨_, rfl, .inr ⟨rfl, nofun⟩⟩
  | value | intoWord | withWord | keyOrKeys | oneKey | nextKey | terminator | moreKeys =>
    exact ⟨_, rfl, .inr ⟨rfl, nofun⟩⟩
  | whereWord t | filter t | operator t | comparand t | logical t | second t | lower t
  | rangeAnd t | upper t | moreFilters t =>
    exact ⟨_, rfl, .inr ⟨rfl, t.nodeType_statement_ne _⟩⟩

/-- Behind the name of a keyspace the way is that of the stage there. -/
theorem finishes_path (h : Head) (text : String) : Finishes (.path h text false) := by
  cases hb : h.behind ⟨text⟩ with
  | none =>
    refine ⟨[], by simp, (.drop ⟨text⟩, [.eof]), ?_, .inl rfl⟩
    simp [spaced, Machine.answer, move, Head.leave, hb, Lexeme.eof, Move.answer]
  | some s =>
    obtain ⟨ls, hls, a, ha, hs⟩ := finishes_stage s
    refine ⟨ls, hls, a, ?_, hs⟩
    rw [← ha]
    cases ls with
    | nil => simp [spaced, Machine.answer, move, Head.leave, hb, Lexeme.eof]
    | cons l ls => simp [spaced, Machine.answer, move, Head.leave, hb, Lexeme.space]

/-- What an expected lexeme does: it leads on to a way, or to the answer itself. -/
def Leads (v : Move State Statement) : Prop := (∃ q, v = .go q ∧ Finishes q) ∨ ∃ s, v = .done s true

theorem leads_stage {v : Move State Statement} {s : Stage} (h : v = .go (.stage s)) : Leads v :=
  .inl ⟨_, h, finishes_stage s⟩

theorem Stage.leads_of_take {s : Stage} {x : Expectation} (hx : x ∈ s.expected) :
    Leads (s.take x.lexeme) := by
  cases s with
  | start =>
    simp only [expected, Expected.statement, List.mem_cons, List.not_mem_nil, or_false] at hx
    rcases hx with rfl | rfl | rfl | rfl | rfl <;> exact leads_stage rfl
  | keyspace h =>
    obtain rfl := List.mem_singleton.1 hx
    exact .inl ⟨_, rfl, finishes_path h _⟩
  | keyOrKeys p => rcases List.mem_pair.1 hx with rfl | rfl <;> exact leads_stage rfl
  | terminator p ks => rcases List.mem_pair.1 hx with rfl | rfl <;> exact .inr ⟨_, rfl⟩
  | moreKeys p ks =>
    rcases List.mem_pair.1 hx with rfl | rfl
    · exact leads_stage rfl
    · exact .inr ⟨_, rfl⟩
  | operator t fs k =>
    cases t with
    | upsert =>
      obtain rfl := List.mem_singleton.1 hx
      exact leads_stage rfl
    | select | delete =>
      rcases List.mem_pair.1 hx with rfl | rfl <;> exact leads_stage rfl
  | logical t fs k v =>
    cases t with
    | upsert =>
      obtain rfl := List.mem_singleton.1 hx
      exact leads_stage rfl
    | select | delete =>
      rcases List.mem_pair.1 hx with rfl | rfl <;> exact leads_stage rfl
  | moreFilters t fs =>
    simp only [expected, Expected.moreFilters, List.mem_cons, List.not_mem_nil, or_false] at hx
    rcases hx with rfl | rfl | rfl
    · exact .inr ⟨_, rfl⟩
    · exact .inr ⟨_, rfl⟩
    · exact leads_stage rfl
  | _ =>
    obtain rfl := List.mem_singleton.1 hx
    exact leads_stage rfl

theorem Stage.move_lexeme (s : Stage) (x : Expectation) : s.move x.lexeme = s.take x.lexeme := by
  apply if_neg
  cases x <;> nofun

/-- Behind the name of a keyspace only words are expected, and a blank may come before them. -/
theorem move_of_behind {h : Head} {text : String} {s : Stage} {x : Expectation}
    (hs : h.behind ⟨text⟩ = some s) (hx : x ∈ s.expected) :
    move (.path h text false) .space = .go (.stage s) ∧
      move (.path h text false) x.lexeme = s.take x.lexeme := by
  have hkeyword : ∃ k, x = .keyword k := by
    cases h with
    | drop => cases hs
    | _ =>
      cases hs
      exact ⟨_, List.mem_singleton.1 hx⟩
  obtain ⟨k, rfl⟩ := hkeyword
  refine ⟨?_, ?_⟩
  · simp [move, Head.leave, hs, Lexeme.space, Stage.move]
  · rw [← s.move_lexeme]
    simp [move, Head.leave, hs, Expectation.lexeme]

theorem leads_of_mem_expected {q : State} {x : Expectation} (hx : x ∈ q.expected) :
    Leads (move q x.lexeme) := by
  cases q with
  | stage s =>
    rw [move, s.move_lexeme]
    exact s.leads_of_take hx
  | path h text dotted =>
    cases dotted with
    | true =>
      obtain rfl := List.mem_singleton.1 hx
      exact .inl ⟨_, rfl, finishes_path h _⟩
    | false =>
      cases hs : h.behind ⟨text⟩ with
      | none =>
        rw [State.expected_path_none hs] at hx
        cases hx
      | some s =>
        rw [State.expected_path hs] at hx
        rw [(move_of_behind hs hx).2]
        exact s.leads_of_take hx

theorem passesBlank_of_mem_expected {q q' : State} {l : Lexeme} {x : Expectation}
    (hm : move q l = .go q') (hl : l.kind.isWord) (hx : x ∈ q'.expected) :
    ∃ q'', move q' .space = .go q'' ∧ move q'' x.lexeme = move q' x.lexeme := by
  cases q' with
  | stage s => exact ⟨.stage s, rfl, rfl⟩
  | path h text dotted =>
    cases dotted with
    | true =>
      rw [kind_of_path hm] at hl
      cases hl
    | false =>
      cases hs : h.behind ⟨text⟩ with
      | none =>
        rw [State.expected_path_none hs] at hx
        cases hx
      | some s =>
        rw [State.expected_path hs] at hx
        obtain ⟨hspace, hword⟩ := move_of_behind hs hx
        exact ⟨.stage s, hspace, (s.move_lexeme x).trans hword.symm⟩

theorem leads_move {v : Move State Statement} (h : Leads v) : move.Leads v := by
  rcases h with ⟨q, hq, ls, hls, a, ha, -⟩ | ⟨s, hs⟩
  · exact .inl ⟨q, hq, ls, hls, a, ha⟩
  · exact .inr ⟨s, true, hs⟩

theorem guides_move : move.Guides State.expected where
  ends := ends_move
  notBroken := not_isBroken_of_move
  refuses := refuses_of_move
  offers hx := leads_move (leads_of_mem_expected hx)
  passesBlank := passesBlank_of_mem_expected

end KeyspaceQuery.StatementMachine
