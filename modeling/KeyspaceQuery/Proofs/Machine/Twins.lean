import KeyspaceQuery.Proofs.Errors
import KeyspaceQuery.Proofs.Grammar.Statement

/-! `SELECT` and `UPSERT` side by side. Behind their first words the two go through the same states,
but that an `UPSERT` is stopped where a filter turns out to be a range or a pair. Nothing else is ever
stopped for that. -/

namespace KeyspaceQuery

/-- What a filter asks of the statement it stands in. -/
def Filter.capability? : Filter → Option Capability
  | .equality _ (.literal _) => none
  | .equality _ (.group _) => some .logicalOr
  | .between _ _ => some .between

namespace StatementMachine

/-- The states of a `SELECT` and of an `UPSERT` behind the same lexemes, with the filters read so
far. -/
inductive Twins (v : String) : List Filter → State → State → Prop
  | keyspace : Twins v [] (.stage (.keyspace .select)) (.stage (.keyspace (.upsert v)))
  | path {text dotted} : Twins v [] (.path .select text dotted) (.path (.upsert v) text dotted)
  | whereWord {p} : Twins v [] (.stage (.whereWord (.select p))) (.stage (.whereWord (.upsert v p)))
  | filter {p fs} :
    Twins v fs (.stage (.filter (.select p) fs)) (.stage (.filter (.upsert v p) fs))
  | operator {p fs k} :
    Twins v fs (.stage (.operator (.select p) fs k)) (.stage (.operator (.upsert v p) fs k))
  | comparand {p fs k} :
    Twins v fs (.stage (.comparand (.select p) fs k)) (.stage (.comparand (.upsert v p) fs k))
  | logical {p fs k u} :
    Twins v fs (.stage (.logical (.select p) fs k u)) (.stage (.logical (.upsert v p) fs k u))

/-- Whatever is answered from here on, the filter behind `fs` asks for the capability. -/
def Asks (c : Capability) (fs : List Filter) (q : State) : Prop :=
  ∀ ls s rest, move.answer q ls = some (s, rest) →
    ∃ p f after, s = .select p (fs ++ f :: after) ∧ f.capability? = some c

/-- What the two do with the same lexeme. -/
inductive TwinMoves (v : String) (fs : List Filter) (l : Lexeme) :
    Move State Statement → Move State Statement → Prop
  | go {q q'} : l.kind ∉ [.and, .or, .keyword .between] → Twins v fs q q' →
    TwinMoves v fs l (.go q) (.go q')
  | next {k u q q'} : l.kind = .and → Twins v (fs ++ [.equality k (.literal u)]) q q' →
    TwinMoves v fs l (.go q) (.go q')
  | done {p k u} :
    TwinMoves v fs l (.done (.select p (fs ++ [.equality k (.literal u)])) true)
      (.done (.upsert v p (fs ++ [.equality k (.literal u)])) true)
  | refuse {r r' taken} : TwinMoves v fs l (.refuse r taken) (.refuse r' taken)
  | barred {c q} : l.kind = c.kind → Asks c fs q →
    TwinMoves v fs l (.go q) (.refuse (.notAllowed c) true)

variable {v : String} {fs : List Filter}

theorem twinMoves_demand {s s' : Stage} {kind : TokenKind} {l : Lexeme} {n n' : String → State}
    (hkind : kind ∉ [.and, .or, .keyword .between]) (h : ∀ w, Twins v fs (n w) (n' w)) :
    TwinMoves v fs l (s.demand kind l n) (s'.demand kind l n') := by
  unfold Stage.demand
  split
  · rename_i hl
    exact .go (hl ▸ hkind) (h _)
  · exact .refuse

theorem twinMoves_move {s s' : Stage} {l : Lexeme} (h : Twins v fs (.stage s) (.stage s'))
    (htake : l.kind ≠ .whitespace → TwinMoves v fs l (s.take l) (s'.take l)) :
    TwinMoves v fs l (s.move l) (s'.move l) := by
  unfold Stage.move
  split
  · rename_i hl
    exact .go (by simp [hl]) h
  · exact htake ‹_›

theorem asks_second (p : Path) (fs : List Filter) (k u : String) :
    Asks .logicalOr fs (.stage (.second (.select p) fs k u)) := by
  intro ls s rest h
  obtain ⟨w, mid, -, h⟩ := answer_second_iff.1 h
  obtain ⟨after, rfl⟩ := filters_of_answer_moreFilters h
  exact ⟨p, .equality k (.group (.either u w)), after, by rw [List.append_assoc]; rfl, rfl⟩

theorem asks_lower (p : Path) (fs : List Filter) (k : String) :
    Asks .between fs (.stage (.lower (.select p) fs k)) := by
  intro ls s rest h
  obtain ⟨u, _, _, w, mid, -, -, -, h⟩ := answer_lower_iff.1 h
  obtain ⟨after, rfl⟩ := filters_of_answer_moreFilters h
  exact ⟨p, .between k (.range u w), after, by rw [List.append_assoc]; rfl, rfl⟩

/-- Twins stay twins until the `UPSERT` is stopped. -/
theorem twinMoves_of_twins {q q' : State} (h : Twins v fs q q') (l : Lexeme) :
    TwinMoves v fs l (move q l) (move q' l) := by
  cases h with
  | keyspace =>
    exact twinMoves_move .keyspace fun _ => twinMoves_demand (by decide) fun _ => .path
  | @path text dotted =>
    simp only [move]
    split
    · split
      · exact .refuse
      · exact .go (by simp [*]) .path
    · exact .go (by simp [*]) .path
    · split
      · exact .refuse
      · exact twinMoves_move .whereWord fun _ => twinMoves_demand (by decide) fun _ => .filter
  | whereWord =>
    exact twinMoves_move .whereWord fun _ => twinMoves_demand (by decide) fun _ => .filter
  | filter => exact twinMoves_move .filter fun _ => twinMoves_demand (by decide) fun _ => .operator
  | operator =>
    refine twinMoves_move .operator fun _ => ?_
    simp only [Stage.take]
    split
    · exact .go (by simp [*]) .comparand
    · exact .barred ‹_› (asks_lower _ _ _)
    · exact .refuse
  | comparand =>
    exact twinMoves_move .comparand fun _ => twinMoves_demand (by decide) fun _ => .logical
  | logical =>
    refine twinMoves_move .logical fun _ => ?_
    simp only [Stage.take]
    split
    · exact .done
    · exact .done
    · exact .next ‹_› .filter
    · exact .barred ‹_› (asks_second _ _ _ _)
    · exact .refuse

/-- How an `UPSERT` is stopped: it goes through `pre`, with an `AND` behind each of the filters
`before`, and refuses the lexeme behind. -/
structure Stop (fs : List Filter) (q : State) (pre : List Lexeme) (l : Lexeme) (c : Capability)
    (before : List Filter) : Prop where
  walk : ∃ q₁, move.walk q pre = some q₁ ∧ move q₁ l = .refuse (.notAllowed c) true
  kind : l.kind = c.kind
  plain : ∀ k ∈ pre, k.kind ≠ .or ∧ k.kind ≠ .keyword .between
  count : before.length = fs.length + pre.countP (·.kind = .and)
  literal : ∀ f ∈ before, f.capability? = none

theorem Stop.cons {q q₁ : State} {pre : List Lexeme} {k l : Lexeme} {c : Capability}
    {before fs' : List Filter} (h : Stop fs' q₁ pre l c before) (hk : move q k = .go q₁)
    (hplain : k.kind ≠ .or ∧ k.kind ≠ .keyword .between)
    (hfs : fs'.length = fs.length + if k.kind = .and then 1 else 0) :
    Stop fs q (k :: pre) l c before where
  walk := by
    obtain ⟨q₂, hw, hr⟩ := h.walk
    exact ⟨q₂, Machine.walk_cons_iff.2 ⟨q₁, hk, hw⟩, hr⟩
  kind := h.kind
  plain := List.forall_mem_cons.2 ⟨hplain, h.plain⟩
  count := by
    rw [h.count, hfs, List.countP_cons]
    simp only [decide_eq_true_eq]
    omega
  literal := h.literal

theorem Stop.answer_eq_none {q : State} {pre : List Lexeme} {l : Lexeme} {c : Capability}
    {before : List Filter} (h : Stop fs q pre l c before) (post : List Lexeme) :
    move.answer q (pre ++ l :: post) = none := by
  obtain ⟨q₁, hw, hr⟩ := h.walk
  rw [Machine.answer_append hw, Machine.answer, hr]
  rfl

/-- What becomes of twins on the same lexemes. -/
inductive TwinAnswers (v : String) (fs : List Filter) (q q' : State) (ls : List Lexeme) : Prop
  | both {p gs rest} : move.answer q ls = some (.select p gs, rest) →
    move.answer q' ls = some (.upsert v p gs, rest) → (∀ f ∈ gs, f.capability? = none) →
    TwinAnswers v fs q q' ls
  | none : move.answer q ls = none → move.answer q' ls = none → TwinAnswers v fs q q' ls
  | stop {pre l post c before} : ls = pre ++ l :: post → Stop fs q' pre l c before →
    (∀ s rest, move.answer q ls = some (s, rest) →
      ∃ p f after, s = .select p (before ++ f :: after) ∧ f.capability? = some c) →
    TwinAnswers v fs q q' ls

theorem answer_of_go {q q₁ : State} {l : Lexeme} (h : move q l = .go q₁) (ls : List Lexeme) :
    move.answer q (l :: ls) = move.answer q₁ ls := by
  rw [Machine.answer, h]
  rfl

theorem TwinAnswers.cons {q q₁ q' q₁' : State} {l : Lexeme} {ls : List Lexeme}
    {fs' : List Filter} (h : TwinAnswers v fs' q₁ q₁' ls) (hq : move q l = .go q₁)
    (hq' : move q' l = .go q₁') (hplain : l.kind ≠ .or ∧ l.kind ≠ .keyword .between)
    (hfs : fs'.length = fs.length + if l.kind = .and then 1 else 0) :
    TwinAnswers v fs q q' (l :: ls) := by
  cases h with
  | both ha ha' hgs =>
    exact .both ((answer_of_go hq ls).trans ha) ((answer_of_go hq' ls).trans ha') hgs
  | none ha ha' => exact .none ((answer_of_go hq ls).trans ha) ((answer_of_go hq' ls).trans ha')
  | stop hls hstop hasks =>
    refine .stop (congrArg (l :: ·) hls) (hstop.cons hq' hplain hfs) fun s rest ha => ?_
    exact hasks s rest ((answer_of_go hq ls).symm.trans ha)

theorem twinAnswers_of_twins {q q' : State} (h : Twins v fs q q')
    (hfs : ∀ f ∈ fs, f.capability? = none) (ls : List Lexeme) : TwinAnswers v fs q q' ls := by
  induction ls generalizing fs q q' with
  | nil => exact .none rfl rfl
  | cons l ls ih =>
    have hmoves := twinMoves_of_twins h l
    generalize hq : move q l = m at hmoves
    generalize hq' : move q' l = m' at hmoves
    have hliteral {k u : String} :
        ∀ f ∈ fs ++ [.equality k (.literal u)], f.capability? = none :=
      List.forall_mem_append.2 ⟨hfs, List.forall_mem_singleton.2 rfl⟩
    cases hmoves with
    | go hl h => exact (ih h hfs).cons hq hq' (by simp_all) (by simp_all)
    | next hl h => exact (ih h hliteral).cons hq hq' (by simp [hl]) (by simp [hl])
    | done =>
      exact .both (by rw [Machine.answer, hq]; rfl) (by rw [Machine.answer, hq']; rfl) hliteral
    | refuse => exact .none (by rw [Machine.answer, hq]; rfl) (by rw [Machine.answer, hq']; rfl)
    | barred hl hasks =>
      refine .stop (List.nil_append _).symm
        ⟨⟨q', rfl, hq'⟩, hl, List.forall_mem_nil _, rfl, hfs⟩ ?_
      intro s rest ha
      exact hasks ls s rest ((answer_of_go hq ls).symm.trans ha)

def Head.mayWrite : Head → Bool
  | upsert _ => true
  | _ => false

def Target.mayWrite : Target → Bool
  | upsert _ _ => true
  | _ => false

/-- The statement is an `UPSERT`, or may still become one. -/
def Stage.mayWrite : Stage → Bool
  | start | value | intoWord _ => true
  | keyspaceWord h | fromWord h | keyspace h => h.mayWrite
  | withWord _ | keyOrKeys _ | oneKey _ | terminator _ _ | nextKey _ _ | moreKeys _ _ => false
  | whereWord t | filter t _ | operator t _ _ | comparand t _ _ | logical t _ _ _
  | second t _ _ _ | lower t _ _ | rangeAnd t _ _ _ | upper t _ _ _ | moreFilters t _ => t.mayWrite

def State.mayWrite : State → Bool
  | stage s => s.mayWrite
  | path h _ _ => h.mayWrite

theorem Stage.mayWrite_of_take {s : Stage} {l : Lexeme} {q : State} (hs : s.mayWrite = false)
    (h : s.take l = .go q) : q.mayWrite = false := by
  cases s <;> simp only [take, demand, refuse] at h
  all_goals
    repeat' split at h
    all_goals cases h
  all_goals first | exact hs | cases hs

theorem Stage.mayWrite_of_move {s : Stage} {l : Lexeme} {q : State} (hs : s.mayWrite = false)
    (h : s.move l = .go q) : q.mayWrite = false := by
  unfold move at h
  split at h
  · cases h
    exact hs
  · exact mayWrite_of_take hs h

theorem mayWrite_of_move {q q' : State} {l : Lexeme} (hq : q.mayWrite = false)
    (h : move q l = .go q') : q'.mayWrite = false := by
  cases q with
  | stage s => exact Stage.mayWrite_of_move hq h
  | path hd text dotted =>
    simp only [move] at h
    split at h
    · split at h
      · cases h
      · cases h
        exact hq
    · cases h
      exact hq
    · split at h
      · cases h
      · unfold Head.leave at h
        cases hd with
        | upsert => cases hq
        | drop => cases h
        | create | select | delete => exact Stage.mayWrite_of_move rfl h

theorem mayWrite_of_walk {q q' : State} {pre : List Lexeme} (hq : q.mayWrite = false)
    (h : move.walk q pre = some q') : q'.mayWrite = false := by
  induction pre generalizing q with
  | nil =>
    cases h
    exact hq
  | cons l pre ih =>
    obtain ⟨q₁, hm, h⟩ := Machine.walk_cons_iff.1 h
    exact ih (mayWrite_of_move hq hm) h

/-- The first word of a statement tells whether it is an `UPSERT`. -/
theorem mayWrite_of_start {l : Lexeme} {q : State} (hblank : l.kind ≠ .whitespace)
    (hl : l.kind ≠ .keyword .upsert) (h : move (.stage .start) l = .go q) :
    q.mayWrite = false := by
  simp only [move, Stage.move, if_neg hblank, Stage.take, Stage.refuse] at h
  split at h
  all_goals cases h
  all_goals first | rfl | exact absurd ‹_› hl

/-- Only an `UPSERT` is stopped for what its filters ask for. -/
theorem Stage.mayWrite_of_notAllowed {s : Stage} {l : Lexeme} {c : Capability} {taken : Bool}
    (h : s.move l = .refuse (.notAllowed c) taken) : s.mayWrite = true ∧ s ≠ .start := by
  unfold move at h
  split at h
  · cases h
  · cases s <;> simp only [take, demand, refuse] at h
    case operator t _ _ => cases t <;> first | exact ⟨rfl, by simp⟩ | (split at h <;> cases h)
    case logical t _ _ _ => cases t <;> first | exact ⟨rfl, by simp⟩ | (split at h <;> cases h)
    all_goals
      repeat' split at h
      all_goals cases h

theorem mayWrite_of_notAllowed {q : State} {l : Lexeme} {c : Capability} {taken : Bool}
    (h : move q l = .refuse (.notAllowed c) taken) : q.mayWrite = true ∧ q ≠ .stage .start := by
  cases q with
  | stage s =>
    obtain ⟨hs, hstart⟩ := Stage.mayWrite_of_notAllowed h
    exact ⟨hs, fun h => hstart (State.stage.inj h)⟩
  | path hd text dotted =>
    simp only [move] at h
    split at h
    · split at h <;> cases h
    · cases h
    · split at h
      · cases h
      · unfold Head.leave at h
        cases hd with
        | upsert => exact ⟨rfl, by simp⟩
        | drop => cases h
        | create | select | delete => cases (Stage.mayWrite_of_notAllowed h).1

end StatementMachine

end KeyspaceQuery
