import KeyspaceQuery.Proofs.Machine.Tracks
import KeyspaceQuery.Statement.Parser

/-! The machine that reads a statement. A stage is a place between two symbols of the grammar, with
all that was read before it; blanks do not move it. Inside the name of a keyspace a blank is a
lexeme like any other, and what ends the name belongs to the stage behind it. -/

namespace KeyspaceQuery.StatementMachine

open KeyspaceQuery.Parser

/-- The beginning of a statement, up to its keyspace. -/
inductive Head
  | create | drop | select | delete
  | upsert (value : String)
  deriving DecidableEq, Repr

/-- The beginning of a statement with filters, up to `WHERE`. -/
inductive Target
  | select (keyspace : Path)
  | delete (keyspace : Path)
  | upsert (value : String) (keyspace : Path)
  deriving DecidableEq, Repr

def Target.admits : Target → Admits
  | upsert _ _ => .write
  | _ => .read

def Target.statement : Target → List Filter → Statement
  | select keyspace, filters => .select keyspace filters
  | delete keyspace, filters => .delete keyspace filters
  | upsert value keyspace, filters => .upsert value keyspace filters

inductive Stage
  | start
  | keyspaceWord (h : Head)
  | fromWord (h : Head)
  | value
  | intoWord (value : String)
  | keyspace (h : Head)
  | withWord (keyspace : Path)
  | keyOrKeys (keyspace : Path)
  | oneKey (keyspace : Path)
  | terminator (keyspace : Path) (keys : List String)
  | nextKey (keyspace : Path) (keys : List String)
  | moreKeys (keyspace : Path) (keys : List String)
  | whereWord (t : Target)
  | filter (t : Target) (filters : List Filter)
  | operator (t : Target) (filters : List Filter) (key : String)
  | comparand (t : Target) (filters : List Filter) (key : String)
  | logical (t : Target) (filters : List Filter) (key first : String)
  | second (t : Target) (filters : List Filter) (key first : String)
  | lower (t : Target) (filters : List Filter) (key : String)
  | rangeAnd (t : Target) (filters : List Filter) (key lower : String)
  | upper (t : Target) (filters : List Filter) (key lower : String)
  | moreFilters (t : Target) (filters : List Filter)
  deriving DecidableEq, Repr

inductive State
  | stage (s : Stage)
  | path (h : Head) (text : String) (dotted : Bool)
  deriving DecidableEq, Repr

/-- The stage behind the name of the keyspace. A `DROP` ends with it. -/
def Head.behind (keyspace : Path) : Head → Option Stage
  | create => some (.withWord keyspace)
  | drop => none
  | select => some (.whereWord (.select keyspace))
  | delete => some (.whereWord (.delete keyspace))
  | upsert value => some (.whereWord (.upsert value keyspace))

namespace Stage

/-- What a refusal at the stage offers instead. -/
def expected : Stage → List Expectation
  | start => Expected.statement
  | keyspaceWord _ => Expected.keyspaceWord
  | fromWord _ => Expected.fromWord
  | value => Expected.string
  | intoWord _ => Expected.into
  | keyspace _ => Expected.keyspace
  | withWord _ => Expected.withWord
  | keyOrKeys _ => Expected.keyOrKeys
  | oneKey _ => Expected.identifier
  | terminator _ _ => Expected.terminator
  | nextKey _ _ => Expected.identifier
  | moreKeys _ _ => Expected.moreKeys
  | whereWord _ => Expected.whereWord
  | filter _ _ => Expected.identifier
  | operator t _ _ => if t.admits.between then Expected.operator else Expected.equal
  | comparand _ _ _ => Expected.string
  | logical t _ _ _ => if t.admits.logicalOr then Expected.logical else Expected.and
  | second _ _ _ _ => Expected.string
  | lower _ _ _ => Expected.string
  | rangeAnd _ _ _ _ => Expected.and
  | upper _ _ _ _ => Expected.string
  | moreFilters _ _ => Expected.moreFilters

def refuse (s : Stage) : Move State Statement := .refuse (.expected s.expected) true

/-- Goes on behind a lexeme of the one kind that may come. -/
def demand (s : Stage) (kind : TokenKind) (l : Lexeme) (next : String → State) :
    Move State Statement :=
  if l.kind = kind then .go (next l.literal) else s.refuse

/-- What the machine does with a lexeme that is not blank. -/
def take (s : Stage) (l : Lexeme) : Move State Statement :=
  match s with
  | start =>
    match l.kind with
    | .keyword .create => .go (.stage (.keyspaceWord .create))
    | .keyword .drop => .go (.stage (.keyspaceWord .drop))
    | .keyword .select => .go (.stage (.fromWord .select))
    | .keyword .delete => .go (.stage (.fromWord .delete))
    | .keyword .upsert => .go (.stage .value)
    | _ => s.refuse
  | keyspaceWord h => s.demand (.keyword .keyspace) l fun _ => .stage (.keyspace h)
  | fromWord h => s.demand (.keyword .fromWord) l fun _ => .stage (.keyspace h)
  | value => s.demand .str l fun v => .stage (.intoWord v)
  | intoWord v => s.demand (.keyword .into) l fun _ => .stage (.keyspace (.upsert v))
  | keyspace h => s.demand .identifier l fun w => .path h w false
  | withWord p => s.demand (.keyword .withWord) l fun _ => .stage (.keyOrKeys p)
  | keyOrKeys p =>
    match l.kind with
    | .keyword .key => .go (.stage (.oneKey p))
    | .keyword .keys => .go (.stage (.nextKey p []))
    | _ => s.refuse
  | oneKey p => s.demand .identifier l fun k => .stage (.terminator p [k])
  | terminator p ks =>
    match l.kind with
    | .endOfInput | .semicolon => .done (.create p ks) true
    | _ => s.refuse
  | nextKey p ks => s.demand .identifier l fun k => .stage (.moreKeys p (ks ++ [k]))
  | moreKeys p ks =>
    match l.kind with
    | .endOfInput | .semicolon => .done (.create p ks) true
    | .comma => .go (.stage (.nextKey p ks))
    | _ => s.refuse
  | whereWord t => s.demand (.keyword .whereWord) l fun _ => .stage (.filter t [])
  | filter t fs => s.demand .identifier l fun k => .stage (.operator t fs k)
  | operator t fs k =>
    match l.kind with
    | .equal => .go (.stage (.comparand t fs k))
    | .keyword .between =>
      if t.admits.between then .go (.stage (.lower t fs k)) else .refuse (.notAllowed .between) true
    | _ => s.refuse
  | comparand t fs k => s.demand .str l fun v => .stage (.logical t fs k v)
  | logical t fs k v =>
    match l.kind with
    | .endOfInput | .semicolon => .done (t.statement (fs ++ [.equality k (.literal v)])) true
    | .and => .go (.stage (.filter t (fs ++ [.equality k (.literal v)])))
    | .or =>
      if t.admits.logicalOr then .go (.stage (.second t fs k v))
      else .refuse (.notAllowed .logicalOr) true
    | _ => s.refuse
  | second t fs k v =>
    s.demand .str l fun u => .stage (.moreFilters t (fs ++ [.equality k (.group (.either v u))]))
  | lower t fs k => s.demand .str l fun v => .stage (.rangeAnd t fs k v)
  | rangeAnd t fs k v => s.demand .and l fun _ => .stage (.upper t fs k v)
  | upper t fs k v =>
    s.demand .str l fun u => .stage (.moreFilters t (fs ++ [.between k (.range v u)]))
  | moreFilters t fs =>
    match l.kind with
    | .endOfInput | .semicolon => .done (t.statement fs) true
    | .and => .go (.stage (.filter t fs))
    | _ => s.refuse

def move (s : Stage) (l : Lexeme) : Move State Statement :=
  if l.kind = .whitespace then .go (.stage s) else s.take l

end Stage

/-- What the machine does behind the name of a keyspace. -/
def Head.leave (h : Head) (keyspace : Path) (l : Lexeme) : Move State Statement :=
  match h.behind keyspace with
  | some s => s.move l
  | none => .done (.drop keyspace) false

def move : Machine State Statement
  | .stage s, l => s.move l
  | .path h text dotted, l =>
    match l.kind with
    | .dot =>
      if dotted then .refuse (.expected Expected.identifier) true
      else .go (.path h (text ++ ".") true)
    | .identifier => .go (.path h (text ++ l.literal) false)
    | _ =>
      if dotted then .refuse (.expected Expected.identifier) false else h.leave ⟨text⟩ l

theorem move_path {l : Lexeme} (hdot : l.kind ≠ .dot) (hid : l.kind ≠ .identifier) (h : Head)
    (text : String) : move (.path h text false) l = h.leave ⟨text⟩ l := by
  obtain ⟨kind, w⟩ := l
  cases kind with
  | dot => exact absurd rfl hdot
  | identifier => exact absurd rfl hid
  | _ => rfl

theorem Stage.move_ne_go_of_closing (s : Stage) {l : Lexeme} (q : State)
    (hl : l.kind = .endOfInput ∨ l.kind = .semicolon) : s.move l ≠ .go q := by
  obtain ⟨kind, w⟩ := l
  rcases hl with rfl | rfl <;> cases s <;> simp [move, take, demand, refuse]

/-- A statement does not go on behind what may close it. -/
theorem move_ne_go_of_closing {l : Lexeme} (q q' : State)
    (hl : l.kind = .endOfInput ∨ l.kind = .semicolon) : move q l ≠ .go q' := by
  cases q with
  | stage s => exact s.move_ne_go_of_closing q' hl
  | path h text dotted =>
    have hleave : move (.path h text dotted) l =
        if dotted then .refuse (.expected Expected.identifier) false else h.leave ⟨text⟩ l := by
      rcases hl with hl | hl <;> simp only [move, hl]
    rw [hleave, Head.leave]
    split
    · nofun
    · split
      · exact Stage.move_ne_go_of_closing _ q' hl
      · nofun

theorem ends_move : move.Ends := fun q q' => move_ne_go_of_closing q q' (.inl rfl)

/-- A name is begun by an identifier. -/
theorem Stage.path_of_move {s : Stage} {l : Lexeme} {h : Head} {text : String} {dotted : Bool}
    (hm : s.move l = .go (.path h text dotted)) : l.kind = .identifier ∧ dotted = false := by
  simp only [move] at hm
  split at hm
  · cases hm
  · cases s <;> simp only [take, demand, refuse] at hm
    all_goals
      repeat' split at hm
      all_goals cases hm
      try exact ⟨‹_›, rfl⟩

/-- A path is come to behind a dot or an identifier, and which of them it was is kept. -/
theorem kind_of_path {q : State} {l : Lexeme} {h : Head} {text : String} {dotted : Bool}
    (hm : move q l = .go (.path h text dotted)) :
    l.kind = if dotted then .dot else .identifier := by
  cases q with
  | stage s =>
    obtain ⟨hl, rfl⟩ := Stage.path_of_move hm
    exact hl
  | path hd text' dotted' =>
    simp only [move] at hm
    split at hm
    · split at hm <;> cases hm
      assumption
    · cases hm
      assumption
    · split at hm
      · cases hm
      · unfold Head.leave at hm
        split at hm
        · obtain ⟨hl, rfl⟩ := Stage.path_of_move hm
          exact hl
        · cases hm

theorem Target.nodeType_statement_ne (t : Target) (fs : List Filter) :
    (t.statement fs).nodeType ≠ .dropKeyspace := by
  cases t <;> nofun

/-- An answer at a stage is given at the lexeme that closes the statement, which is taken. -/
structure Closes (l : Lexeme) (s : Statement) (taken : Bool) : Prop where
  taken : taken = true
  isNotDrop : s.nodeType ≠ .dropKeyspace
  kind : l.kind = .endOfInput ∨ l.kind = .semicolon

theorem Stage.demand_ne_done (s : Stage) (kind : TokenKind) (l : Lexeme) (n : String → State)
    (x : Statement) (taken : Bool) : s.demand kind l n ≠ .done x taken := by
  unfold demand
  split <;> nofun

theorem Stage.closes_of_take {s : Stage} {l : Lexeme} {x : Statement} {taken : Bool}
    (h : s.take l = .done x taken) : Closes l x taken := by
  cases s with
  | start | keyOrKeys | operator =>
    simp only [take] at h
    repeat' split at h
    all_goals cases h
  | terminator | moreKeys =>
    simp only [take] at h
    split at h
    · cases h
      exact ⟨rfl, nofun, .inl ‹_›⟩
    · cases h
      exact ⟨rfl, nofun, .inr ‹_›⟩
    all_goals cases h
  | logical | moreFilters =>
    simp only [take] at h
    split at h
    · cases h
      exact ⟨rfl, Target.nodeType_statement_ne _ _, .inl ‹_›⟩
    · cases h
      exact ⟨rfl, Target.nodeType_statement_ne _ _, .inr ‹_›⟩
    all_goals (try split at h) <;> cases h
  | _ =>
    simp only [take] at h
    exact absurd h (demand_ne_done _ _ _ _ _ _)

theorem Stage.closes_of_move {s : Stage} {l : Lexeme} {x : Statement} {taken : Bool}
    (h : s.move l = .done x taken) : Closes l x taken := by
  unfold move at h
  split at h
  · cases h
  · exact closes_of_take h

/-- A `DROP` is answered before the lexeme behind it, and no other statement is. -/
theorem done_cases {q : State} {l : Lexeme} {s : Statement} {taken : Bool}
    (h : move q l = .done s taken) :
    Closes l s taken ∨ taken = false ∧ s.nodeType = .dropKeyspace := by
  cases q with
  | stage q => exact .inl (Stage.closes_of_move h)
  | path hd text dotted =>
    simp only [move] at h
    split at h
    · split at h <;> cases h
    · cases h
    · split at h
      · cases h
      · unfold Head.leave at h
        split at h
        · exact .inl (Stage.closes_of_move h)
        · cases h
          exact .inr ⟨rfl, rfl⟩

section Tracks

variable {z : Token}

abbrev State.run (z : Token) (q : State) : List Token → Verdict Token Statement :=
  move.run Token.lexeme z q

abbrev Stage.run (z : Token) (s : Stage) : List Token → Verdict Token Statement :=
  (State.stage s).run z

/-- The run that begins with `t`, a token that is not blank. -/
def Stage.runOn (z : Token) (s : Stage) (t : Token) (ts : List Token) : Verdict Token Statement :=
  (s.take t.lexeme).carryOut t ts fun q => q.run z ts

/-- The run behind the name of a keyspace. -/
def Head.run (z : Token) (h : Head) (keyspace : Path) : List Token → Verdict Token Statement :=
  match h.behind keyspace with
  | some s => s.run z
  | none => .done (.drop keyspace)

theorem tracks_stage {α : Type} {choose : Token → Choice α} {s : Stage}
    {k : α → List Token → Verdict Token Statement} (hz : z.lexeme = .eof)
    (h : ∀ t ts, t.kind ≠ .whitespace → Settles k t ts (s.runOn z t ts) (choose t)) :
    Tracks z (next choose) (s.run z) k := by
  refine tracks_next hz (Machine.run_nil ends_move hz _) (fun t ts ht => ?_) fun t ts ht _ => ?_
  · simp only [Machine.run, move, Stage.move, Token.lexeme, ht, if_true]
    rfl
  · have := h t ts ht
    simp only [Machine.run, move, Stage.move, Token.kind_lexeme, ht, if_false]
    exact this

theorem tracks_expect {s : Stage} {kind : TokenKind} {expected : List Expectation}
    {n : String → State} (hz : z.lexeme = .eof) (hs : ∀ l, s.take l = s.demand kind l n)
    (he : s.expected = expected) :
    Tracks z (expect kind expected) (s.run z) fun t => (n t.literal).run z := by
  apply tracks_stage hz
  intro t ts _
  rw [Stage.runOn, hs, Stage.demand]
  by_cases h : t.kind = kind
  · simp only [Token.kind_lexeme, h, if_true]
    rfl
  · simp only [Token.kind_lexeme, h, if_false]
    exact ⟨.expected expected, rfl, by rw [← he]; rfl⟩

theorem tracks_string {s : Stage} {n : String → State} (hz : z.lexeme = .eof)
    (hs : ∀ l, s.take l = s.demand .str l n) (he : s.expected = Expected.string) :
    Tracks z string (s.run z) fun v => (n v).run z :=
  tracks_bind (tracks_expect hz hs he) fun _ => tracks_pure rfl

theorem tracks_identifier {s : Stage} {n : String → State} (hz : z.lexeme = .eof)
    (hs : ∀ l, s.take l = s.demand .identifier l n) (he : s.expected = Expected.identifier) :
    Tracks z identifier (s.run z) fun w => (n w).run z :=
  tracks_bind (tracks_expect hz hs he) fun _ => tracks_pure rfl

theorem tracks_word {s : Stage} {w : Keyword} {expected : List Expectation} {q : State}
    (hz : z.lexeme = .eof) (hs : ∀ l, s.take l = s.demand (.keyword w) l fun _ => q)
    (he : s.expected = expected) : Tracks z (word w expected) (s.run z) fun _ => q.run z :=
  tracks_bind (tracks_expect hz hs he) fun _ => tracks_pure rfl

/-- What becomes of a path once the token behind it is known. -/
def runPath (z : Token) (h : Head) : PathSoFar × Token → List Token → Verdict Token Statement
  | (path, last) =>
    if path.dotted then .refused (.expected Expected.identifier) last else h.run z ⟨path.text⟩

theorem carryOut_leave (h : Head) (keyspace : Path) (t : Token) (ts : List Token) :
    ((h.leave keyspace t.lexeme).carryOut t ts fun q => q.run z ts) =
      h.run z keyspace (t :: ts) := by
  unfold Head.leave Head.run
  cases h.behind keyspace <;> rfl

theorem tracks_pathStep (hz : z.lexeme = .eof) (h : Head) (path : PathSoFar) :
    Tracks z (pathStep path) ((State.path h path.text path.dotted).run z)
      (afterRound (fun path => (State.path h path.text path.dotted).run z) (runPath z h)) := by
  apply tracks_nextRaw (Machine.run_nil ends_move hz _)
  intro t ts
  obtain ⟨text, dotted⟩ := path
  obtain ⟨kind, position, literal⟩ := t
  cases kind with
  | dot =>
    cases dotted with
    | false => exact rfl
    | true => exact ⟨.expected Expected.identifier, rfl, rfl⟩
  | identifier => exact rfl
  | _ =>
    cases dotted with
    | false => exact carryOut_leave h ⟨text⟩ ⟨_, position, literal⟩ ts
    | true => exact rfl

theorem tracks_keyspace (hz : z.lexeme = .eof) (h : Head) :
    Tracks z keyspace ((Stage.keyspace h).run z) (h.run z) := by
  refine tracks_bind (tracks_expect (n := fun w => .path h w false) hz (fun _ => rfl) rfl)
    fun first => ?_
  refine tracks_bind (tracks_rounds (tracks_pathStep hz h) ⟨first.literal, false⟩) ?_
  rintro ⟨⟨text, dotted⟩, last⟩
  cases dotted with
  | false => exact tracks_pure rfl
  | true => exact tracks_reject (r := .expected Expected.identifier)

section Filters

variable (t : Target) (fs : List Filter) (key : String)

theorem tracks_equality (hz : z.lexeme = .eof) :
    Tracks z (equality t.admits key) ((Stage.comparand t fs key).run z) fun f =>
      (Stage.moreFilters t (fs ++ [f])).run z := by
  refine tracks_bind (tracks_string (n := fun v => .stage (.logical t fs key v)) hz
    (fun _ => rfl) rfl) fun v => ?_
  refine tracks_bind (k := fun pair => if pair then (Stage.second t fs key v).run z
    else (Stage.moreFilters t (fs ++ [.equality key (.literal v)])).run z)
    (tracks_stage hz fun u ts _ => ?_) fun pair => ?_
  · obtain ⟨kind, position, literal⟩ := u
    cases kind with
    | and | endOfInput | semicolon => exact rfl
    | or =>
      cases h : t.admits.logicalOr with
      | true => simp [Stage.runOn, Stage.take, Token.lexeme, h, Settles, Move.carryOut]
      | false =>
        simp only [Stage.runOn, Stage.take, Token.lexeme, h, Bool.false_eq_true, if_false]
        exact ⟨.notAllowed .logicalOr, rfl, rfl⟩
    | _ => exact ⟨_, rfl, rfl⟩
  · cases pair with
    | false => exact tracks_pure rfl
    | true =>
      exact tracks_bind (tracks_string (n := fun u => .stage (.moreFilters t (fs ++ [.equality key
        (.group (.either v u))]))) hz (fun _ => rfl) rfl) fun _ => tracks_pure rfl

theorem tracks_range (hz : z.lexeme = .eof) :
    Tracks z (range key) ((Stage.lower t fs key).run z) fun f =>
      (Stage.moreFilters t (fs ++ [f])).run z := by
  refine tracks_bind (tracks_string (n := fun v => .stage (.rangeAnd t fs key v)) hz
    (fun _ => rfl) rfl) fun v => ?_
  refine tracks_bind (tracks_expect (n := fun _ => .stage (.upper t fs key v)) hz
    (fun _ => rfl) rfl) fun _ => ?_
  exact tracks_bind (tracks_string (n := fun u => .stage (.moreFilters t (fs ++ [.between key
    (.range v u)]))) hz (fun _ => rfl) rfl) fun _ => tracks_pure rfl

theorem tracks_filter (hz : z.lexeme = .eof) :
    Tracks z (filter t.admits) ((Stage.filter t fs).run z) fun f =>
      (Stage.moreFilters t (fs ++ [f])).run z := by
  refine tracks_bind (tracks_identifier (n := fun key => .stage (.operator t fs key)) hz
    (fun _ => rfl) rfl) fun key => ?_
  refine tracks_bind (k := fun isRange => if isRange then (Stage.lower t fs key).run z
    else (Stage.comparand t fs key).run z) (tracks_stage hz fun u ts _ => ?_) fun isRange => ?_
  · obtain ⟨kind, position, literal⟩ := u
    cases kind with
    | equal => exact rfl
    | keyword w =>
      cases w with
      | between =>
        cases h : t.admits.between with
        | true => simp [Stage.runOn, Stage.take, Token.lexeme, h, Settles, Move.carryOut]
        | false =>
          simp only [Stage.runOn, Stage.take, Token.lexeme, h, Bool.false_eq_true, if_false]
          exact ⟨.notAllowed .between, rfl, rfl⟩
      | _ => exact ⟨_, rfl, rfl⟩
    | _ => exact ⟨_, rfl, rfl⟩
  · cases isRange with
    | false => exact tracks_equality t fs key hz
    | true => exact tracks_range t fs key hz

theorem tracks_filters (hz : z.lexeme = .eof) :
    Tracks z (filters t.admits) ((Stage.filter t []).run z) fun fs => .done (t.statement fs) := by
  refine tracks_oneOrMore (I := fun fs => (Stage.filter t fs).run z)
    (fun fs => tracks_filter t fs hz) fun fs => tracks_stage hz fun u ts _ => ?_
  obtain ⟨kind, position, literal⟩ := u
  cases kind with
  | and | endOfInput | semicolon => exact rfl
  | _ => exact ⟨.expected Expected.moreFilters, rfl, rfl⟩

end Filters

theorem tracks_moreKeys (hz : z.lexeme = .eof) (p : Path) (ks : List String) :
    Tracks z moreKeys ((Stage.moreKeys p ks).run z) fun again =>
      if again then (Stage.nextKey p ks).run z else (Stage.terminator p ks).run z := by
  apply tracks_stage hz
  intro u ts _
  obtain ⟨kind, position, literal⟩ := u
  cases kind with
  | comma | endOfInput | semicolon => exact rfl
  | _ => exact ⟨.expected Expected.moreKeys, rfl, rfl⟩

theorem tracks_keys (hz : z.lexeme = .eof) (p : Path) :
    Tracks z keys ((Stage.keyOrKeys p).run z) fun ks => (Stage.terminator p ks).run z := by
  refine tracks_bind (k := fun several => if several then (Stage.nextKey p []).run z
    else (Stage.oneKey p).run z) (tracks_stage hz fun u ts _ => ?_) fun several => ?_
  · obtain ⟨kind, position, literal⟩ := u
    cases kind with
    | keyword w =>
      cases w with
      | key | keys => exact rfl
      | _ => exact ⟨.expected Expected.keyOrKeys, rfl, rfl⟩
    | _ => exact ⟨.expected Expected.keyOrKeys, rfl, rfl⟩
  · cases several with
    | false =>
      exact tracks_bind (tracks_identifier (n := fun k => .stage (.terminator p [k])) hz
        (fun _ => rfl) rfl) fun _ => tracks_pure rfl
    | true =>
      change Tracks z (oneOrMore moreKeys progresses_moreKeys identifier) _ _
      exact tracks_oneOrMore (I := fun ks => (Stage.nextKey p ks).run z)
        (fun ks => tracks_identifier (n := fun k => .stage (.moreKeys p (ks ++ [k]))) hz
          (fun _ => rfl) rfl) (tracks_moreKeys hz p)

theorem tracks_terminator (hz : z.lexeme = .eof) (p : Path) (ks : List String) :
    Tracks z terminator ((Stage.terminator p ks).run z) fun _ => .done (.create p ks) := by
  apply tracks_stage hz
  intro u ts _
  obtain ⟨kind, position, literal⟩ := u
  cases kind with
  | endOfInput | semicolon => exact rfl
  | _ => exact ⟨.expected Expected.terminator, rfl, rfl⟩

theorem tracks_create (hz : z.lexeme = .eof) :
    Tracks z create ((Stage.keyspace .create).run z) Verdict.done := by
  refine tracks_bind (tracks_keyspace hz .create) fun p => ?_
  refine tracks_bind (tracks_word (q := .stage (.keyOrKeys p)) (s := .withWord p) hz
    (fun _ => rfl) rfl) fun _ => ?_
  refine tracks_bind (tracks_keys hz p) fun ks => ?_
  exact tracks_bind (tracks_terminator hz p ks) fun _ => tracks_pure rfl

theorem tracks_drop (hz : z.lexeme = .eof) :
    Tracks z drop ((Stage.keyspace .drop).run z) Verdict.done :=
  tracks_bind (tracks_keyspace hz .drop) fun _ => tracks_pure rfl

theorem tracks_keyspaceWhere (hz : z.lexeme = .eof) {h : Head} {admits : Admits}
    {t : Path → Target} (hh : ∀ p, h.behind p = some (.whereWord (t p)))
    (ht : ∀ p, (t p).admits = admits) :
    Tracks z (keyspaceWhere admits) ((Stage.keyspace h).run z) fun r =>
      .done ((t r.1).statement r.2) := by
  refine tracks_bind (tracks_keyspace hz h) fun p => ?_
  rw [Head.run, hh, ← ht p]
  refine tracks_bind (tracks_word (q := .stage (.filter (t p) [])) hz (fun _ => rfl) rfl)
    fun _ => ?_
  exact tracks_bind (tracks_filters (t p) hz) fun _ => tracks_pure rfl

theorem tracks_fromWhere (hz : z.lexeme = .eof) {h : Head} {t : Path → Target}
    (hh : ∀ p, h.behind p = some (.whereWord (t p))) (ht : ∀ p, (t p).admits = .read) :
    Tracks z (fromWhere fun p fs => (t p).statement fs) ((Stage.fromWord h).run z)
      Verdict.done := by
  refine tracks_bind (tracks_word (q := .stage (.keyspace h)) hz (fun _ => rfl) rfl) fun _ => ?_
  exact tracks_bind (tracks_keyspaceWhere hz hh ht) fun _ => tracks_pure rfl

theorem tracks_upsert (hz : z.lexeme = .eof) :
    Tracks z upsert (Stage.value.run z) Verdict.done := by
  refine tracks_bind (tracks_string (n := fun v => .stage (.intoWord v)) hz (fun _ => rfl) rfl)
    fun v => ?_
  refine tracks_bind (tracks_word (q := .stage (.keyspace (.upsert v))) hz (fun _ => rfl) rfl)
    fun _ => ?_
  exact tracks_bind (tracks_keyspaceWhere (t := .upsert v) hz (fun _ => rfl) fun _ => rfl)
    fun _ => tracks_pure rfl

/-- The parser of statements does what the machine does from its start. -/
theorem tracks_statement (hz : z.lexeme = .eof) :
    Tracks z statement (Stage.start.run z) Verdict.done := by
  refine tracks_bind (k := Stage.start.runOn z) (tracks_stage hz fun t ts _ => rfl) fun t => ?_
  refine tracks_bind (k := fun _ => Stage.start.runOn z t) (tracks_note rfl) fun _ => ?_
  obtain ⟨kind, position, literal⟩ := t
  have keyspaceWord (h : Head) :
      Tracks z (word .keyspace Expected.keyspaceWord) ((Stage.keyspaceWord h).run z)
        fun _ => (Stage.keyspace h).run z :=
    tracks_word hz (fun _ => rfl) rfl
  cases kind with
  | keyword w =>
    cases w with
    | create => exact tracks_bind (keyspaceWord .create) fun _ => tracks_reported (tracks_create hz)
    | drop => exact tracks_bind (keyspaceWord .drop) fun _ => tracks_reported (tracks_drop hz)
    | select =>
      exact tracks_reported (tracks_fromWhere (t := .select) hz (fun _ => rfl) fun _ => rfl)
    | delete =>
      exact tracks_reported (tracks_fromWhere (t := .delete) hz (fun _ => rfl) fun _ => rfl)
    | upsert => exact tracks_reported (tracks_upsert hz)
    | _ => exact tracks_reported (tracks_reject (r := .expected Expected.statement))
  | _ => exact tracks_reported (tracks_reject (r := .expected Expected.statement))

end Tracks

end KeyspaceQuery.StatementMachine
