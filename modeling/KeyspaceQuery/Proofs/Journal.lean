import KeyspaceQuery.Proofs.Calls.Cursor
import KeyspaceQuery.Proofs.Errors
import KeyspaceQuery.Proofs.Grammar.Closing
import KeyspaceQuery.Proofs.Triple

/-! What the journal says about tokens. A parser goes forward on the tokens of its text and notes each
of them once, whatever it puts back meanwhile. It never goes behind a token that it refuses, nor
behind the first end of the input, but for one more end that a program needs to see when a statement
has taken the first. -/

namespace KeyspaceQuery

open Grammar (Open open_concat_iff)

/-- The error is about this token. -/
def SyntaxError.Reports (e : SyntaxError) (t : Token) : Prop :=
  e.position = t.position ∧ match e.cause with
    | .unexpected found _ => found = t.describe
    | .notAllowed capability => t.kind = capability.kind

theorem SyntaxError.reports_unexpected (t : Token) (expected : List Expectation) :
    (unexpected t expected).Reports t := ⟨rfl, rfl⟩

/-- The lexemes of the first tokens. -/
def passed (T : Nat → Token) (n : Nat) : List Lexeme := (List.range n).map (Token.lexeme ∘ T)

section Places

variable {T : Nat → Token} {last i j n : Nat}

theorem passed_succ (T : Nat → Token) (n : Nat) : passed T (n + 1) = passed T n ++ [(T n).lexeme] := by
  simp [passed, List.range_succ]

theorem EndsAt.le (h : EndsAt T last) (hn : n ≤ last)
    (hblank : ∀ i, n ≤ i → i < j → (T i).kind = .whitespace) : j ≤ last := by
  refine Nat.le_of_not_lt fun hlast => ?_
  have := hblank last hn hlast
  simp [h.behind last (Nat.le_refl _)] at this

theorem EndsAt.lt (h : EndsAt T last) (hn : n ≤ last) (ht : (T n).kind ≠ .endOfInput) :
    n < last :=
  Nat.lt_of_le_of_ne hn fun hn => ht (h.behind n (Nat.le_of_eq hn.symm))

/-- Blanks open nothing and close nothing. -/
theorem open_passed_iff (hj : n ≤ j) (hblank : ∀ i, n ≤ i → i < j → (T i).kind = .whitespace) :
    Open (passed T j) ↔ Open (passed T n) := by
  induction j, hj using Nat.le_induction with
  | base => rfl
  | succ j hj ih =>
    have hkind : (T j).lexeme.kind = .whitespace := hblank j hj (Nat.lt_succ_self j)
    rw [passed_succ, open_concat_iff, ih fun i hi hij => hblank i hi (Nat.lt_succ_of_lt hij)]
    simp [hkind, Lexeme.IsFiller]

variable (T last)

/-- The end of the input is still to be taken. -/
def Going (n _ : Nat) : Prop := n ≤ last

/-- A statement has begun and is not yet closed. -/
def Inside (n _ : Nat) : Prop := n ≤ last ∧ Open (passed T n)

/-- No statement has begun that is not closed. If the end of the input closed one, it was taken. -/
def Outside (n _ : Nat) : Prop :=
  n ≤ last ∧ ¬ Open (passed T n) ∨ n = last + 1 ∧ Open (passed T last)

/-- A program has come to its end. -/
def Ended (_ furthest : Nat) : Prop :=
  furthest = last + 1 ∧ ¬ Open (passed T last) ∨ furthest = last + 2 ∧ Open (passed T last)

/-- The token is the last one ever gone over. -/
def Behind (t : Token) (_ furthest : Nat) : Prop := ∃ i, furthest = i + 1 ∧ i ≤ last ∧ T i = t

/-- The error is about the last token ever gone over. -/
def Blamed (e : SyntaxError) (_ furthest : Nat) : Prop :=
  ∃ i, furthest = i + 1 ∧ i ≤ last ∧ e.Reports (T i)

variable {T last}

theorem blamed_of_behind {t : Token} {e : SyntaxError} {furthest : Nat} (he : e.Reports t)
    (h : Behind T last t n furthest) : Blamed T last e n furthest := by
  obtain ⟨i, hfurthest, hi, rfl⟩ := h
  exact ⟨i, hfurthest, hi, he⟩

theorem blamed_of_le {e : SyntaxError} (hn : n ≤ last) (he : e.Reports (T n)) :
    Blamed T last e (n + 1) (n + 1) := ⟨n, rfl, hn, he⟩

theorem inside_of_firm (h : EndsAt T last) (hn : n ≤ last) (ht : ¬ (T n).lexeme.IsFiller) :
    Inside T last (n + 1) (n + 1) := by
  refine ⟨h.lt hn fun hend => ht (.inr (.inr hend)), ?_⟩
  rw [passed_succ, open_concat_iff]
  exact ⟨fun hsemicolon => ht (.inr (.inl hsemicolon)), .inl ht⟩

theorem outside_of_semicolon (h : EndsAt T last) (hn : n ≤ last)
    (ht : (T n).kind = .semicolon) : Outside T last (n + 1) (n + 1) := by
  refine .inl ⟨h.lt hn (by simp [ht]), ?_⟩
  rw [passed_succ, open_concat_iff]
  exact fun hopen => hopen.1 ht

theorem outside_of_end (h : EndsAt T last) (hn : n ≤ last) (hopen : Open (passed T n))
    (ht : (T n).kind = .endOfInput) : Outside T last (n + 1) (n + 1) := by
  have : n = last := Nat.le_antisymm hn (Nat.le_of_not_lt fun hlt => h.before n hlt ht)
  exact .inr ⟨congrArg Nat.succ this, this ▸ hopen⟩

end Places

namespace Parser

variable {σ α : Type} {T : Nat → Token} {S : Nat → Source} {r : Source} {last : Nat}

/-- The stream stands at such a place, and such a token is the furthest it has gone. -/
def At (T : Nat → Token) (S : Nat → Source) (I : Nat → Nat → Prop) (b : TokenStream) : Prop :=
  ∃ k, TokenStream.On T S k b ∧ I k.place k.furthest

theorem At.note {I : Nat → Nat → Prop} {b : TokenStream} (h : At T S I b) {e : Event}
    (he : e.level ≠ "TRACE") : At T S I (b.note e) := by
  obtain ⟨k, hon, hI⟩ := h
  exact ⟨k, hon.note he, hI⟩

theorem At.mono {I J : Nat → Nat → Prop} (hIJ : ∀ n m, I n m → J n m) {b : TokenStream}
    (h : At T S I b) : At T S J b := by
  obtain ⟨k, hon, hI⟩ := h
  exact ⟨k, hon, hIJ _ _ hI⟩

/-- What is chosen about token number `n` keeps what is promised. -/
def Settled (Q : α → Nat → Nat → Prop) (E : SyntaxError → Nat → Nat → Prop) (n : Nat) :
    Choice α → Prop
  | .consume a => Q a (n + 1) (n + 1)
  | .leave a => Q a n (n + 1)
  | .reject e => E e (n + 1) (n + 1)

variable {I : Nat → Nat → Prop} {Q : α → Nat → Nat → Prop} {E : SyntaxError → Nat → Nat → Prop}

theorem settle_of_on {d : Choice α} {n : Nat} {call : TokenStream.Call} {c : TokenStream}
    (hcall : call ≠ .putBack) (hon : TokenStream.On T S ⟨n + 1, n + 1, some call⟩ c)
    (hd : Settled Q E n d) : ∃ c', (∃ a, settle c d = .ok (.ok a, c') ∧ At T S (Q a) c') ∨
      ∃ e, settle c d = .ok (.error e, c') ∧ At T S (E e) c' := by
  cases d with
  | consume a => exact ⟨c, .inl ⟨a, rfl, _, hon, hd⟩⟩
  | reject e => exact ⟨c, .inr ⟨e, rfl, _, hon, hd⟩⟩
  | leave a =>
    rcases hon.back with ⟨hk, -⟩ | ⟨hk, -⟩ | ⟨-, n', c', -, -, hn, hput, hon'⟩
    · cases hk
    · cases hk
      exact absurd rfl hcall
    · cases hn
      refine ⟨c', .inl ⟨a, by simp only [settle, hput]; rfl, _, hon', ?_⟩⟩
      rw [Cursor.goTo, Nat.max_eq_left (Nat.le_succ n)]
      exact hd

theorem triple_nextRaw (hS : r.Scans T S) {choose : Token → Choice α}
    (h : ∀ n m, I n m → Settled Q E n (choose (T n))) :
    Triple (At T S I) (nextRaw choose) (fun a => At T S (Q a)) (fun e => At T S (E e)) := by
  rintro b ⟨k, hon, hI⟩
  obtain ⟨c, hc, hon'⟩ := hon.next hS
  have hnext := hon' .next (by decide)
  rw [hon.goTo_eq (Nat.le_refl _)] at hnext
  simpa only [nextRaw, hc, bind, Except.bind] using
    settle_of_on (by decide) hnext (h _ _ hI)

theorem triple_next (hS : r.Scans T S) {choose : Token → Choice α}
    (h : ∀ n m j, I n m → n ≤ j → (∀ i, n ≤ i → i < j → (T i).kind = .whitespace) →
      (T j).kind ≠ .whitespace → Settled Q E j (choose (T j))) :
    Triple (At T S I) (next choose) (fun a => At T S (Q a)) (fun e => At T S (E e)) := by
  rintro b ⟨k, hon, hI⟩
  obtain ⟨j, c, hc, hj, hblank, hne, hnext⟩ := hon.nextPastBlanks hS
  rw [hon.goTo_eq hj] at hnext
  simpa only [next, hc, bind, Except.bind] using
    settle_of_on (by decide) hnext (h _ _ j hI hj hblank hne)

/-- The parser goes on from a place to another one, or else it blames the last token it went over. -/
def Forward (T : Nat → Token) (S : Nat → Source) (last : Nat) (I : Nat → Nat → Prop)
    (p : Parser α) (Q : α → Nat → Nat → Prop) : Prop :=
  Triple (At T S I) p (fun a => At T S (Q a)) (fun e => At T S (Blamed T last e))

theorem Forward.of_imp {J : Nat → Nat → Prop} {p : Parser α} (h : Forward T S last J p Q)
    (hIJ : ∀ n m, I n m → J n m) : Forward T S last I p Q :=
  h.mono (fun _ hb => hb.mono hIJ) fun _ _ => id

/-- Within a statement the end of the input is still to be taken. -/
theorem Forward.inside {p : Parser α} (h : Forward T S last (Going last) p Q) :
    Forward T S last (Inside T last) p Q :=
  h.of_imp fun _ _ => And.left

theorem forward_pure {a : α} (h : ∀ n m, I n m → Q a n m) : Forward T S last I (pure a) Q :=
  triple_pure fun _ hb => hb.mono h

theorem forward_bind {β : Type} {p : Parser α} {f : α → Parser β} {Q' : β → Nat → Nat → Prop}
    (hp : Forward T S last I p Q) (hf : ∀ a, Forward T S last (Q a) (f a) Q') :
    Forward T S last I (p >>= f) Q' :=
  triple_bind hp hf

theorem forward_reported {p : Parser Statement} {Q : Statement → Nat → Nat → Prop}
    (hp : Forward T S last I p Q) : Forward T S last I (reported p) Q :=
  triple_reported hp (fun _ _ hb => hb.note (by simp [Event.level]))
    fun _ _ hb => hb.note (by simp [Event.level])

theorem forward_note {e : Event} (he : e.level ≠ "TRACE") :
    Forward T S last I (note e) fun _ => I :=
  triple_note fun _ hb => hb.note he

theorem forward_rounds {step : σ → Parser (Round σ α)} {advances : Advances step}
    {I : σ → Nat → Nat → Prop} (h : ∀ s, Forward T S last (I s) (step s) (Round.elim I Q)) (s : σ) :
    Forward T S last (I s) (rounds step advances s) Q :=
  triple_rounds (I := fun s => At T S (I s)) (fun s => (h s).mono (fun _ => id) fun round _ hb => by
    cases round <;> exact hb) s

theorem forward_oneOrMore {more : Parser Bool} {progresses : more.Progresses (· = true)}
    {item : Parser α} {M O : Nat → Nat → Prop} (hitem : Forward T S last I item fun _ => M)
    (hmore : Forward T S last M more fun again => if again then I else O) :
    Forward T S last I (oneOrMore more progresses item) fun _ => O :=
  triple_oneOrMore hitem (hmore.mono (fun _ => id) fun again _ hb => by cases again <;> exact hb)

section Forward

variable (hS : r.Scans T S) (hend : EndsAt T last)

include hS hend

theorem forward_next_going {choose : Token → Choice α}
    (h : ∀ j, j ≤ last → (T j).kind ≠ .whitespace → Settled Q (Blamed T last) j (choose (T j))) :
    Forward T S last (Going last) (next choose) Q :=
  triple_next hS fun _ _ j hI _ hblank hne => h j (hend.le hI hblank) hne

theorem forward_next_inside {choose : Token → Choice α}
    (h : ∀ j, j ≤ last → Open (passed T j) → (T j).kind ≠ .whitespace →
      Settled Q (Blamed T last) j (choose (T j))) :
    Forward T S last (Inside T last) (next choose) Q :=
  triple_next hS fun _ _ j hI hj hblank hne =>
    h j (hend.le hI.1 hblank) ((open_passed_iff hj hblank).2 hI.2) hne

theorem forward_expect {kind : TokenKind} {expected : List Expectation}
    (hkind : ∀ w, ¬ (⟨kind, w⟩ : Lexeme).IsFiller := by simp [Lexeme.IsFiller]) :
    Forward T S last (Going last) (expect kind expected) fun _ => Inside T last := by
  refine forward_next_going hS hend fun j hj _ => ?_
  split
  · subst kind
    exact inside_of_firm hend hj (hkind _)
  · exact blamed_of_le hj (SyntaxError.reports_unexpected _ _)

theorem forward_word (k : Keyword) (expected : List Expectation) :
    Forward T S last (Going last) (word k expected) fun _ => Inside T last :=
  forward_bind (forward_expect hS hend) fun _ => forward_pure fun _ _ => id

theorem forward_string : Forward T S last (Going last) string fun _ => Inside T last :=
  forward_bind (forward_expect hS hend) fun _ => forward_pure fun _ _ => id

theorem forward_identifier : Forward T S last (Going last) identifier fun _ => Inside T last :=
  forward_bind (forward_expect hS hend) fun _ => forward_pure fun _ _ => id

theorem forward_terminator :
    Forward T S last (Inside T last) terminator fun _ => Outside T last := by
  refine forward_next_inside hS hend fun j hj hopen _ => ?_
  split
  · exact outside_of_end hend hj hopen ‹_›
  · exact outside_of_semicolon hend hj ‹_›
  · exact blamed_of_le hj (SyntaxError.reports_unexpected _ _)

/-- The token that ends a path was gone over last, and is put back. -/
theorem forward_pathStep (path : PathSoFar) :
    Forward T S last (Inside T last) (pathStep path) (Round.elim (fun _ => Inside T last)
      fun x n m => Inside T last n m ∧ Behind T last x.2 n m) := by
  refine triple_nextRaw hS fun n m hI => ?_
  split
  · split
    · exact blamed_of_le hI.1 (SyntaxError.reports_unexpected _ _)
    · exact inside_of_firm hend hI.1 (by simp [Lexeme.IsFiller, Token.kind_lexeme, *])
  · exact inside_of_firm hend hI.1 (by simp [Lexeme.IsFiller, Token.kind_lexeme, *])
  · exact ⟨hI, n, rfl, hI.1, rfl⟩

theorem forward_keyspace : Forward T S last (Going last) keyspace fun _ => Inside T last := by
  refine forward_bind (forward_expect hS hend) fun first => ?_
  refine forward_bind (forward_rounds (forward_pathStep hS hend) ⟨first.literal, false⟩)
    fun x => ?_
  obtain ⟨path, t⟩ := x
  dsimp only
  split
  · exact triple_reject fun b hb =>
      hb.mono fun _ _ h => blamed_of_behind (SyntaxError.reports_unexpected _ _) h.2
  · exact forward_pure fun _ _ => And.left

theorem forward_equality (admits : Admits) (key : String) :
    Forward T S last (Going last) (equality admits key) fun _ => Inside T last := by
  refine forward_bind (forward_string hS hend) fun first => ?_
  refine forward_bind (Q := fun _ => Inside T last)
    (forward_next_inside hS hend fun j hj hopen _ => ?_) fun pair => ?_
  · split
    · exact ⟨hj, hopen⟩
    · exact ⟨hj, hopen⟩
    · exact ⟨hj, hopen⟩
    · split
      · exact inside_of_firm hend hj (by simp [Lexeme.IsFiller, Token.kind_lexeme, *])
      · exact blamed_of_le hj ⟨rfl, ‹_›⟩
    · exact blamed_of_le hj (SyntaxError.reports_unexpected _ _)
  · split
    · exact forward_bind (forward_string hS hend).inside fun _ => forward_pure fun _ _ => id
    · exact forward_pure fun _ _ => id

theorem forward_range (key : String) :
    Forward T S last (Going last) (range key) fun _ => Inside T last := by
  refine forward_bind (forward_string hS hend) fun lower => ?_
  refine forward_bind (forward_expect hS hend).inside fun _ => ?_
  exact forward_bind (forward_string hS hend).inside fun upper => forward_pure fun _ _ => id

theorem forward_filter (admits : Admits) :
    Forward T S last (Going last) (filter admits) fun _ => Inside T last := by
  refine forward_bind (forward_identifier hS hend) fun key => ?_
  refine forward_bind (Q := fun _ => Inside T last)
    (forward_next_inside hS hend fun j hj _ _ => ?_) fun isRange => ?_
  · split
    · exact inside_of_firm hend hj (by simp [Lexeme.IsFiller, Token.kind_lexeme, *])
    · split
      · exact inside_of_firm hend hj (by simp [Lexeme.IsFiller, Token.kind_lexeme, *])
      · exact blamed_of_le hj ⟨rfl, ‹_›⟩
    · exact blamed_of_le hj (SyntaxError.reports_unexpected _ _)
  · split
    · exact (forward_range hS hend key).inside
    · exact (forward_equality hS hend admits key).inside

theorem forward_moreFilters :
    Forward T S last (Inside T last) moreFilters fun again =>
      if again then Going last else Outside T last := by
  refine forward_next_inside hS hend fun j hj hopen _ => ?_
  split
  · exact outside_of_end hend hj hopen ‹_›
  · exact outside_of_semicolon hend hj ‹_›
  · exact hend.lt hj (by simp [*])
  · exact blamed_of_le hj (SyntaxError.reports_unexpected _ _)

theorem forward_filters (admits : Admits) :
    Forward T S last (Going last) (filters admits) fun _ => Outside T last :=
  forward_oneOrMore (forward_filter hS hend admits) (forward_moreFilters hS hend)

theorem forward_moreKeys :
    Forward T S last (Inside T last) moreKeys fun again =>
      if again then Going last else Inside T last := by
  refine forward_next_inside hS hend fun j hj hopen _ => ?_
  split
  · exact ⟨hj, hopen⟩
  · exact ⟨hj, hopen⟩
  · exact hend.lt hj (by simp [*])
  · exact blamed_of_le hj (SyntaxError.reports_unexpected _ _)

theorem forward_keys : Forward T S last (Going last) keys fun _ => Inside T last := by
  refine forward_bind (Q := fun _ => Inside T last)
    (forward_next_going hS hend fun j hj _ => ?_) fun several => ?_
  · split
    · exact inside_of_firm hend hj (by simp [Lexeme.IsFiller, Token.kind_lexeme, *])
    · exact inside_of_firm hend hj (by simp [Lexeme.IsFiller, Token.kind_lexeme, *])
    · exact blamed_of_le hj (SyntaxError.reports_unexpected _ _)
  · have hident := forward_identifier hS hend
    split
    · exact (forward_oneOrMore hident (forward_moreKeys hS hend)).inside
    · exact forward_bind hident.inside fun _ => forward_pure fun _ _ => id

/-- Where a statement leaves the stream: `DROP` does not take what closes it. -/
def Closes (T : Nat → Token) (last : Nat) (s : Statement) : Nat → Nat → Prop :=
  if s.nodeType = .dropKeyspace then Inside T last else Outside T last

theorem forward_create :
    Forward T S last (Going last) create (Closes T last) := by
  refine forward_bind (forward_keyspace hS hend) fun path => ?_
  refine forward_bind (forward_word hS hend _ _).inside fun _ => ?_
  refine forward_bind (forward_keys hS hend).inside fun keys => ?_
  exact forward_bind (forward_terminator hS hend) fun _ => forward_pure fun _ _ => id

theorem forward_drop : Forward T S last (Going last) drop (Closes T last) :=
  forward_bind (forward_keyspace hS hend) fun _ => forward_pure fun _ _ => id

theorem forward_keyspaceWhere (admits : Admits) :
    Forward T S last (Going last) (keyspaceWhere admits) fun _ => Outside T last := by
  refine forward_bind (forward_keyspace hS hend) fun path => ?_
  refine forward_bind (forward_word hS hend _ _).inside fun _ => ?_
  exact forward_bind (forward_filters hS hend admits).inside fun _ => forward_pure fun _ _ => id

theorem forward_fromWhere {build : Path → List Filter → Statement}
    (hbuild : ∀ p fs, (build p fs).nodeType ≠ .dropKeyspace) :
    Forward T S last (Going last) (fromWhere build) (Closes T last) := by
  refine forward_bind (forward_word hS hend _ _) fun _ => ?_
  refine forward_bind (forward_keyspaceWhere hS hend _).inside fun ⟨path, filters⟩ => ?_
  refine forward_pure fun _ _ h => ?_
  rw [Closes, if_neg (hbuild path filters)]
  exact h

theorem forward_upsert : Forward T S last (Going last) upsert (Closes T last) := by
  refine forward_bind (forward_string hS hend) fun value => ?_
  refine forward_bind (forward_word hS hend _ _).inside fun _ => ?_
  exact forward_bind (forward_keyspaceWhere hS hend _).inside fun _ => forward_pure fun _ _ => id

theorem forward_statement : Forward T S last (Going last) statement (Closes T last) := by
  refine forward_bind (Q := fun t n m => Behind T last t n m ∧ (t.kind ≠ .endOfInput → n ≤ last))
    (forward_next_going hS hend fun j hj _ => ⟨⟨j, rfl, hj, rfl⟩, hend.lt hj⟩) fun t => ?_
  refine forward_bind (forward_note (by simp [Event.level])) fun _ => ?_
  have going {p : Parser Statement} (hkind : t.kind ≠ .endOfInput)
      (hp : Forward T S last (Going last) p (Closes T last)) :
      Forward T S last (fun n m => Behind T last t n m ∧ (t.kind ≠ .endOfInput → n ≤ last)) p
        (Closes T last) :=
    hp.of_imp fun _ _ h => h.2 hkind
  split
  · exact going (by simp [*]) (forward_bind (forward_word hS hend _ _)
      fun _ => forward_reported (forward_create hS hend).inside)
  · exact going (by simp [*]) (forward_bind (forward_word hS hend _ _)
      fun _ => forward_reported (forward_drop hS hend).inside)
  · exact going (by simp [*]) (forward_reported (forward_fromWhere hS hend nofun))
  · exact going (by simp [*]) (forward_reported (forward_fromWhere hS hend nofun))
  · exact going (by simp [*]) (forward_reported (forward_upsert hS hend))
  · exact forward_reported (triple_reject fun b hb =>
      hb.mono fun _ _ h => blamed_of_behind (SyntaxError.reports_unexpected _ _) h.1)

theorem forward_close (s : Statement) :
    Forward T S last (Closes T last s) (close s) fun _ => Outside T last := by
  unfold close Closes
  split
  · exact forward_terminator hS hend
  · exact forward_pure fun _ _ => id

/-- What the token that comes next says about the rest of a program. -/
def Decided (T : Nat → Token) (last : Nat) (t : Token) : Nat → Nat → Prop :=
  if t.kind = .endOfInput then Ended T last
  else if t.kind = .semicolon then Outside T last
  else Going last

/-- A program is asked for its next statement. If the end of the input was taken by the statement
before, it is taken once more. -/
theorem forward_endsStatement :
    Forward T S last (Outside T last)
      (next fun t => if endsStatement t then .consume t else .leave t) (Decided T last) := by
  refine triple_next hS fun n _ j hI hj hblank _ => ?_
  by_cases hkind : (T j).kind = .endOfInput
  · have hends : endsStatement (T j) := by simp [endsStatement, hkind]
    rw [if_pos hends]
    simp only [Settled, Decided, if_pos hkind]
    rcases hI with ⟨hn, hopen⟩ | ⟨rfl, hopen⟩
    · have hlast : j = last := Nat.le_antisymm (hend.le hn hblank)
        (Nat.le_of_not_lt fun hlt => hend.before j hlt hkind)
      rw [← open_passed_iff hj hblank, hlast] at hopen
      exact .inl ⟨congrArg Nat.succ hlast, hopen⟩
    · have hlast : j = last + 1 := Nat.le_antisymm (Nat.le_of_not_lt fun hlt => by
        simpa [hend.behind (last + 1) (Nat.le_succ last)] using hblank _ (Nat.le_refl _) hlt) hj
      exact .inr ⟨congrArg Nat.succ hlast, hopen⟩
  · -- the end of the input is not taken yet
    have hlt : j < last := Nat.lt_of_not_le fun hle => hkind (hend.behind j hle)
    by_cases hsemicolon : (T j).kind = .semicolon
    · have hends : endsStatement (T j) := by simp [endsStatement, hsemicolon]
      rw [if_pos hends]
      simp only [Settled, Decided, if_neg hkind, if_pos hsemicolon]
      exact outside_of_semicolon hend (Nat.le_of_lt hlt) hsemicolon
    · have hends : ¬ endsStatement (T j) := by simp [endsStatement, hkind, hsemicolon]
      rw [if_neg hends]
      simp only [Settled, Decided, if_neg hkind, if_neg hsemicolon]
      exact Nat.le_of_lt hlt

theorem forward_programStep (read : List Statement) :
    Forward T S last (Outside T last) (programStep read)
      (Round.elim (fun _ => Outside T last) fun _ => Ended T last) := by
  refine forward_bind (forward_endsStatement hS hend) fun t => ?_
  unfold Decided
  split
  · exact forward_pure fun _ _ => id
  · split
    · exact forward_pure fun _ _ => id
    · refine forward_bind (forward_statement hS hend) fun s => ?_
      exact forward_bind (forward_close hS hend s) fun _ => forward_pure fun _ _ => id

theorem forward_program :
    Forward T S last (Outside T last) program fun _ => Ended T last :=
  forward_bind (forward_rounds (forward_programStep hS hend) []) fun _ => forward_pure fun _ _ => id

end Forward

end Parser

theorem range_succ_eq_append {i n : Nat} (h : i ≤ n) :
    List.range (n + 1) = List.range i ++ i :: List.range' (i + 1) (n - i) := by
  have hlength : i + (n - i + 1) = n + 1 := by omega
  rw [← List.range'_succ, List.range_eq_range', List.range_eq_range', ← hlength,
    ← List.range'_append_1, Nat.zero_add]

theorem unclosed_iff_of_parse {text : String} {T : Nat → Token} {last : Nat} {p : Program}
    (hend : EndsAt T last) (hlex : lex text = .ok ((List.range (last + 1)).map T))
    (hp : parseProgram text = .ok p) :
    Grammar.Unclosed (((List.range (last + 1)).map T).map Token.lexeme) ↔
      Open (passed T last) := by
  obtain ⟨ts, hlex', hts⟩ := Parser.lex_of_reads reads_program text
  cases hlex.symm.trans hlex'
  obtain ⟨ss, hss, -⟩ := parseProgram_eq_ok_iff.1 hp
  have hpassed : ((List.range (last + 1)).map T).map Token.lexeme = passed T (last + 1) :=
    List.map_map
  have hkind : (T last).lexeme.kind = .endOfInput := hend.behind last (Nat.le_refl _)
  rw [← hts] at hss
  rw [hss.unclosed_iff, hpassed, passed_succ, open_concat_iff]
  simp [hkind, Lexeme.IsFiller]

/-- While a text is parsed as a program, its tokens are noted in their order and each of them once.
A failure notes them up to the token that its error is about. A success notes all of them, and
behind them one more end of the input just if the last statement is closed by the first one. -/
theorem tokens_noted_in_order (text : String) : ∃ ts z o b, lex text = .ok ts ∧
    z = ⟨.endOfInput, (Position.start.past text.toList).right, ""⟩ ∧
    Parser.program.run (.ofString text) = .ok (o, b) ∧
    match o with
    | .error e => parseProgram text = .error (.syntaxError e) ∧
        ∃ pre t post, ts = pre ++ t :: post ∧ e.Reports t ∧
          b.traces = (pre ++ [t]).map .scanned
    | .ok p => parseProgram text = .ok p ∧
        (Grammar.Unclosed (ts.map Token.lexeme) ∧ b.traces = (ts ++ [z]).map .scanned ∨
          ¬ Grammar.Unclosed (ts.map Token.lexeme) ∧ b.traces = ts.map .scanned) := by
  obtain ⟨T, S, hS⟩ := Source.exists_scans (Source.ready_ofString text)
  obtain ⟨last, hend, hlex, hz⟩ := hS.exists_endsAt
  have hstart : Parser.At T S (Outside T last) (.ofString text) :=
    ⟨_, TokenStream.on_ofString hS, .inl ⟨Nat.zero_le _, id⟩⟩
  obtain ⟨b, ⟨p, hrun, k, hon, hended⟩ | ⟨e, hrun, k, hon, i, hi, hle, he⟩⟩ :=
    Parser.forward_program hS hend hstart
  · have hparse : parseProgram text = .ok p := by simp only [parseProgram, Parser.parse, hrun]
    refine ⟨_, _, .ok p, b, hlex, rfl, hrun, hparse, ?_⟩
    rw [unclosed_iff_of_parse hend hlex hparse, hon.traces]
    rcases hended with ⟨hfurthest, hopen⟩ | ⟨hfurthest, hopen⟩
    · rw [hfurthest]
      exact .inr ⟨hopen, by simp⟩
    · rw [hfurthest, List.range_succ, ← hz]
      exact .inl ⟨hopen, by simp⟩
  · have hparse : parseProgram text = .error (.syntaxError e) := by
      simp only [parseProgram, Parser.parse, hrun]
    refine ⟨_, _, .error e, b, hlex, rfl, hrun, hparse, (List.range i).map T, T i,
      (List.range' (i + 1) (last - i)).map T, ?_, he, ?_⟩
    · rw [range_succ_eq_append hle]
      simp
    · rw [hon.traces, hi, List.range_succ]
      simp

end KeyspaceQuery
