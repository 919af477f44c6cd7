import KeyspaceQuery.Token.Stream

/-! Parsers as steps on a token stream. A step gives a value or a syntax error, and in both cases the
stream it leaves, from which parsing can go on. No parser adds to what is pending, and a loop whose
rounds each take something from it comes to an end. -/

namespace KeyspaceQuery

structure Parser (α : Type) where
  run : TokenStream → Except Fault (Except SyntaxError α × TokenStream)
  pending_le : ∀ {b c o}, run b = .ok (o, c) → c.pending ≤ b.pending

/-- What a parser does with the token it has read: it keeps it, puts it back, or refuses it. A refused
token stays read. -/
inductive Choice (α : Type)
  | consume (a : α)
  | leave (a : α)
  | reject (e : SyntaxError)

/-- One round of a loop: another one follows, or a value is given. -/
inductive Round (σ α : Type)
  | again (s : σ)
  | done (a : α)

def Round.IsAgain {σ α : Type} : Round σ α → Prop
  | again _ => True
  | done _ => False

namespace Parser

variable {σ α β : Type}

instance : Monad Parser where
  pure a := ⟨fun b => .ok (.ok a, b), fun h => by cases h; exact Nat.le_refl _⟩
  bind p f :=
    { run := fun b =>
        match p.run b with
        | .error x => .error x
        | .ok (.error e, c) => .ok (.error e, c)
        | .ok (.ok a, c) => (f a).run c
      pending_le := fun {b c o} h => by
        rcases hp : p.run b with x | ⟨e | a, d⟩ <;> simp only [hp] at h
        · cases h
        · cases h
          exact p.pending_le hp
        · exact Nat.le_trans ((f a).pending_le h) (p.pending_le hp) }

def reject (e : SyntaxError) : Parser α :=
  ⟨fun b => .ok (.error e, b), fun h => by cases h; exact Nat.le_refl _⟩

def note (e : Event) : Parser Unit :=
  ⟨fun b => .ok (.ok (), b.note e), fun h => by cases h; exact Nat.le_refl _⟩

/-- Carries out the choice about the token read last. -/
def settle (b : TokenStream) : Choice α → Except Fault (Except SyntaxError α × TokenStream)
  | .consume a => .ok (.ok a, b)
  | .leave a => do return (.ok a, ← b.putBack)
  | .reject e => .ok (.error e, b)

theorem pending_settle {b c : TokenStream} {t : Token} {d : Choice α} {o : Except SyntaxError α}
    (ht : b.slot = .taken t) (h : settle b d = .ok (o, c)) :
    c.pending ≤ b.pending + t.weight := by
  cases d with
  | consume a => cases h; exact Nat.le_add_right _ _
  | leave a =>
    obtain ⟨_, h₁, h₂⟩ := bind_eq_ok_iff.1 h
    cases h₂
    exact Nat.le_of_eq (TokenStream.pending_putBack ht h₁)
  | reject e => cases h; exact Nat.le_add_right _ _

/-- Reads the next token that is not blank. -/
def next (choose : Token → Choice α) : Parser α where
  run b := do
    let (t, c) ← b.nextPastBlanks
    settle c (choose t)
  pending_le h := by
    obtain ⟨⟨t, c⟩, h₁, h₂⟩ := bind_eq_ok_iff.1 h
    have := pending_settle (TokenStream.slot_of_nextPastBlanks h₁) h₂
    have := TokenStream.pending_nextPastBlanks h₁
    omega

/-- Reads the next token, blank or not. -/
def nextRaw (choose : Token → Choice α) : Parser α where
  run b := do
    let (t, c) ← b.next
    settle c (choose t)
  pending_le h := by
    obtain ⟨⟨t, c⟩, h₁, h₂⟩ := bind_eq_ok_iff.1 h
    have := pending_settle (TokenStream.slot_of_next h₁) h₂
    have := TokenStream.pending_next h₁
    omega

/-- Whenever the parser gives a value in `P`, less is pending than before. -/
def Progresses (p : Parser α) (P : α → Prop) : Prop :=
  ∀ ⦃b c a⦄, p.run b = .ok (.ok a, c) → P a → c.pending < b.pending

theorem progresses_pure {a : α} {P : α → Prop} (h : ¬ P a) : (pure a : Parser α).Progresses P := by
  intro b c a' hr ha
  cases hr
  exact absurd ha h

theorem progresses_reject {e : SyntaxError} {P : α → Prop} : (reject e : Parser α).Progresses P := by
  intro b c a hr _
  cases hr

/-- A value in `Q` comes from a first step that progressed, or else from a second one that did. -/
theorem progresses_bind {p : Parser α} {f : α → Parser β} {P : α → Prop} {Q : β → Prop}
    (hp : p.Progresses P) (hf : ∀ a, ¬ P a → (f a).Progresses Q) : (p >>= f).Progresses Q := by
  intro b c y hr hy
  simp only [bind] at hr
  rcases hq : p.run b with x | ⟨e | a, d⟩ <;> simp only [hq] at hr
  · cases hr
  · cases hr
  · by_cases ha : P a
    · exact Nat.lt_of_le_of_lt ((f a).pending_le hr) (hp hq ha)
    · exact Nat.lt_of_lt_of_le (hf a ha hr hy) (p.pending_le hq)

/-- A choice for a value in `P` takes a token, and not the end of the input. -/
def Takes (choose : Token → Choice α) (P : α → Prop) : Prop :=
  ∀ t a, P a → choose t ≠ .leave a ∧ (choose t = .consume a → t.kind ≠ .endOfInput)

theorem pending_lt_of_settle {choose : Token → Choice α} {P : α → Prop} (takes : Takes choose P)
    {b c d : TokenStream} {t : Token} {a : α} (hc : c.pending + t.weight ≤ b.pending)
    (h : settle c (choose t) = .ok (.ok a, d)) (ha : P a) : d.pending < b.pending := by
  obtain ⟨hleave, hconsume⟩ := takes t a ha
  cases hd : choose t <;> simp only [hd] at h
  · cases h
    have := Token.weight_pos (hconsume hd)
    omega
  · obtain ⟨_, _, h₂⟩ := bind_eq_ok_iff.1 h
    cases h₂
    exact absurd hd hleave
  · cases h

theorem progresses_next {choose : Token → Choice α} {P : α → Prop} (takes : Takes choose P) :
    (next choose).Progresses P := fun _ _ _ h ha => by
  obtain ⟨⟨t, d⟩, h₁, h₂⟩ := bind_eq_ok_iff.1 h
  exact pending_lt_of_settle takes (TokenStream.pending_nextPastBlanks h₁) h₂ ha

theorem progresses_nextRaw {choose : Token → Choice α} {P : α → Prop} (takes : Takes choose P) :
    (nextRaw choose).Progresses P := fun _ _ _ h ha => by
  obtain ⟨⟨t, d⟩, h₁, h₂⟩ := bind_eq_ok_iff.1 h
  exact pending_lt_of_settle takes (TokenStream.pending_next h₁) h₂ ha

/-- Every round that calls for another one takes something from what is pending. -/
def Advances (step : σ → Parser (Round σ α)) : Prop := ∀ s, (step s).Progresses Round.IsAgain

def runRounds (step : σ → Parser (Round σ α)) (advances : Advances step) (s : σ)
    (b : TokenStream) : Except Fault (Except SyntaxError α × TokenStream) :=
  match _h : (step s).run b with
  | .error x => .error x
  | .ok (.error e, c) => .ok (.error e, c)
  | .ok (.ok (.done a), c) => .ok (.ok a, c)
  | .ok (.ok (.again s'), c) => runRounds step advances s' c
termination_by b.pending
decreasing_by exact advances s _h trivial

/-- Repeats a step until it gives a value. -/
def rounds (step : σ → Parser (Round σ α)) (advances : Advances step) (s : σ) : Parser α where
  run := runRounds step advances s
  pending_le {b c o} h := by
    fun_induction runRounds step advances s b with
    | case1 => cases h
    | case2 s b e d hr => cases h; exact (step s).pending_le hr
    | case3 s b a d hr => cases h; exact (step s).pending_le hr
    | case4 s b s' d hr ih => exact Nat.le_trans (ih h) ((step s).pending_le hr)

/-- One or more items, each but the first after `more` has said that it follows. -/
def oneOrMore (more : Parser Bool) (progresses : more.Progresses (· = true)) (item : Parser α) :
    Parser (List α) := do
  let first ← item
  rounds
    (fun items => do
      if ← more then return .again (items ++ [← item]) else return .done items)
    (fun _ => progresses_bind progresses fun again h => by
      cases again with
      | false => exact progresses_pure id
      | true => exact absurd rfl h)
    [first]

/-- Notes the outcome of a statement once it is known. -/
def reported (p : Parser Statement) : Parser Statement where
  run b := do
    let (o, c) ← p.run b
    return (o, c.note (match o with | .ok s => .parsed s | .error e => .failed e))
  pending_le h := by
    obtain ⟨⟨o, c⟩, h₁, h₂⟩ := bind_eq_ok_iff.1 h
    cases h₂
    have := p.pending_le h₁
    exact this

theorem progresses_reported {p : Parser Statement} {P : Statement → Prop} (hp : p.Progresses P) :
    (reported p).Progresses P := fun _ _ _ h ha => by
  obtain ⟨⟨o, c⟩, h₁, h₂⟩ := bind_eq_ok_iff.1 h
  cases h₂
  have := hp h₁ ha
  exact this

end Parser

/-- Why a text gives no value. The parsers of this library give no fault. -/
inductive Failure
  | syntaxError (e : SyntaxError)
  | fault (f : Fault)
  deriving DecidableEq, Repr

/-- Parses a text from its start. What follows the parsed part is left alone. -/
def Parser.parse {α : Type} (p : Parser α) (text : String) : Except Failure α :=
  match p.run (.ofString text) with
  | .error f => .error (.fault f)
  | .ok (.error e, _) => .error (.syntaxError e)
  | .ok (.ok a, _) => .ok a

end KeyspaceQuery
