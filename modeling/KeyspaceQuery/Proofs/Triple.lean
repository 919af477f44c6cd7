import KeyspaceQuery.Parser

/-! Triples of parsers: what holds of the stream before, of the value and the stream after it, and
of an error and the stream that it leaves. A triple promises an outcome without a fault, and each way
to build parsers has its rule. -/

namespace KeyspaceQuery

def Round.elim {σ α γ : Type _} (again : σ → γ) (done : α → γ) : Round σ α → γ
  | .again s => again s
  | .done a => done a

namespace Parser

variable {σ α β : Type}

/-- From every stream in `R` the parser comes to a value and a stream in `Q`, or to an error and a
stream in `E`. -/
def Triple (R : TokenStream → Prop) (p : Parser α) (Q : α → TokenStream → Prop)
    (E : SyntaxError → TokenStream → Prop) : Prop :=
  ∀ ⦃b⦄, R b → ∃ c, (∃ a, p.run b = .ok (.ok a, c) ∧ Q a c) ∨
    ∃ e, p.run b = .ok (.error e, c) ∧ E e c

variable {R R' : TokenStream → Prop} {Q Q' : α → TokenStream → Prop}
  {E : SyntaxError → TokenStream → Prop}

theorem Triple.mono {p : Parser α} (h : Triple R p Q E) (hR : ∀ b, R' b → R b)
    (hQ : ∀ a b, Q a b → Q' a b) : Triple R' p Q' E := by
  intro b hb
  obtain ⟨c, ⟨a, hr, ha⟩ | herror⟩ := h (hR b hb)
  · exact ⟨c, .inl ⟨a, hr, hQ a c ha⟩⟩
  · exact ⟨c, .inr herror⟩

theorem triple_pure {a : α} (h : ∀ b, R b → Q a b) : Triple R (pure a) Q E :=
  fun b hb => ⟨b, .inl ⟨a, rfl, h b hb⟩⟩

theorem triple_reject {e : SyntaxError} (h : ∀ b, R b → E e b) : Triple R (reject e) Q E :=
  fun b hb => ⟨b, .inr ⟨e, rfl, h b hb⟩⟩

theorem triple_note {e : Event} {Q : Unit → TokenStream → Prop}
    (h : ∀ b, R b → Q () (b.note e)) : Triple R (note e) Q E :=
  fun b hb => ⟨b.note e, .inl ⟨(), rfl, h b hb⟩⟩

theorem triple_bind {p : Parser α} {f : α → Parser β} {Q' : β → TokenStream → Prop}
    (hp : Triple R p Q E) (hf : ∀ a, Triple (Q a) (f a) Q' E) : Triple R (p >>= f) Q' E := by
  intro b hb
  obtain ⟨c, ⟨a, hr, ha⟩ | ⟨e, hr, he⟩⟩ := hp hb
  · obtain ⟨d, hd⟩ := hf a ha
    refine ⟨d, ?_⟩
    simpa only [bind, hr] using hd
  · exact ⟨c, .inr ⟨e, by simp only [bind, hr], he⟩⟩

theorem triple_reported {p : Parser Statement} {Q : Statement → TokenStream → Prop}
    (hp : Triple R p Q E) (hQ : ∀ s b, Q s b → Q s (b.note (.parsed s)))
    (hE : ∀ e b, E e b → E e (b.note (.failed e))) : Triple R (reported p) Q E := by
  intro b hb
  obtain ⟨c, ⟨s, hr, hs⟩ | ⟨e, hr, he⟩⟩ := hp hb
  · exact ⟨c.note (.parsed s), .inl ⟨s, by simp only [reported, hr]; rfl, hQ s c hs⟩⟩
  · exact ⟨c.note (.failed e), .inr ⟨e, by simp only [reported, hr]; rfl, hE e c he⟩⟩

/-- An invariant of single rounds is one of the loop. -/
theorem triple_rounds {step : σ → Parser (Round σ α)} {advances : Advances step}
    {I : σ → TokenStream → Prop} (h : ∀ s, Triple (I s) (step s) (Round.elim I Q) E) (s : σ) :
    Triple (I s) (rounds step advances s) Q E := by
  intro b hb
  simp only [rounds]
  fun_induction runRounds step advances s b with
  | case1 s b x hr =>
    obtain ⟨c, ⟨a, hr', -⟩ | ⟨e, hr', -⟩⟩ := h s hb
    · cases hr.symm.trans hr'
    · cases hr.symm.trans hr'
  | case2 s b e c hr =>
    obtain ⟨c', ⟨a, hr', -⟩ | ⟨e', hr', he⟩⟩ := h s hb
    · cases hr.symm.trans hr'
    · cases hr.symm.trans hr'
      exact ⟨c, .inr ⟨e, rfl, he⟩⟩
  | case3 s b a c hr =>
    obtain ⟨c', ⟨a', hr', ha⟩ | ⟨e, hr', -⟩⟩ := h s hb
    · cases hr.symm.trans hr'
      exact ⟨c, .inl ⟨a, rfl, ha⟩⟩
    · cases hr.symm.trans hr'
  | case4 s b s' c hr ih =>
    obtain ⟨c', ⟨a', hr', hs'⟩ | ⟨e, hr', -⟩⟩ := h s hb
    · cases hr.symm.trans hr'
      exact ih hs'
    · cases hr.symm.trans hr'

/-- `R` holds where an item is due, `M` behind one, and `S` behind the last. -/
theorem triple_oneOrMore {more : Parser Bool} {progresses : more.Progresses (· = true)}
    {item : Parser α} {M S : TokenStream → Prop} (hitem : Triple R item (fun _ => M) E)
    (hmore : Triple M more (fun again => if again then R else S) E) :
    Triple R (oneOrMore more progresses item) (fun _ => S) E := by
  refine triple_bind hitem fun a => triple_rounds (I := fun _ => M) (fun items => ?_) [a]
  refine triple_bind hmore fun again => ?_
  cases again with
  | false => exact triple_pure fun _ => id
  | true => exact triple_bind hitem fun a => triple_pure fun _ => id

end Parser

end KeyspaceQuery
