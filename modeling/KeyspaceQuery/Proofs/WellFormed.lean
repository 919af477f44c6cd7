import KeyspaceQuery.Proofs.Grammar.Statement

/-! Which trees can be written. A statement is well-formed if its names are identifiers and its
filters are of the shapes the grammar has. Trees read from a text are well-formed, since the
identifiers among the lexemes of a text are. -/

namespace KeyspaceQuery

open Grammar

def Path.WellFormed (p : Path) : Prop :=
  ∃ ws : List String, ws ≠ [] ∧ (∀ w ∈ ws, IsIdentifier w) ∧ p.text = ".".intercalate ws

/-- One row is addressed: an attribute has one value. -/
inductive Filter.IsSingle : Filter → Prop
  | literal {key} (value : String) : IsIdentifier key → IsSingle (.equality key (.literal value))

/-- Many rows may be addressed: by one value, by one of two, or by all between two. -/
inductive Filter.IsReadable : Filter → Prop
  | single {f : Filter} : f.IsSingle → IsReadable f
  | either {key} (first second : String) : IsIdentifier key →
    IsReadable (.equality key (.group ⟨.or, [first, second]⟩))
  | between {key} (lower upper : String) : IsIdentifier key →
    IsReadable (.between key ⟨.and, [lower, upper]⟩)

def Statement.WellFormed : Statement → Prop
  | create keyspace keys => keyspace.WellFormed ∧ keys ≠ [] ∧ ∀ k ∈ keys, IsIdentifier k
  | drop keyspace => keyspace.WellFormed
  | select keyspace filters | delete keyspace filters =>
    keyspace.WellFormed ∧ filters ≠ [] ∧ ∀ f ∈ filters, f.IsReadable
  | upsert _ keyspace filters =>
    keyspace.WellFormed ∧ filters ≠ [] ∧ ∀ f ∈ filters, f.IsSingle

/-- The words taken for identifiers are identifiers. -/
def Sound (ls : List Lexeme) : Prop := ∀ l ∈ ls, l.kind = .identifier → IsIdentifier l.literal

theorem isIdentifier_of_spelled {l : Lexeme} (h : l.Spelled) (hk : l.kind = .identifier) :
    IsIdentifier l.literal := by
  simp only [Lexeme.Spelled, hk] at h
  obtain ⟨hand, hor, hkeyword⟩ := TokenKind.ofWord_eq_identifier_iff.1 h.2
  exact ⟨h.1, hand, hor, hkeyword⟩

theorem sound_lexemes (cs : List Char) : Sound (lexemes cs) := by
  intro l hl hk
  rcases spelled_of_mem_lexemes hl with rfl | hb | hs
  · cases hk
  · rcases hb with hb | hb | hb <;> cases hk.symm.trans hb
  · exact isIdentifier_of_spelled hs hk

section Sound

variable {ls mid rest : List Lexeme}

theorem Sound.leaves (h : Sound ls) (hr : Leaves ls rest) : Sound rest :=
  fun l hl => h l (hr.suffix.subset hl)

theorem Sound.identifier (h : Sound ls) {w : String} (hw : Identifier w ls rest) :
    IsIdentifier w :=
  h.leaves hw.leaves_cons ⟨.identifier, w⟩ (List.mem_cons_self ..) rfl

theorem Sound.parts (h : Sound ls) {ws : List String} (hws : Parts ws ls rest) :
    ∀ w ∈ ws, IsIdentifier w := by
  induction hws with
  | last _ => exact List.forall_mem_singleton.2 (h.identifier .here)
  | dot _ ih =>
    exact List.forall_mem_cons.2
      ⟨h.identifier .here, ih (h.leaves (.cons nofun (.cons nofun (.refl _))))⟩

theorem Sound.keyspace (h : Sound ls) {p : Path} (hp : Keyspace p ls rest) : p.WellFormed := by
  obtain ⟨w, mid, ws, hw, hws, rfl⟩ := keyspace_iff.1 hp
  exact ⟨ws, hws.ne_nil, (h.leaves hw.leaves_cons).parts hws, rfl⟩

theorem Sound.joined (h : Sound ls) {α : Type} {kind : TokenKind} {item : Phrase α}
    {P : α → Prop} (hitem : ∀ {x a b}, Sound a → item x a b → P x ∧ Leaves a b) {xs : List α}
    (hxs : Joined kind item xs ls rest) (hk : kind ≠ .endOfInput := by decide) :
    xs ≠ [] ∧ ∀ x ∈ xs, P x := by
  induction hxs with
  | one hx => exact ⟨List.cons_ne_nil _ _, List.forall_mem_singleton.2 (hitem h hx).1⟩
  | cons hx hm _ ih =>
    obtain ⟨hP, hl⟩ := hitem h hx
    exact ⟨List.cons_ne_nil _ _,
      List.forall_mem_cons.2 ⟨hP, (ih ((h.leaves hl).leaves (hm.leaves hk))).2⟩⟩

theorem Sound.equality (h : Sound ls) {f : Filter} (hf : Equality f ls rest) : f.IsSingle := by
  cases hf with
  | literal hk he hv => exact .literal _ (h.identifier hk)

theorem Sound.condition (h : Sound ls) {f : Filter} (hf : Condition f ls rest) :
    f.IsReadable := by
  cases hf with
  | equality hf => exact .single (h.equality hf)
  | either hk => exact .either _ _ (h.identifier hk)
  | between hk => exact .between _ _ (h.identifier hk)

theorem Sound.keys (h : Sound ls) {ks : List String} (hks : Keys ks ls rest) :
    ks ≠ [] ∧ ∀ k ∈ ks, IsIdentifier k := by
  cases hks with
  | one hw hk =>
    exact ⟨List.cons_ne_nil _ _,
      List.forall_mem_singleton.2 ((h.leaves hw.leaves).identifier hk)⟩
  | several hw hks =>
    exact (h.leaves hw.leaves).joined (fun h hk => ⟨h.identifier hk, hk.leaves⟩) hks

theorem Sound.body (h : Sound ls) {s : Statement} (hs : Body s ls rest) : s.WellFormed := by
  cases hs with
  | create hc hk hp hw hks =>
    have h := (h.leaves hc.leaves).leaves hk.leaves
    exact ⟨h.keyspace hp, ((h.leaves hp.leaves).leaves hw.leaves).keys hks⟩
  | drop hd hk hp => exact ((h.leaves hd.leaves).leaves hk.leaves).keyspace hp
  | select hs hf hp hw hfs | delete hs hf hp hw hfs =>
    have h := (h.leaves hs.leaves).leaves hf.leaves
    exact ⟨h.keyspace hp, ((h.leaves hp.leaves).leaves hw.leaves).joined
      (fun h hf => ⟨h.condition hf, hf.leaves⟩) hfs⟩
  | upsert hu hv hi hp hw hfs =>
    have h := ((h.leaves hu.leaves).leaves hv.leaves).leaves hi.leaves
    exact ⟨h.keyspace hp, ((h.leaves hp.leaves).leaves hw.leaves).joined
      (fun h hf => ⟨h.equality hf, hf.leaves⟩) hfs⟩

end Sound

theorem wellFormed_of_parseStatement {text : String} {s : Statement}
    (h : parseStatement text = .ok s) : s.WellFormed := by
  obtain ⟨rest, h⟩ := parseStatement_eq_ok_iff.1 h
  cases h with
  | closed _ hb _ | drop hb => exact (sound_lexemes _).body hb

end KeyspaceQuery
