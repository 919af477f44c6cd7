import KeyspaceQuery.Proofs.WellFormed
import KeyspaceQuery.Statement.Render
import Mathlib.Logic.Relation

/-! The text of a tree is read back as that tree, if the tree is well-formed and only then. Texts of
phrases are put together with one blank between them or with punctuation behind them, and what they
are the texts of goes along. -/

namespace KeyspaceQuery

open Grammar Relation

namespace Lexeme

/-- Lexemes that blanks may stand on both sides of. -/
def Tight (ls : List Lexeme) : Prop := (space :: (ls ++ [space])).IsChain Apart

/-- Nothing runs into punctuation, and punctuation into nothing. -/
def IsPunctuation (l : Lexeme) : Prop := l.kind.isWord = false ∧ l.kind ≠ .whitespace

variable {ls ms : List Lexeme} {l m : Lexeme}

theorem IsPunctuation.apart (h : m.IsPunctuation) : l.Apart m :=
  ⟨fun hw => by simp [h.1] at hw, fun hb => h.2 hb.2⟩

theorem IsPunctuation.apart_of_left (h : m.IsPunctuation) : m.Apart l :=
  ⟨fun hw => by simp [h.1] at hw, fun hb => h.2 hb.1⟩

theorem Tight.isChain (h : Tight ls) : ls.IsChain Apart :=
  h.tail.prefix (List.prefix_append _ _)

theorem tight_single (h : l.kind ≠ .whitespace) : Tight [l] :=
  .cons_cons (space_apart h) (.cons_cons (apart_space h) (.singleton _))

theorem Tight.append_space (hl : Tight ls) (hm : Tight ms) : Tight (ls ++ space :: ms) := by
  have : (space :: ls ++ space :: (ms ++ [space])).IsChain Apart := List.isChain_split.2 ⟨hl, hm⟩
  simpa [Tight] using this

theorem Tight.append_punctuation (hl : Tight ls) (hm : m.IsPunctuation) : Tight (ls ++ [m]) := by
  have hleft : (space :: ls).IsChain Apart := hl.prefix (by simp)
  have : (space :: ls ++ [m, space]).IsChain Apart := by
    refine List.isChain_append.2 ⟨hleft, .cons_cons hm.apart_of_left (.singleton _), ?_⟩
    rintro x - y ⟨⟩
    exact hm.apart
  simpa [Tight] using this

theorem Tight.cons_punctuation (hl : l.kind ≠ .whitespace) (hm : m.IsPunctuation)
    (hms : Tight ms) : Tight (l :: m :: ms) := by
  refine .cons_cons (space_apart hl) (.cons_cons hm.apart ?_)
  exact hms.tail.cons fun x _ => hm.apart_of_left

end Lexeme

/-- The text is written with lexemes that are the phrase wherever they stand, unless a dot comes
behind them. -/
def Writes (text : String) (phrase : List Lexeme → List Lexeme → Prop) : Prop :=
  ∃ ls, (∀ l ∈ ls, l.Spelled) ∧ Lexeme.Tight ls ∧ ls.flatMap Lexeme.spelling = text.toList ∧
    ∀ rest, (∀ l ∈ rest.head?, l.kind ≠ .dot) → phrase (ls ++ rest) rest

/-- Blanks may stand before the phrase. -/
def Loose (phrase : List Lexeme → List Lexeme → Prop) : Prop :=
  ∀ ⦃l ls rest⦄, l.kind = .whitespace → phrase ls rest → phrase (l :: ls) rest

section Writes

variable {text text' : String} {P Q : List Lexeme → List Lexeme → Prop}

theorem Writes.mono (h : Writes text P) (hPQ : ∀ a b, P a b → Q a b) : Writes text Q := by
  obtain ⟨ls, hs, ht, hl, hP⟩ := h
  exact ⟨ls, hs, ht, hl, fun rest hr => hPQ _ _ (hP rest hr)⟩

theorem writes_symbol {l : Lexeme} (hs : l.Spelled) (hk : l.kind ≠ .whitespace)
    (ht : l.spelling = text.toList) : Writes text (Symbol l.kind l.literal) :=
  ⟨[l], by simpa using hs, Lexeme.tight_single hk, by simpa using ht, fun _ _ => .here⟩

theorem Writes.append_space (h : Writes text P) (h' : Writes text' Q) (hQ : Loose Q) :
    Writes (text ++ " " ++ text') (Comp P Q) := by
  obtain ⟨ls, hs, ht, hl, hP⟩ := h
  obtain ⟨ms, hs', ht', hm, hQ'⟩ := h'
  refine ⟨ls ++ Lexeme.space :: ms, ?_, ht.append_space ht', ?_, fun rest hr => ?_⟩
  · simpa [or_imp, forall_and, Lexeme.spelled_space] using ⟨hs, hs'⟩
  · simp [hl, hm, Lexeme.spelling, Lexeme.space]
  · refine ⟨Lexeme.space :: (ms ++ rest), ?_, hQ rfl (hQ' rest hr)⟩
    rw [List.append_assoc]
    apply hP _
    intro l hl
    obtain rfl := Option.some.inj hl
    decide

/-- Punctuation stands right behind what it follows. -/
theorem Writes.append_mark (h : Writes text P) {l : Lexeme} (hl : l.IsPunctuation)
    (hs : l.Spelled) (hk : l.kind ≠ .dot) (ht : l.spelling = text'.toList) :
    Writes (text ++ text') (Comp P (Mark l.kind)) := by
  obtain ⟨ls, hs', ht', hl', hP⟩ := h
  refine ⟨ls ++ [l], ?_, ht'.append_punctuation hl, ?_, fun rest hr => ?_⟩
  · simpa [or_imp, forall_and, hs] using hs'
  · simp [hl', ht]
  · refine ⟨l :: rest, ?_, l.literal, .here⟩
    rw [List.append_assoc]
    apply hP _
    intro m hm
    obtain rfl := Option.some.inj hm
    exact hk

theorem loose_symbol (kind : TokenKind) (w : String) : Loose (Symbol kind w) :=
  fun _ _ _ => .blank

theorem loose_mark (kind : TokenKind) : Loose (Mark kind) := fun _ _ _ => .blank

theorem loose_keyspace (p : Path) : Loose (Keyspace p) := fun _ _ _ => .blank

theorem loose_comp (hP : Loose P) : Loose (Comp P Q) :=
  fun _ _ _ hl h => h.imp fun _ => And.imp_left (hP hl)

theorem loose_joined {α : Type} {kind : TokenKind} {item : Phrase α}
    (hitem : ∀ x, Loose (item x)) (xs : List α) : Loose (Joined kind item xs) := by
  intro l ls rest hl h
  cases h with
  | one hx => exact .one (hitem _ hl hx)
  | cons hx hm hxs => exact .cons (hitem _ hl hx) hm hxs

theorem writes_mark {l : Lexeme} (hs : l.Spelled) (hk : l.kind ≠ .whitespace)
    (ht : l.spelling = text.toList) : Writes text (Mark l.kind) :=
  (writes_symbol hs hk ht).mono fun _ _ h => ⟨l.literal, h⟩

theorem writes_word (k : Keyword) : Writes k.text (Word k) :=
  writes_mark (Lexeme.spelled_keyword k) nofun rfl

theorem writes_and : Writes "AND" (Mark .and) :=
  writes_mark (l := ⟨.and, "AND"⟩) ⟨by decide, rfl⟩ nofun rfl

theorem writes_or : Writes "OR" (Mark .or) :=
  writes_mark (l := ⟨.or, "OR"⟩) ⟨by decide, rfl⟩ nofun rfl

theorem writes_equal : Writes "=" (Mark .equal) :=
  writes_mark (l := ⟨.equal, ""⟩) rfl nofun rfl

theorem writes_string (value : String) : Writes (Text.quote value) (Symbol .str value) :=
  writes_symbol (l := ⟨.str, value⟩) trivial nofun rfl

theorem spelled_identifier {w : String} (h : IsIdentifier w) :
    (⟨.identifier, w⟩ : Lexeme).Spelled :=
  ⟨h.isWord, TokenKind.ofWord_eq_identifier_iff.2 ⟨h.ne_and, h.ne_or, h.ne_keyword⟩⟩

theorem writes_identifier {w : String} (h : IsIdentifier w) : Writes w (Identifier w) :=
  writes_symbol (l := ⟨.identifier, w⟩) (spelled_identifier h) nofun rfl

theorem Writes.append_and (h : Writes text P) : Writes (text ++ " AND") (Comp P (Mark .and)) := by
  have := h.append_space writes_and (loose_mark _)
  rwa [String.append_assoc] at this

theorem Writes.append_comma (h : Writes text P) : Writes (text ++ ",") (Comp P (Mark .comma)) :=
  h.append_mark (l := ⟨.comma, ""⟩) ⟨rfl, nofun⟩ rfl nofun rfl

theorem Writes.append_semicolon (h : Writes text P) :
    Writes (text ++ ";") (Comp P (Mark .semicolon)) :=
  h.append_mark (l := ⟨.semicolon, ""⟩) ⟨rfl, nofun⟩ rfl nofun rfl

theorem writes_joined {α : Type} {kind : TokenKind} {separator : String} {item : Phrase α}
    {render : α → String}
    (hsep : ∀ {text P}, Writes text P → Writes (text ++ separator) (Comp P (Mark kind)))
    (hitem : ∀ x, Loose (item x)) {xs : List α} (hne : xs ≠ [])
    (h : ∀ x ∈ xs, Writes (render x) (item x)) :
    Writes ((separator ++ " ").intercalate (xs.map render)) (Joined kind item xs) := by
  induction xs with
  | nil => exact absurd rfl hne
  | cons x xs ih =>
    obtain ⟨hx, hxs⟩ := List.forall_mem_cons.1 h
    cases xs with
    | nil =>
      rw [List.map_singleton, String.intercalate_singleton]
      exact hx.mono fun _ _ => .one
    | cons y ys =>
      have := (hsep hx).append_space (ih (List.cons_ne_nil y ys) hxs) (loose_joined hitem _)
      rw [List.map_cons, String.intercalate_cons_of_ne_nil (by simp), ← String.append_assoc]
      apply this.mono
      rintro a d ⟨c, ⟨b, hb, hc⟩, hd⟩
      exact .cons hb hc hd

/-- The parts of a path stand next to their dots. -/
theorem writes_parts {ws : List String} (hne : ws ≠ []) (h : ∀ w ∈ ws, IsIdentifier w) :
    Writes (".".intercalate ws) (Parts ws) := by
  induction ws with
  | nil => exact absurd rfl hne
  | cons w ws ih =>
    obtain ⟨hw, hws⟩ := List.forall_mem_cons.1 h
    have hs := spelled_identifier hw
    cases ws with
    | nil =>
      refine ⟨[⟨.identifier, w⟩], by simpa using hs, Lexeme.tight_single (by simp), ?_, ?_⟩
      · simp [Lexeme.spelling]
      · exact fun rest hr => .last hr
    | cons v vs =>
      obtain ⟨ls, hls, ht, hl, hP⟩ := ih (List.cons_ne_nil v vs) hws
      refine ⟨⟨.identifier, w⟩ :: ⟨.dot, ""⟩ :: ls, ?_, ?_, ?_, fun rest hr => .dot (hP rest hr)⟩
      · have : (⟨.dot, ""⟩ : Lexeme).Spelled := rfl
        simpa [hs, this] using hls
      · exact ht.cons_punctuation (by simp) ⟨rfl, by decide⟩
      · rw [String.intercalate_cons_of_ne_nil (List.cons_ne_nil v vs)]
        simp [Lexeme.spelling, hl]

theorem writes_keyspace {p : Path} (h : p.WellFormed) : Writes p.text (Keyspace p) := by
  obtain ⟨ws, hne, hws, hp⟩ := h
  obtain ⟨text⟩ := p
  cases hp
  exact (writes_parts hne hws).mono fun _ _ => .parts

theorem loose_equality (f : Filter) : Loose (Equality f) := by
  rintro l ls rest hl ⟨hk, he, hv⟩
  exact .literal (.blank hl hk) he hv

theorem loose_condition (f : Filter) : Loose (Condition f) := by
  intro l ls rest hl h
  cases h with
  | equality h => exact .equality (loose_equality f hl h)
  | either hk he hv ho hu => exact .either (.blank hl hk) he hv ho hu
  | between hk he hv ha hu => exact .between (.blank hl hk) he hv ha hu

theorem append_operator (o : Operator) (left right : String) :
    left ++ o.text ++ right = left ++ " " ++ o.symbol ++ " " ++ right := by
  simp only [Operator.text, String.append_assoc]

theorem render_pair (o : Operator) (first second : String) :
    ValueGroup.render ⟨o, [first, second]⟩ = Text.quote first ++ o.text ++ Text.quote second := by
  simp [ValueGroup.render]

/-- Phrases on both sides of an operator. -/
theorem Writes.append_operator {R : List Lexeme → List Lexeme → Prop} (o : Operator)
    (h : Writes text P) (ho : Writes o.symbol R) (h' : Writes text' Q) (hR : Loose R)
    (hQ : Loose Q) : Writes (text ++ o.text ++ text') (Comp (Comp P R) Q) := by
  rw [KeyspaceQuery.append_operator]
  exact (h.append_space ho hR).append_space h' hQ

theorem writes_equality {f : Filter} (h : f.IsSingle) : Writes f.render (Equality f) := by
  obtain ⟨value, hk⟩ := h
  refine ((writes_identifier hk).append_operator .equality writes_equal (writes_string value)
    (loose_mark _) (loose_symbol _ _)).mono ?_
  rintro a d ⟨c, ⟨b, hk, he⟩, hv⟩
  exact .literal hk he hv

theorem writes_pair (o : Operator) {kind : TokenKind} (ho : Writes o.symbol (Mark kind))
    (first second : String) : Writes (ValueGroup.render ⟨o, [first, second]⟩)
      (Comp (Comp (Symbol .str first) (Mark kind)) (Symbol .str second)) := by
  rw [render_pair]
  exact (writes_string first).append_operator o ho (writes_string second) (loose_mark _)
    (loose_symbol _ _)

theorem writes_condition {f : Filter} (h : f.IsReadable) : Writes f.render (Condition f) := by
  have loose (first second : String) (kind : TokenKind) :
      Loose (Comp (Comp (Symbol .str first) (Mark kind)) (Symbol .str second)) :=
    loose_comp (loose_comp (loose_symbol _ _))
  cases h with
  | single h => exact (writes_equality h).mono fun _ _ => .equality
  | either first second hk =>
    refine ((writes_identifier hk).append_operator .equality writes_equal
      (writes_pair .or writes_or first second) (loose_mark _) (loose _ _ _)).mono ?_
    rintro a f ⟨c, ⟨b, hk, he⟩, e, ⟨d, hv, ho⟩, hu⟩
    exact .either hk he hv ho hu
  | between lower upper hk =>
    refine ((writes_identifier hk).append_operator .between (writes_word .between)
      (writes_pair .and writes_and lower upper) (loose_mark _) (loose _ _ _)).mono ?_
    rintro a f ⟨c, ⟨b, hk, he⟩, e, ⟨d, hv, ha⟩, hu⟩
    exact .between hk he hv ha hu

theorem writes_filters {item : Phrase Filter} (hitem : ∀ f, Loose (item f)) {fs : List Filter}
    (hne : fs ≠ []) (h : ∀ f ∈ fs, Writes f.render (item f)) :
    Writes (Filter.renderAll fs) (Joined .and item fs) :=
  writes_joined Writes.append_and hitem hne h

theorem writes_keys {ks : List String} (hne : ks ≠ []) (h : ∀ k ∈ ks, IsIdentifier k) :
    Writes (Statement.keyWord ks ++ " " ++ ", ".intercalate ks) (Keys ks) := by
  unfold Statement.keyWord
  split
  · obtain ⟨k, rfl⟩ := List.length_eq_one_iff.1 ‹_›
    rw [String.intercalate_singleton]
    refine ((writes_word .key).append_space (writes_identifier (h k (by simp)))
      (loose_symbol _ _)).mono ?_
    rintro a c ⟨b, hw, hk⟩
    exact .one hw hk
  · have hks : Writes (", ".intercalate (ks.map id)) (Joined .comma Identifier ks) :=
      writes_joined Writes.append_comma (loose_symbol .identifier) hne
        fun k hk => writes_identifier (h k hk)
    rw [List.map_id] at hks
    apply ((writes_word .keys).append_space hks (loose_joined (loose_symbol _) _)).mono
    rintro a c ⟨b, hw, hks⟩
    exact .several hw hks

theorem loose_keys (ks : List String) : Loose (Keys ks) := by
  intro l ls rest hl h
  cases h with
  | one hw hk => exact .one (loose_mark _ hl hw) hk
  | several hw hks => exact .several (loose_mark _ hl hw) hks

/-- What `SELECT`, `DELETE` and `UPSERT` have in common. -/
theorem Writes.append_where {p : Path} {item : Phrase Filter} {fs : List Filter}
    (h : Writes text P) (hp : p.WellFormed) (hitem : ∀ f, Loose (item f))
    (hfs : Writes (Filter.renderAll fs) (Joined .and item fs)) :
    Writes (text ++ " " ++ p.text ++ " WHERE " ++ Filter.renderAll fs)
      (Comp (Comp (Comp P (Keyspace p)) (Word .whereWord)) (Joined .and item fs)) := by
  have := ((h.append_space (writes_keyspace hp) (loose_keyspace p)).append_space
    (writes_word .whereWord) (loose_mark _)).append_space hfs (loose_joined hitem fs)
  convert this using 1
  exact String.toList_inj.1 (by simp [Keyword.text])

theorem writes_words (k k' : Keyword) :
    Writes (k.text ++ " " ++ k'.text) (Comp (Word k) (Word k')) :=
  (writes_word k).append_space (writes_word k') (loose_mark _)

theorem writes_create {p : Path} {ks : List String} (hp : p.WellFormed) (hne : ks ≠ [])
    (hks : ∀ k ∈ ks, IsIdentifier k) : Writes (Statement.create p ks).render
      (Comp (Body (.create p ks)) (Mark .semicolon)) := by
  have hhead := (writes_words .create .keyspace).append_space (writes_keyspace hp)
    (loose_keyspace p)
  have h := (hhead.append_space (writes_word .withWord) (loose_mark _)).append_space
    (writes_keys hne hks) (loose_keys ks)
  have hrender : (Statement.create p ks).render = Keyword.create.text ++ " " ++
      Keyword.keyspace.text ++ " " ++ p.text ++ " " ++ Keyword.withWord.text ++ " " ++
      (Statement.keyWord ks ++ " " ++ ", ".intercalate ks) ++ ";" := by
    change "CREATE KEYSPACE " ++ p.text ++ " WITH " ++ Statement.keyWord ks ++ " " ++
      ", ".intercalate ks ++ ";" = _
    exact String.toList_inj.1 (by simp [Keyword.text])
  rw [hrender]
  apply h.append_semicolon.mono
  rintro a g ⟨f, ⟨e, ⟨d, ⟨c, ⟨b, hc, hk⟩, hp⟩, hw⟩, hks⟩, hs⟩
  exact ⟨f, .create hc hk hp hw hks, hs⟩

theorem writes_drop {p : Path} (hp : p.WellFormed) : Writes (Statement.drop p).render
    (Comp (Body (.drop p)) (Mark .semicolon)) := by
  have h := (writes_words .drop .keyspace).append_space (writes_keyspace hp) (loose_keyspace p)
  have hrender : (Statement.drop p).render =
      Keyword.drop.text ++ " " ++ Keyword.keyspace.text ++ " " ++ p.text ++ ";" := by
    change "DROP KEYSPACE " ++ p.text ++ ";" = _
    exact String.toList_inj.1 (by simp [Keyword.text])
  rw [hrender]
  apply h.append_semicolon.mono
  rintro a e ⟨d, ⟨c, ⟨b, hd, hk⟩, hp⟩, hs⟩
  exact ⟨d, .drop hd hk hp, hs⟩

theorem writes_upsert {v : String} {p : Path} {fs : List Filter} (hp : p.WellFormed)
    (hne : fs ≠ []) (hfs : ∀ f ∈ fs, f.IsSingle) : Writes (Statement.upsert v p fs).render
      (Comp (Body (.upsert v p fs)) (Mark .semicolon)) := by
  have hhead := (writes_word .upsert).append_space (writes_string v) (loose_symbol _ _)
  have h := (hhead.append_space (writes_word .into) (loose_mark _)).append_where hp loose_equality
    (writes_filters loose_equality hne fun f hf => writes_equality (hfs f hf))
  have hrender : (Statement.upsert v p fs).render = Keyword.upsert.text ++ " " ++ Text.quote v ++
      " " ++ Keyword.into.text ++ " " ++ p.text ++ " WHERE " ++ Filter.renderAll fs ++ ";" := by
    change "UPSERT " ++ Text.quote v ++ " INTO " ++ p.text ++ " WHERE " ++ Filter.renderAll fs ++
      ";" = _
    exact String.toList_inj.1 (by simp [Keyword.text])
  rw [hrender]
  apply h.append_semicolon.mono
  rintro a h ⟨g, ⟨f, ⟨e, ⟨d, ⟨c, ⟨b, hu, hv⟩, hi⟩, hp⟩, hw⟩, hfs⟩, hs⟩
  exact ⟨g, .upsert hu hv hi hp hw hfs, hs⟩

/-- `SELECT` and `DELETE` are written alike. -/
theorem writes_fromWhere {k : Keyword} {p : Path} {fs : List Filter} (hp : p.WellFormed)
    (hne : fs ≠ []) (hfs : ∀ f ∈ fs, f.IsReadable) :
    Writes (k.text ++ " FROM " ++ p.text ++ " WHERE " ++ Filter.renderAll fs ++ ";")
      (Comp (Comp (Comp (Comp (Comp (Word k) (Word .fromWord)) (Keyspace p)) (Word .whereWord))
        (Joined .and Condition fs)) (Mark .semicolon)) := by
  have h := (writes_words k .fromWord).append_where hp loose_condition
    (writes_filters loose_condition hne fun f hf => writes_condition (hfs f hf))
  convert h.append_semicolon using 1
  exact String.toList_inj.1 (by simp [Keyword.text])

theorem writes_body {s : Statement} (h : s.WellFormed) :
    Writes s.render (Comp (Body s) (Mark .semicolon)) := by
  cases s with
  | create p ks => exact writes_create h.1 h.2.1 h.2.2
  | drop p => exact writes_drop h
  | select p fs =>
    apply (writes_fromWhere (k := .select) h.1 h.2.1 h.2.2).mono
    rintro a g ⟨f, ⟨e, ⟨d, ⟨c, ⟨b, hs, hf⟩, hp⟩, hw⟩, hfs⟩, ht⟩
    exact ⟨f, .select hs hf hp hw hfs, ht⟩
  | upsert v p fs => exact writes_upsert h.1 h.2.1 h.2.2
  | delete p fs =>
    apply (writes_fromWhere (k := .delete) h.1 h.2.1 h.2.2).mono
    rintro a g ⟨f, ⟨e, ⟨d, ⟨c, ⟨b, hs, hf⟩, hp⟩, hw⟩, hfs⟩, ht⟩
    exact ⟨f, .delete hs hf hp hw hfs, ht⟩

end Writes

theorem parseStatement_of_writes {text : String} {s : Statement}
    (h : Writes text (Comp (Body s) (Mark .semicolon))) : parseStatement text = .ok s := by
  obtain ⟨ls, hs, ht, hl, hP⟩ := h
  obtain ⟨mid, hb, hm⟩ := hP [.eof] (by simp [Lexeme.eof])
  rw [parseStatement_eq_ok_iff, ← hl, lexemes_spelling hs ht.isChain]
  by_cases hd : ∃ p, s = .drop p
  · obtain ⟨p, rfl⟩ := hd
    exact ⟨mid, .drop hb⟩
  · exact ⟨_, .closed (not_exists.1 hd) hb (.inr hm)⟩

/-- The text of a tree is parsed as that tree if and only if the tree is well-formed. -/
theorem parseStatement_render_iff_wellFormed (s : Statement) :
    parseStatement s.render = .ok s ↔ s.WellFormed :=
  ⟨wellFormed_of_parseStatement, fun h => parseStatement_of_writes (writes_body h)⟩

end KeyspaceQuery
