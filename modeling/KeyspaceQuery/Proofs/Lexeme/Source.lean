import KeyspaceQuery.Proofs.Lexeme

/-! Between tokens at most one reading is undone, and it is one of a character. From such a source
the lexer gives, without a fault, the lexemes of the characters that remain, and behind the end of
the input the same token for ever. -/

namespace KeyspaceQuery.Source

open Token (isBlank isWordStart isWordChar)

/-- The characters still to be read, undone ones first. -/
def remaining (r : Source) : List Char :=
  match r.undone with
  | 0 => r.rest
  | 1 => r.behind.newest.char.toList ++ r.rest
  | 2 => r.behind.middle.char.toList ++ r.behind.newest.char.toList ++ r.rest

inductive Ready (r : Source) : Prop
  | none (h : r.undone = 0)
  | one (h : r.undone = 1) (hc : r.behind.newest.char.isSome)

/-- The end of the text has been read, and `z` is what every further token will be. -/
structure Spent (z : Token) (r : Source) : Prop where
  rest : r.rest = []
  undone : r.undone = 0
  ended : r.ended = true
  eq : z = ⟨.endOfInput, r.position, ""⟩

theorem Ready.undone_le {r : Source} (h : r.Ready) : r.undone ≤ 1 := by
  rcases h with h | ⟨h, -⟩ <;> simp [h]

theorem ready_ofString (text : String) : (ofString text).Ready := .none rfl

theorem remaining_ofString (text : String) : (ofString text).remaining = text.toList := rfl

theorem remaining_of_undone {r : Source} (h : r.undone = 0) : r.remaining = r.rest := by
  unfold remaining
  rw [h]

theorem undone_read {r : Source} (h : r.Ready) : r.read.2.undone = 0 := by
  obtain ⟨rest, position, ended, behind, undone⟩ := r
  rcases h with h | ⟨h, -⟩
  · cases h
    cases rest <;> rfl
  · cases h
    rfl

theorem undone_of_read {r s : Source} {g : Reading} (h : r.Ready) (hr : r.read = (g, s)) :
    s.undone = 0 := by
  simpa [hr] using undone_read h

theorem remaining_of_read_some {r s : Source} {c : Char} {p : Position} (h : r.Ready)
    (hr : r.read = (⟨some c, p⟩, s)) : r.remaining = c :: s.remaining := by
  have hs := undone_of_read h hr
  obtain ⟨rest, position, ended, behind, undone⟩ := r
  rw [remaining_of_undone hs]
  rcases h with h | ⟨h, -⟩
  · cases h
    cases rest with
    | nil => cases hr
    | cons d rest => cases hr; rfl
  · cases h
    obtain ⟨hc, rfl⟩ := Prod.mk.inj hr
    simp only at hc
    simp [remaining, hc]

theorem of_read_none {r s : Source} {p : Position} (h : r.Ready) (hr : r.read = (⟨none, p⟩, s)) :
    r.remaining = [] ∧ s.Spent ⟨.endOfInput, s.position, ""⟩ := by
  obtain ⟨rest, position, ended, behind, undone⟩ := r
  rcases h with h | ⟨h, hc⟩
  · cases h
    cases rest with
    | nil => cases hr; exact ⟨rfl, rfl, rfl, rfl, rfl⟩
    | cons d rest => cases hr
  · cases h
    obtain ⟨hn, rfl⟩ := Prod.mk.inj hr
    simp only at hn
    simp [hn] at hc

theorem remaining_of_spent {z : Token} {r : Source} (h : r.Spent z) : r.remaining = [] := by
  rw [remaining_of_undone h.undone, h.rest]

/-- The reading of a character can be undone, which gives the character back. -/
theorem undo_of_read_some {r s : Source} {c : Char} {p : Position} (h : r.Ready)
    (hr : r.read = (⟨some c, p⟩, s)) :
    ∃ u, s.undo = .ok u ∧ u.Ready ∧ u.remaining = c :: s.remaining := by
  have hs := undone_of_read h hr
  have hc : s.behind.newest.char = some c := by
    have := latest_read r
    rw [hr] at this
    simpa [latest, hs] using congrArg Reading.char this
  refine ⟨{ s with undone := 1 }, by simp [undo, hs], .one rfl (by simp [hc]), ?_⟩
  rw [remaining_of_undone hs]
  simp [remaining, hc]

theorem takeRun_eq (accept : Char → Bool) {r : Source} (h : r.Ready) :
    ∃ s, r.takeRun accept = .ok (r.remaining.takeWhile accept, s) ∧ s.Ready ∧
      s.remaining = r.remaining.dropWhile accept := by
  fun_induction takeRun accept r with
  | case1 r p s hr =>
    obtain ⟨hn, hs⟩ := of_read_none h hr
    exact ⟨s, by simp [hn], .none hs.undone, by simp [hn, remaining_of_spent hs]⟩
  | case2 r c p s hr hc ih =>
    obtain ⟨u, hu, hready, hrest⟩ := ih (.none (undone_of_read h hr))
    rw [remaining_of_read_some h hr, hu, List.takeWhile_cons_of_pos hc,
      List.dropWhile_cons_of_pos hc]
    exact ⟨u, rfl, hready, hrest⟩
  | case3 r c p s hr hc =>
    obtain ⟨u, hu, hready, hrest⟩ := undo_of_read_some h hr
    rw [remaining_of_read_some h hr, hu, List.takeWhile_cons_of_neg hc,
      List.dropWhile_cons_of_neg hc]
    exact ⟨u, rfl, hready, hrest⟩

theorem takeString_eq {r : Source} (h : r.Ready) :
    (r.takeString.1, r.takeString.2.remaining) = Lexeme.quoted r.remaining ∧
      r.takeString.2.Ready := by
  fun_induction takeString r with
  | case1 r p s hr =>
    obtain ⟨hn, hs⟩ := of_read_none h hr
    exact ⟨by simp [hn, Lexeme.quoted, remaining_of_spent hs], .none hs.undone⟩
  | case2 r p s hr =>
    rw [remaining_of_read_some h hr, Lexeme.quoted_closing]
    exact ⟨rfl, .none (undone_of_read h hr)⟩
  | case3 r p s hr =>
    rw [remaining_of_read_some h hr, Lexeme.quoted_newline]
    exact ⟨rfl, .none (undone_of_read h hr)⟩
  | case4 r p s q u hs hr =>
    obtain ⟨hn, hu⟩ := of_read_none (.none (undone_of_read h hr)) hs
    rw [remaining_of_read_some h hr, hn, Lexeme.quoted_backslash, remaining_of_spent hu]
    exact ⟨rfl, .none hu.undone⟩
  | case5 r p s e q u hs he hr =>
    have hready : s.Ready := .none (undone_of_read h hr)
    rw [remaining_of_read_some h hr, remaining_of_read_some hready hs, Lexeme.quoted_badPair he]
    exact ⟨rfl, .none (undone_of_read hready hs)⟩
  | case6 r p s e q u hs d he value ending v hv hr _ _ ih =>
    have hready : s.Ready := .none (undone_of_read h hr)
    obtain ⟨hq, hvr⟩ := ih (.none (undone_of_read hready hs))
    rw [remaining_of_read_some h hr, remaining_of_read_some hready hs, Lexeme.quoted_pair he, ← hq]
    rw [hv] at hvr ⊢
    exact ⟨rfl, hvr⟩
  | case7 r c p s hr hc hn hb value ending v hv ih =>
    obtain ⟨hq, hvr⟩ := ih (.none (undone_of_read h hr))
    rw [remaining_of_read_some h hr, Lexeme.quoted_char hc hn hb, ← hq]
    rw [hv] at hvr ⊢
    exact ⟨rfl, hvr⟩

theorem lexeme_symbol (c : Char) (p : Position) : (symbol c p).lexeme = Lexeme.symbol c := by
  unfold symbol
  split <;> simp_all [Lexeme.symbol, Token.lexeme]

theorem nextToken_of_spent {z : Token} {r : Source} (h : r.Spent z) :
    ∃ s, r.nextToken = .ok (z, s) ∧ s.Spent z := by
  obtain ⟨rest, position, ended, behind, undone⟩ := r
  obtain ⟨hr, hu, he, hz⟩ := h
  cases hr
  cases hu
  cases he
  exact ⟨(read ⟨[], position, true, behind, 0⟩).2, by rw [hz]; rfl, rfl, rfl, rfl, hz⟩

theorem nextToken_of_remaining_nil {r : Source} (h : r.Ready) (hn : r.remaining = []) :
    ∃ t s, r.nextToken = .ok (t, s) ∧ t.lexeme = .eof ∧ s.Spent ⟨.endOfInput, s.position, ""⟩ := by
  rcases hr : r.read with ⟨⟨_ | c, p⟩, s⟩
  · refine ⟨⟨.endOfInput, p, ""⟩, s, ?_, rfl, (of_read_none h hr).2⟩
    unfold nextToken
    rw [hr]
    rfl
  · rw [remaining_of_read_some h hr] at hn
    cases hn

/-- A run starts over at the character just read, which it accepts. -/
theorem takeRun_of_undo {accept : Char → Bool} {c : Char} (hc : accept c) {u : Source}
    {cs : List Char} (hu : u.Ready) (hrest : u.remaining = c :: cs) :
    ∃ v, u.takeRun accept = .ok (c :: cs.takeWhile accept, v) ∧ v.Ready ∧
      v.remaining = cs.dropWhile accept := by
  have := takeRun_eq accept hu
  rwa [hrest, List.takeWhile_cons_of_pos hc, List.dropWhile_cons_of_pos hc] at this

theorem nextToken_of_remaining_cons {r : Source} {c : Char} {cs : List Char} (h : r.Ready)
    (hc : r.remaining = c :: cs) :
    ∃ t s, r.nextToken = .ok (t, s) ∧ t.lexeme = (Lexeme.cut c cs).1 ∧ s.Ready ∧
      s.remaining = (Lexeme.cut c cs).2 := by
  rcases hr : r.read with ⟨⟨_ | d, p⟩, s⟩
  · rw [(of_read_none h hr).1] at hc
    cases hc
  have hs := undone_of_read h hr
  obtain ⟨rfl, rfl⟩ := List.cons.inj (hc.symm.trans (remaining_of_read_some h hr))
  obtain ⟨u, hu, hready, hrest⟩ := undo_of_read_some h hr
  unfold nextToken Lexeme.cut
  rw [hr]
  simp only [hu]
  split
  · obtain ⟨v, hv, hvr, hvrest⟩ := takeRun_of_undo ‹_› hready hrest
    exact ⟨_, v, by simp only [bind, Except.bind, hv]; rfl, rfl, hvr, hvrest⟩
  · split
    · obtain ⟨v, hv, hvr, hvrest⟩ :=
        takeRun_of_undo (Token.isWordChar_of_isWordStart ‹_›) hready hrest
      exact ⟨_, v, by simp only [bind, Except.bind, hv]; rfl, rfl, hvr, hvrest⟩
    · split
      · obtain ⟨hq, hvr⟩ := takeString_eq (r := s) (.none hs)
        rw [← hq]
        exact ⟨_, s.takeString.2, by simp only [bind, Except.bind, read_of_undo hu]; rfl, rfl, hvr,
          rfl⟩
      · exact ⟨_, s, rfl, lexeme_symbol c p, .none hs, rfl⟩

/-- The tokens `ts` come next, and then `z` for ever. -/
inductive Emits (z : Token) : Source → List Token → Prop
  | spent {r} : r.Spent z → Emits z r []
  | last {r s t} : r.nextToken = .ok (t, s) → t.lexeme = .eof → s.Spent z → Emits z r [t]
  | cons {r s t ts} : r.nextToken = .ok (t, s) → t.kind ≠ .endOfInput → ts ≠ [] → Emits z s ts →
      Emits z r (t :: ts)

theorem lexeme_of_spent {z : Token} {r : Source} (h : r.Spent z) : z.lexeme = .eof := by
  rw [h.eq]
  rfl

theorem tokens_of_last {r s : Source} {t : Token} (h : r.nextToken = .ok (t, s))
    (ht : t.kind = .endOfInput) : r.tokens = .ok [t] := by
  unfold tokens
  split <;> simp_all

theorem tokens_cons {r s : Source} {t : Token} {ts : List Token} (h : r.nextToken = .ok (t, s))
    (ht : t.kind ≠ .endOfInput) (hs : s.tokens = .ok ts) : r.tokens = .ok (t :: ts) := by
  unfold tokens
  split
  · simp_all
  · rename_i h'
    obtain ⟨rfl, rfl⟩ := Prod.mk.inj (Except.ok.inj (h.symm.trans h'))
    rw [if_neg ht, hs]
    rfl

/-- From a ready source all lexemes of the characters that remain are had, and the end of the input
after them for ever. -/
theorem emits_of_ready {r : Source} (h : r.Ready) :
    ∃ z ts, r.tokens = .ok ts ∧ r.Emits z ts ∧ z.lexeme = .eof ∧
      ts.map Token.lexeme = lexemes r.remaining := by
  generalize hcs : r.remaining = cs
  fun_induction lexemes cs generalizing r with
  | case1 =>
    obtain ⟨t, s, hs, ht, hspent⟩ := nextToken_of_remaining_nil h hcs
    exact ⟨_, [t], tokens_of_last hs (congrArg Lexeme.kind ht), .last hs ht hspent,
      lexeme_of_spent hspent, by simp [ht]⟩
  | case2 c cs ih =>
    obtain ⟨t, s, hs, ht, hready, hrest⟩ := nextToken_of_remaining_cons h hcs
    obtain ⟨z, ts, hts, hemits, hz, hmap⟩ := ih hready hrest
    have hk : t.kind ≠ .endOfInput := by
      rw [← Token.kind_lexeme, ht]
      exact Lexeme.kind_cut_ne_endOfInput c cs
    have hne : ts ≠ [] := by
      rintro rfl
      unfold lexemes at hmap
      split at hmap <;> cases hmap
    exact ⟨z, t :: ts, tokens_cons hs hk hts, .cons hs hk hne hemits, hz, by simp [ht, hmap]⟩

end KeyspaceQuery.Source
