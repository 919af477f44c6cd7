import KeyspaceQuery.Proofs.Lexeme.Segments

/-! The characters at the two ends of a piece. They tell the kind of a lexeme that is whole, so that
what a text begins or ends with says which lexeme stands there. -/

namespace KeyspaceQuery

open Token (isBlank isWordChar)

/-- A lexeme that is whole may begin or end with the character. -/
def Lexeme.HasEdge (l : Lexeme) (c : Char) : Prop :=
  match l.kind with
  | .whitespace => isBlank c
  | .and | .or | .keyword _ | .identifier => isWordChar c
  | .dot => c = '.'
  | .comma => c = ','
  | .semicolon => c = ';'
  | .equal => c = '='
  | .str => c = '"'
  | .badString | .badEscape | .illegal | .endOfInput => False

namespace Lexeme

variable {l : Lexeme} {slice rest : List Char} {c : Char}

theorem hasEdge_of_isWord (hl : l.kind.isWord) (hc : isWordChar c) : l.HasEdge c := by
  unfold HasEdge
  split <;> simp_all [TokenKind.isWord]

theorem Takes.broken_or_spelled (h : l.Takes slice rest) : l.IsBroken ∨ l.Spelled := by
  obtain ⟨c, cs, -, hcut⟩ := cut_of_takes h
  have := spelled_cut c (cs ++ rest)
  rwa [hcut] at this

theorem Takes.hasEdge (h : l.Takes slice rest) (hl : l.Spelled)
    (hc : c ∈ slice.head? ∨ c ∈ slice.getLast?) : l.HasEdge c := by
  have hmem : c ∈ slice := hc.elim List.mem_of_mem_head? List.mem_of_mem_getLast?
  cases h with
  | blanks _ hrun _ => exact hrun c hmem
  | @word kind d run _ hd hrun _ hname =>
    refine hasEdge_of_isWord (TokenKind.names_iff.1 hname ▸ TokenKind.isWord_ofWord _) ?_
    exact (List.mem_cons.1 hmem).elim
      (fun h => h ▸ Token.isWordChar_of_isWordStart hd) (hrun c)
  | string _ =>
    rcases hc with hc | hc
    · exact (Option.some.inj hc).symm
    · rw [← List.cons_append, List.getLast?_concat] at hc
      exact (Option.some.inj hc).symm
  | dot | comma | semicolon | equal => exact List.mem_singleton.1 hmem
  | lineFeed | cutOff | badPair | illegal => cases hl

theorem Takes.isBlank_of_mem (h : l.Takes slice rest) (hl : l.kind = .whitespace)
    (hc : c ∈ slice) : isBlank c := by
  cases h with
  | blanks _ hrun _ => exact hrun c hc
  | @word kind d run _ _ _ _ hname =>
    have hword : kind.isWord := TokenKind.names_iff.1 hname ▸ TokenKind.isWord_ofWord _
    obtain rfl : kind = .whitespace := hl
    cases hword
  | _ => cases hl

theorem kind_of_hasEdge_semicolon (h : l.HasEdge ';') : l.kind = .semicolon := by
  unfold HasEdge at h
  split at h
  all_goals first | assumption | exact absurd h (by decide)

theorem kind_of_hasEdge_dot (h : l.HasEdge '.') : l.kind = .dot := by
  unfold HasEdge at h
  split at h
  all_goals first | assumption | exact absurd h (by decide)

/-- A whole piece is a dot just if it ends with one. -/
theorem Takes.kind_eq_dot_iff (h : l.Takes slice rest) (hl : l.Spelled) :
    l.kind = .dot ↔ slice.getLast? = some '.' := by
  refine ⟨fun hk => ?_, fun hc => kind_of_hasEdge_dot (h.hasEdge hl (.inr hc))⟩
  obtain ⟨c, hc⟩ := Option.isSome_iff_exists.1 (List.getLast?_isSome.2 h.ne_nil)
  have hedge := h.hasEdge hl (.inr hc)
  rw [HasEdge, hk] at hedge
  rw [hc, hedge]

/-- A piece that ends with a semicolon is one, or it is broken. -/
theorem Takes.semicolon_or_broken (h : l.Takes slice rest) (hc : slice.getLast? = some ';') :
    l.kind = .semicolon ∨ l.IsBroken := by
  rcases h.broken_or_spelled with hl | hl
  · exact .inr hl
  · exact .inl (kind_of_hasEdge_semicolon (h.hasEdge hl (.inr hc)))

theorem stopsAt_of_semicolon_or_broken (h : l.kind = .semicolon ∨ l.IsBroken) (cs : List Char) :
    l.StopsAt cs := by
  refine ⟨fun hk => ?_, fun hk => ?_⟩ <;>
    rcases h with h | h | h | h <;> rw [h] at hk <;> cases hk

end Lexeme

theorem lexemes_of_takes {l : Lexeme} {slice rest : List Char} (h : l.Takes slice rest) :
    lexemes (slice ++ rest) = l :: lexemes rest := by
  obtain ⟨c, cs, rfl, hcut⟩ := Lexeme.cut_of_takes h
  rw [List.cons_append, lexemes, hcut]

/-- What begins with a quote is a string, whatever ends it. -/
theorem exists_lexemes_of_quote {cs : List Char} (h : cs.head? = some '"') : ∃ l ls,
    lexemes cs = l :: ls ∧ (l.kind = .str ∨ l.kind = .badString ∨ l.kind = .badEscape) := by
  obtain ⟨ds, rfl⟩ := List.head?_eq_some_iff.1 h
  refine ⟨_, _, by rw [lexemes], ?_⟩
  rw [Lexeme.cut_quote]
  exact Lexeme.kind_stringEnd _

/-- A quote that closes a string stands in its own characters, if no other comes behind them. -/
theorem Lexeme.closed_of_append {cs ds : List Char} (hds : '"' ∉ ds)
    (h : (quoted (cs ++ ds)).1.2 = .closed) : (quoted cs).1.2 = .closed := by
  obtain ⟨body, stop, hcs, hbody, hstop⟩ := exists_stops (cs ++ ds)
  rw [h] at hstop
  generalize (quoted (cs ++ ds)).2 = rest at hcs hstop
  cases hstop
  have hclosed (more : List Char) : (quoted (body ++ ['"'] ++ more)).1.2 = .closed := by
    rw [List.append_assoc, quoted_denotes hbody]
    exact congrArg (fun q => q.1.2) (quoted_stops .closed)
  rw [← List.append_assoc] at hcs
  rcases List.append_eq_append_iff.1 hcs with ⟨more, hmore, rfl⟩ | ⟨more, rfl, -⟩
  · rcases List.prefix_concat_iff.1 ⟨more, hmore.symm⟩ with rfl | ⟨more', rfl⟩
    · simpa using hclosed []
    · -- the quote would be one of those added
      rw [List.append_assoc, List.append_cancel_left_eq] at hmore
      exact absurd (by simp [← hmore]) hds
  · exact hclosed more

/-- A string that is cut off by the end of the text is broken with more behind it too, if no quote
comes to close it. -/
theorem exists_lexemes_of_open {l : Lexeme} {slice ds : List Char} (h : l.Takes slice [])
    (hl : l.kind = .badString) (hquote : slice.head? = some '"') (hds : '"' ∉ ds) :
    ∃ l' ls, lexemes (slice ++ ds) = l' :: ls ∧ l'.IsBroken := by
  obtain ⟨cs, rfl⟩ := List.head?_eq_some_iff.1 hquote
  obtain ⟨_, _, ⟨⟩, hcut⟩ := Lexeme.cut_of_takes h
  rw [List.append_nil, Lexeme.cut_quote] at hcut
  rw [List.cons_append, lexemes, Lexeme.cut_quote]
  refine ⟨_, _, rfl, ?_⟩
  have hopen : (Lexeme.quoted (cs ++ ds)).1.2 ≠ .closed := by
    intro hclosed
    rw [← congrArg (fun p => p.1.kind) hcut, Lexeme.closed_of_append hds hclosed] at hl
    cases hl
  cases he : (Lexeme.quoted (cs ++ ds)).1.2 with
  | closed => exact absurd he hopen
  | cutOff => exact .inl rfl
  | badEscape c => exact .inr (.inl rfl)

end KeyspaceQuery
