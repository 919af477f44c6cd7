import KeyspaceQuery.Proofs.Lexeme.Scans

/-! Where the tokens of a text are placed, told by how many characters come before them. A token is
placed where its piece begins, and a string one character before that. The end of the input is
placed where the text ends, but one column further right if the last piece was seen to end only
there, and from then on always. -/

namespace KeyspaceQuery

/-- The line feeds among the first `i` characters, and the characters behind the last of them. -/
def Position.ofOffset (text : List Char) (i : Nat) : Position :=
  ⟨(text.take i).count '\n', ((text.take i).rtakeWhile (· ≠ '\n')).length⟩

theorem Position.past_take (text : List Char) (i : Nat) :
    start.past (text.take i) = ofOffset text i :=
  past_start _

theorem Position.past_dropLast_take {text : List Char} {i : Nat} (h : i ≤ text.length) :
    start.past (text.take i).dropLast = if i = 0 then ⟨0, 0⟩ else ofOffset text (i - 1) := by
  split
  · subst i
    rfl
  · rw [List.dropLast_eq_take, List.length_take_of_le h, List.take_take,
      Nat.min_eq_left (Nat.sub_le i 1), past_take]

/-- A string, whether or not it is whole. -/
def TokenKind.isQuoted : TokenKind → Bool
  | str | badString | badEscape => true
  | _ => false

theorem TokenKind.not_isQuoted_of_isWord {kind : TokenKind} (h : kind.isWord) :
    kind.isQuoted = false := by
  cases kind with
  | str | badString | badEscape => cases h
  | _ => rfl

/-- How many characters stand before piece number `i`. -/
def offset (pieces : List (Lexeme × List Char)) (i : Nat) : Nat :=
  ((pieces.take i).flatMap Prod.snd).length

section Takes

variable {l : Lexeme} {slice rest : List Char}

theorem Lexeme.Takes.isQuoted_iff (h : l.Takes slice rest) :
    l.kind.isQuoted ↔ slice.head? = some '"' := by
  cases h with
  | @blanks run _ hne hrun =>
    obtain ⟨c, cs, rfl⟩ := List.exists_cons_of_ne_nil hne
    have hc : c ≠ '"' := by
      rintro rfl
      exact absurd (hrun '"' (List.mem_cons_self ..)) (by decide)
    simp [TokenKind.isQuoted, hc]
  | @word kind c run _ hc _ _ hname =>
    have hne : c ≠ '"' := by
      rintro rfl
      exact absurd hc (by decide)
    have hword : kind.isWord := TokenKind.names_iff.1 hname ▸ TokenKind.isWord_ofWord _
    simp [TokenKind.not_isQuoted_of_isWord hword, hne]
  | string | lineFeed | cutOff | badPair => simp [TokenKind.isQuoted]
  | dot | comma | semicolon | equal => simp [TokenKind.isQuoted]
  | illegal _ _ hc =>
    simp only [List.mem_cons, not_or] at hc
    simp [TokenKind.isQuoted, hc.1]

/-- These pieces are seen to end with their last character. -/
theorem Lexeme.not_overruns
    (h : l.kind ∈ [.dot, .comma, .semicolon, .equal, .illegal, .str, .badEscape] ∨
      l.kind = .badString ∧ slice.getLast? = some '\n') : ¬ l.overruns slice := by
  rcases h with h | ⟨h, hlast⟩
  · simp only [List.mem_cons, List.not_mem_nil, or_false] at h
    rcases h with h | h | h | h | h | h | h <;> simp [overruns, h, TokenKind.isWord]
  · simp [overruns, h, hlast, TokenKind.isWord]

theorem Lexeme.overruns_of (h : l.kind = .whitespace ∨ l.kind.isWord ∨
    l.kind = .badString ∧ slice.getLast? ≠ some '\n') : l.overruns slice := by
  rcases h with h | h | ⟨h, hlast⟩
  · simp [overruns, h]
  · simp [overruns, h]
  · simp [overruns, h, hlast]

end Takes

section Placed

variable {pieces : List (Lexeme × List Char)} {l : Lexeme} {slice : List Char} {i : Nat}

theorem length_placed (behind : List Char) (overrun : Bool)
    (pieces : List (Lexeme × List Char)) :
    (placed behind overrun pieces).length = pieces.length + 1 := by
  induction pieces generalizing behind overrun with
  | nil => rfl
  | cons piece pieces ih => rw [placed, List.length_cons, ih, List.length_cons]

/-- A piece is placed by the characters of those before it. -/
theorem getElem?_placed (behind : List Char) (overrun : Bool)
    (h : pieces[i]? = some (l, slice)) : (placed behind overrun pieces)[i]? =
      some ⟨l.kind, Position.start.past (if slice.head? = some '"'
        then (behind ++ (pieces.take i).flatMap Prod.snd).dropLast
        else behind ++ (pieces.take i).flatMap Prod.snd), l.literal⟩ := by
  -- what is passed is behind the pieces that are left
  induction pieces generalizing behind overrun i with
  | nil => cases h
  | cons piece pieces ih =>
    cases i with
    | zero =>
      cases h
      simp [placed]
    | succ i =>
      rw [placed, List.getElem?_cons_succ, ih _ _ h, List.take_succ_cons, List.flatMap_cons,
        List.append_assoc]

/-- The end is placed behind all pieces, and what the last of them is tells whether it was read
before. -/
theorem getElem?_placed_length (behind : List Char) (overrun : Bool)
    (pieces : List (Lexeme × List Char)) :
    (placed behind overrun pieces)[pieces.length]? = some ⟨.endOfInput,
      if pieces.getLast?.elim overrun fun last => last.1.overruns last.2
        then (Position.start.past (behind ++ pieces.flatMap Prod.snd)).right
        else Position.start.past (behind ++ pieces.flatMap Prod.snd), ""⟩ := by
  induction pieces generalizing behind overrun with
  | nil => simp [placed]
  | cons piece pieces ih =>
    rw [placed, List.length_cons, List.getElem?_cons_succ, ih, List.flatMap_cons,
      List.append_assoc]
    cases pieces <;> rfl

end Placed

section Segments

variable {cs : List Char} {pieces : List (Lexeme × List Char)} {l : Lexeme} {slice : List Char}
  {i : Nat}

theorem Segments.take_offset (h : Segments cs pieces) (i : Nat) :
    (pieces.take i).flatMap Prod.snd = cs.take (offset pieces i) := by
  have hcs : (pieces.take i).flatMap Prod.snd ++ (pieces.drop i).flatMap Prod.snd = cs := by
    rw [← List.flatMap_append, List.take_append_drop, h.flatMap_eq]
  rw [offset, ← hcs, List.take_left]

theorem Segments.offset_le (h : Segments cs pieces) (i : Nat) : offset pieces i ≤ cs.length := by
  have hlength : offset pieces i = min (offset pieces i) cs.length := by
    rw [← List.length_take, ← h.take_offset]
    rfl
  exact hlength ▸ Nat.min_le_right _ _

theorem Segments.isQuoted_iff (h : Segments cs pieces) (hi : pieces[i]? = some (l, slice)) :
    l.kind.isQuoted ↔ slice.head? = some '"' := by
  induction h generalizing i with
  | nil => cases hi
  | cons hl _ ih =>
    cases i with
    | zero =>
      cases hi
      exact hl.isQuoted_iff
    | succ i => exact ih hi

end Segments

/-- Behind the first end of the input the same token comes for ever. -/
theorem Source.Scans.eq_of_lt {T : Nat → Token} {S : Nat → Source} {r : Source} {last i : Nat}
    (hS : r.Scans T S) (hend : EndsAt T last) (hi : last < i) : T i = T (last + 1) := by
  obtain ⟨z, hspent⟩ :=
    spent_of_nextToken (hS.ready last) (hS.succ last) (hend.behind last (Nat.le_refl _))
  rw [hS.eq_of_spent hspent hi, hS.eq_of_spent hspent (Nat.le_refl _)]

/-- The tokens scanned from a text are placed by the offsets at which their pieces begin, and the
end of the input by what the last piece is. -/
theorem tokens_placed_by_offset (text : String) :
    ∃ (T : Nat → Token) (pieces : List (Lexeme × List Char)),
      (∀ n, replies Source.reply (List.replicate n .scan) (.ofString text) =
        .ok ((List.range n).map (.token ∘ T))) ∧
      Segments text.toList pieces ∧
      (∀ i l slice, pieces[i]? = some (l, slice) → (T i).lexeme = l ∧ (T i).position =
        if l.kind.isQuoted then
          if offset pieces i = 0 then ⟨0, 0⟩ else .ofOffset text.toList (offset pieces i - 1)
        else .ofOffset text.toList (offset pieces i)) ∧
      (T pieces.length).lexeme = .eof ∧
      (pieces = [] → (T pieces.length).position = .ofOffset text.toList text.toList.length) ∧
      (∀ l slice, pieces.getLast? = some (l, slice) →
        (l.kind ∈ [.dot, .comma, .semicolon, .equal, .illegal, .str, .badEscape] ∨
            l.kind = .badString ∧ slice.getLast? = some '\n' →
          (T pieces.length).position = .ofOffset text.toList text.toList.length) ∧
        (l.kind = .whitespace ∨ l.kind.isWord ∨
            l.kind = .badString ∧ slice.getLast? ≠ some '\n' →
          (T pieces.length).position =
            (Position.ofOffset text.toList text.toList.length).right)) ∧
      ∀ i, pieces.length < i →
        T i = ⟨.endOfInput, (Position.ofOffset text.toList text.toList.length).right, ""⟩ := by
  obtain ⟨T, S, hS⟩ := Source.exists_scans (Source.ready_ofString text)
  obtain ⟨pieces, hp, -⟩ := exists_segments text.toList
  obtain ⟨last, hend, hlex, hbehind⟩ := hS.exists_endsAt
  have hplaced : placed [] false pieces = (List.range (last + 1)).map T :=
    Except.ok.inj ((lex_of_segments hp).symm.trans hlex)
  obtain rfl : pieces.length = last := by
    have := congrArg List.length hplaced
    rw [length_placed, List.length_map, List.length_range] at this
    exact Nat.succ.inj this
  have token : ∀ {i t}, (placed [] false pieces)[i]? = some t → T i = t := by
    intro i t ht
    rw [hplaced, List.getElem?_map] at ht
    obtain ⟨j, hj, ht⟩ := Option.map_eq_some_iff.1 ht
    rwa [← (List.getElem?_eq_some_iff.1 hj).2, List.getElem_range] at ht
  have htext : Position.start.past ([] ++ pieces.flatMap Prod.snd) =
      .ofOffset text.toList text.toList.length := by
    rw [List.nil_append, hp.flatMap_eq, ← Position.past_take, List.take_length]
  have hfirst := token (getElem?_placed_length [] false pieces)
  rw [htext] at hfirst
  refine ⟨T, pieces, fun n => ?_, hp, fun i l slice hi => ?_, by rw [hfirst]; rfl, ?_, ?_, ?_⟩
  · have := hS.serve 0 n
    rw [hS.zero, ← List.range_eq_range'] at this
    rw [replies, this]
    rfl
  · rw [token (getElem?_placed [] false hi), List.nil_append, hp.take_offset,
      ite_cond_congr (propext (hp.isQuoted_iff hi).symm)]
    refine ⟨rfl, ?_⟩
    split
    · exact Position.past_dropLast_take (hp.offset_le i)
    · exact Position.past_take _ _
  · rintro rfl
    rw [hfirst]
    rfl
  · intro l slice hl
    rw [hfirst, hl]
    refine ⟨fun hkind => if_neg ?_, fun hkind => if_pos ?_⟩
    · exact Lexeme.not_overruns hkind
    · exact Lexeme.overruns_of hkind
  · intro i hi
    rw [hS.eq_of_lt hend hi, hbehind, ← htext, List.nil_append, hp.flatMap_eq]

end KeyspaceQuery
