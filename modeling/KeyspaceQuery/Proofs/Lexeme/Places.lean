import KeyspaceQuery.Proofs.Lexeme.Segments
import KeyspaceQuery.Proofs.Tape
import Mathlib.Data.List.DropRight

/-! Where the tokens of a text are placed. A token is placed where its piece begins, and one that
begins with a quote where the character before it is. The end of the input is placed where the text
ends, or a column further right if the end was read already to see where the last piece ends. -/

namespace KeyspaceQuery

open Token (isBlank isWordStart isWordChar)

namespace Position

/-- Where a place in a text comes to stand if the text is put behind one that ends at `p`. -/
def moved (q p : Position) : Position :=
  if q.line = 0 then ⟨p.line, p.column + q.column⟩ else ⟨p.line + q.line, q.column⟩

theorem moved_start (p : Position) : start.moved p = p := rfl

theorem moved_right (q p : Position) : q.right.moved p = (q.moved p).right := by
  unfold moved right
  split <;> rfl

theorem moved_newline (q p : Position) : q.newline.moved p = (q.moved p).newline := by
  unfold moved newline
  rw [if_neg (Nat.succ_ne_zero _)]
  split
  · simp [*]
  · rfl

theorem moved_after (q p : Position) (c : Char) : (q.after c).moved p = (q.moved p).after c := by
  unfold after
  split
  · exact moved_newline q p
  · exact moved_right q p

theorem moved_past (q p : Position) (cs : List Char) :
    (q.past cs).moved p = (q.moved p).past cs := by
  induction cs generalizing q with
  | nil => rfl
  | cons c cs ih =>
    rw [past, List.foldl_cons, past, List.foldl_cons, ← moved_after]
    exact ih (q.after c)

theorem past_start_append (cs ds : List Char) :
    start.past (cs ++ ds) = (start.past ds).moved (start.past cs) := by
  rw [past_append, moved_past, moved_start]

/-- Lines are counted by the line feeds, columns by the characters since the last of them. -/
theorem past_start (cs : List Char) :
    start.past cs = ⟨cs.count '\n', (cs.rtakeWhile (· ≠ '\n')).length⟩ := by
  induction cs using List.reverseRecOn with
  | nil => rfl
  | append_singleton cs c ih =>
    rw [past_append, ih]
    by_cases hc : c = '\n'
    · subst hc
      simp [past, after, newline]
    · simp [past, after, right, hc, List.count_append]

end Position

/-- As the last piece of a text it is seen to end only when the end of the text is read. -/
def Lexeme.overruns (l : Lexeme) (slice : List Char) : Bool :=
  l.kind.isWord || l.kind = .whitespace || l.kind = .badString && slice.getLast? ≠ some '\n'

/-- The tokens of pieces that come behind some characters of a text, and of its end. -/
def placed (behind : List Char) (overrun : Bool) : List (Lexeme × List Char) → List Token
  | [] =>
    let p := Position.start.past behind
    [⟨.endOfInput, if overrun then p.right else p, ""⟩]
  | (l, slice) :: pieces =>
    let p := Position.start.past (if slice.head? = some '"' then behind.dropLast else behind)
    ⟨l.kind, p, l.literal⟩ :: placed (behind ++ slice) (l.overruns slice) pieces

namespace Source

variable {text : List Char} {r s : Source} {c : Char} {p : Position}

/-- The source is somewhere on the tape. -/
def OnTape (text : List Char) (r : Source) : Prop := ∃ k, r.At text k

theorem OnTape.read (h : r.OnTape text) : r.read.2.OnTape text := by
  obtain ⟨k, h⟩ := h
  exact ⟨k + 1, (at_read h).2⟩

theorem onTape_of_read {g : Reading} (h : r.OnTape text) (hr : r.read = (g, s)) :
    s.OnTape text := by
  have := h.read
  rwa [hr] at this

theorem OnTape.undo (h : r.OnTape text) (hs : r.undo = .ok s) : s.OnTape text := by
  obtain ⟨k, n, htook, hk⟩ := h
  have hundone : (r.undone : Nat) < 2 := by
    unfold Source.undo at hs
    split at hs
    · simp [*]
    · simp [*]
    · cases hs
  obtain ⟨k, rfl⟩ : ∃ k', k = k' + 1 := Nat.exists_eq_succ_of_ne_zero (by omega)
  exact ⟨k, at_undo ⟨n, htook, hk⟩ hs⟩

theorem onTape_takeRun {accept : Char → Bool} {cs : List Char} (h : r.OnTape text)
    (hs : r.takeRun accept = .ok (cs, s)) : s.OnTape text := by
  fun_induction takeRun accept r generalizing cs with
  | case1 r p r₁ hr =>
    cases hs
    exact onTape_of_read h hr
  | case2 r c p r₁ hr hc ih =>
    obtain ⟨⟨tail, r₂⟩, h₁, h₂⟩ := bind_eq_ok_iff.1 hs
    cases h₂
    exact ih (onTape_of_read h hr) h₁
  | case3 r c p r₁ hr hc =>
    obtain ⟨r₂, h₁, h₂⟩ := bind_eq_ok_iff.1 hs
    cases h₂
    exact (onTape_of_read h hr).undo h₁

theorem OnTape.takeString (h : r.OnTape text) : r.takeString.2.OnTape text := by
  fun_induction Source.takeString r with
  | case1 r p r₁ hr => exact onTape_of_read h hr
  | case2 r p r₁ hr => exact onTape_of_read h hr
  | case3 r p r₁ hr => exact onTape_of_read h hr
  | case4 r p r₁ q r₂ hr₁ hr => exact onTape_of_read (onTape_of_read h hr) hr₁
  | case5 r p r₁ e q r₂ hr₁ he hr => exact onTape_of_read (onTape_of_read h hr) hr₁
  | case6 r p r₁ e q r₂ hr₁ d he value ending r₃ hs hr _ _ ih =>
    have := ih (onTape_of_read (onTape_of_read h hr) hr₁)
    rwa [hs] at this
  | case7 r c p r₁ hr hq hn hb value ending r₂ hs ih =>
    have := ih (onTape_of_read h hr)
    rwa [hs] at this

/-- A run that goes to the end of the text has read it. -/
theorem ended_takeRun {accept : Char → Bool} {cs : List Char} (h : r.Ready)
    (hs : r.takeRun accept = .ok (cs, s)) (hrest : s.remaining = []) : s.ended = true := by
  fun_induction takeRun accept r generalizing cs with
  | case1 r p r₁ hr =>
    cases hs
    exact (of_read_none h hr).2.ended
  | case2 r c p r₁ hr hc ih =>
    obtain ⟨⟨tail, r₂⟩, h₁, h₂⟩ := bind_eq_ok_iff.1 hs
    cases h₂
    exact ih (.none (undone_of_read h hr)) h₁
  | case3 r c p r₁ hr hc =>
    obtain ⟨r₂, h₁, h₂⟩ := bind_eq_ok_iff.1 hs
    cases h₂
    obtain ⟨u, hu, -, hrest'⟩ := undo_of_read_some h hr
    cases hu.symm.trans h₁
    rw [hrest] at hrest'
    cases hrest'

theorem ended_of_read_some (hr : r.read = (⟨some c, p⟩, s)) : s.ended = r.ended := by
  obtain ⟨rest, position, ended, behind, undone⟩ := r
  match undone with
  | 0 =>
    cases rest with
    | nil => cases hr
    | cons d rest =>
      cases hr
      rfl
  | 1 => exact congrArg (Source.ended ∘ Prod.snd) hr.symm
  | 2 => exact congrArg (Source.ended ∘ Prod.snd) hr.symm

/-- A string that goes to the end of the text has read it if nothing else ends the string. -/
theorem ended_takeString (h : r.Ready) (he : r.ended = false)
    (hrest : r.takeString.2.remaining = []) : r.takeString.2.ended =
      decide (r.takeString.1.2 = .cutOff ∧ r.remaining.getLast? ≠ some '\n') := by
  fun_induction takeString r with
  | case1 r p s hr =>
    obtain ⟨hn, hs⟩ := of_read_none h hr
    simp [hn, hs.ended]
  | case2 r p s hr => simp [ended_of_read_some hr, he]
  | case3 r p s hr =>
    simp only at hrest
    simp [ended_of_read_some hr, he, remaining_of_read_some h hr, hrest]
  | case4 r p s q u hs hr =>
    obtain ⟨hn, hu⟩ := of_read_none (.none (undone_of_read h hr)) hs
    simp [hu.ended, remaining_of_read_some h hr, hn]
  | case5 r p s e q u hs _ hr => simp [ended_of_read_some hs, ended_of_read_some hr, he]
  | case6 r p s e q u hs d hd value ending v hv hr _ _ ih =>
    have hready : s.Ready := .none (undone_of_read h hr)
    have hne : e ≠ '\n' := by
      rintro rfl
      cases hd
    rw [hv] at ih
    have := ih (.none (undone_of_read hready hs))
      (by rw [ended_of_read_some hs, ended_of_read_some hr, he]) hrest
    rw [this, remaining_of_read_some h hr, remaining_of_read_some hready hs]
    cases u.remaining <;> simp [hne]
  | case7 r c p s hr hq hn hb value ending v hv ih =>
    rw [hv] at ih
    have := ih (.none (undone_of_read h hr)) (by rw [ended_of_read_some hr, he]) hrest
    rw [this, remaining_of_read_some h hr]
    cases s.remaining <;> simp [hn]

/-- What the lexer does behind the first character of a token. -/
inductive Scanned (c : Char) (p : Position) (r : Source) : Token → Source → Prop
  | run {u s accept kind cs} : c ≠ '"' → kind = .whitespace ∨ kind.isWord → r.undo = .ok u →
    u.takeRun accept = .ok (cs, s) → Scanned c p r ⟨kind, p, String.ofList cs⟩ s
  | string {u} : c = '"' → r.undo = .ok u → Scanned c p r
    ⟨r.takeString.1.2.kind, u.latest.position, stringLiteral r.takeString.1⟩ r.takeString.2
  | symbol : c ≠ '"' → Scanned c p r (symbol c p) r

theorem scanned_of_nextToken {r₁ : Source} {t : Token} (hr : r.read = (⟨some c, p⟩, r₁))
    (ht : r.nextToken = .ok (t, s)) : Scanned c p r₁ t s := by
  unfold nextToken at ht
  rw [hr] at ht
  simp only at ht
  split at ht
  · rename_i hc
    obtain ⟨u, hu, ht⟩ := bind_eq_ok_iff.1 ht
    obtain ⟨⟨cs, v⟩, hv, ht⟩ := bind_eq_ok_iff.1 ht
    cases ht
    exact .run (by rintro rfl; cases hc) (.inl rfl) hu hv
  · split at ht
    · rename_i hc
      obtain ⟨u, hu, ht⟩ := bind_eq_ok_iff.1 ht
      obtain ⟨⟨cs, v⟩, hv, ht⟩ := bind_eq_ok_iff.1 ht
      cases ht
      exact .run (by rintro rfl; revert hc; decide) (.inr (TokenKind.isWord_ofWord _)) hu hv
    · split at ht
      · obtain ⟨u, hu, ht⟩ := bind_eq_ok_iff.1 ht
        cases ht
        rw [read_of_undo hu]
        exact .string ‹_› hu
      · cases ht
        exact .symbol ‹_›

theorem place_of_scanned {k : Nat} {r₁ : Source} {t : Token} (hat : r.At text (k + 1))
    (hr : r.read = (⟨some c, p⟩, r₁)) (h : Scanned c p r₁ t s) :
    t.position = (tape text (if c = '"' then k else k + 1)).position := by
  obtain ⟨hp, hnext⟩ := at_read hat
  rw [hr] at hp hnext
  cases h with
  | run hc => rw [if_neg hc, ← hp]
  | string hc hu => rw [if_pos hc, latest_of_at (at_undo hnext hu)]
  | symbol hc =>
    rw [if_neg hc, ← hp]
    unfold Source.symbol
    split <;> rfl

theorem onTape_of_scanned {t : Token} (hr : r.OnTape text) (h : Scanned c p r t s) :
    s.OnTape text := by
  cases h with
  | run _ _ hu hs => exact onTape_takeRun (hr.undo hu) hs
  | string => exact hr.takeString
  | symbol => exact hr

theorem onTape_of_nextToken {t : Token} (h : r.OnTape text) (ht : r.nextToken = .ok (t, s)) :
    s.OnTape text := by
  rcases hr : r.read with ⟨⟨_ | c, p⟩, r₁⟩
  · unfold nextToken at ht
    rw [hr] at ht
    cases ht
    exact onTape_of_read h hr
  · exact onTape_of_scanned (onTape_of_read h hr) (scanned_of_nextToken hr ht)

/-- The end of the text has been read just if the piece overruns. -/
theorem ended_of_scanned {r₁ : Source} {t : Token} (h : r.Ready) (he : r.ended = false)
    (hr : r.read = (⟨some c, p⟩, r₁)) (ht : Scanned c p r₁ t s) (hrest : s.remaining = []) :
    s.ended = t.lexeme.overruns r.remaining := by
  have he₁ : r₁.ended = false := (ended_of_read_some hr).trans he
  cases ht with
  | run _ hkind hu hs =>
    obtain ⟨u, hu', hready, -⟩ := undo_of_read_some h hr
    cases hu'.symm.trans hu
    rw [ended_takeRun hready hs hrest]
    rcases hkind with rfl | hkind
    · rfl
    · simp [Lexeme.overruns, Token.lexeme, hkind]
  | string hc hu =>
    rw [ended_takeString (.none (undone_of_read h hr)) he₁ hrest, remaining_of_read_some h hr, hc]
    rcases r₁.takeString.1 with ⟨value, ending⟩
    rcases r₁.remaining with _ | ⟨d, ds⟩ <;> cases ending <;>
      simp [Lexeme.overruns, Token.lexeme, StringEnd.kind, TokenKind.isWord]
  | symbol =>
    rw [he₁]
    unfold Source.symbol
    split <;> rfl

/-- Between tokens the characters from the place of the source on are still to be read. -/
theorem exists_at_of_ready (h : r.Ready) (hat : r.OnTape text) : ∃ n, r.At text (n + 3) ∧
    r.remaining = text.drop n ∧ r.ended = decide (text.length < n) := by
  obtain ⟨k, n, htook, hk⟩ := hat
  rcases h with hu | ⟨hu, hc⟩
  · rw [remaining_of_undone hu]
    exact ⟨n, ⟨n, htook, by rw [hu]; rfl⟩, htook.rest, htook.ended⟩
  · -- the reading that is undone was one of a character
    rw [htook.behind.newest] at hc
    cases n with
    | zero => cases hc
    | succ n =>
      have hn : n < text.length := by
        refine Nat.lt_of_not_le fun hn => ?_
        rcases Nat.lt_or_eq_of_le hn with hn | rfl
        · simp [tape, Reading.nth_of_lt hn] at hc
        · simp [tape, Reading.nth_of_le] at hc
      refine ⟨n, ⟨n + 1, htook, by rw [hu]; rfl⟩, ?_, ?_⟩
      · rw [remaining, hu, htook.rest, htook.behind.newest, List.drop_eq_getElem_cons hn]
        simp [tape, Reading.nth_of_le (Nat.le_of_lt hn), hn]
      · rw [htook.ended, decide_eq_decide]
        omega

end Source

theorem tape_behind (behind rest : List Char) :
    (tape (behind ++ rest) (behind.length + 3)).position = Position.start.past behind := by
  rw [tape, Reading.nth_of_le (by simp), List.take_left]

theorem tape_before (behind rest : List Char) :
    (tape (behind ++ rest) (behind.length + 2)).position =
      Position.start.past behind.dropLast := by
  rcases List.eq_nil_or_concat' behind with rfl | ⟨cs, c, rfl⟩
  · rfl
  · rw [List.dropLast_concat, List.append_assoc, List.length_append]
    exact tape_behind cs _

namespace Source

variable {behind rest : List Char} {r : Source}

theorem nextToken_of_end (h : r.Ready) (hat : r.OnTape behind) (hrest : r.remaining = []) :
    ∃ s, r.nextToken = .ok (⟨.endOfInput, if r.ended then (Position.start.past behind).right
      else Position.start.past behind, ""⟩, s) := by
  obtain ⟨n, hat, hn, he⟩ := exists_at_of_ready h hat
  have hn : behind.length ≤ n := List.drop_eq_nil_iff.1 (hn ▸ hrest)
  have hread := (at_read hat).1
  unfold nextToken
  rcases hr : r.read with ⟨g, s⟩
  rw [hr] at hread
  simp only at hread
  refine ⟨s, ?_⟩
  rw [he, hread, tape]
  rcases Nat.lt_or_eq_of_le hn with hn | rfl
  · rw [Reading.nth_of_lt hn, if_pos (decide_eq_true hn)]
    rfl
  · rw [Reading.nth_of_le (Nat.le_refl _), List.drop_length, List.take_length, if_neg (by simp)]
    rfl

/-- A piece gives its token, placed by what is behind it. -/
theorem nextToken_of_takes {l : Lexeme} {slice : List Char} (h : r.Ready)
    (hat : r.OnTape (behind ++ (slice ++ rest))) (hrest : r.remaining = slice ++ rest)
    (hl : l.Takes slice rest) : ∃ s, r.nextToken = .ok (⟨l.kind, Position.start.past
        (if slice.head? = some '"' then behind.dropLast else behind), l.literal⟩, s) ∧
      s.Ready ∧ s.OnTape (behind ++ slice ++ rest) ∧ s.remaining = rest ∧
      (rest = [] → s.ended = l.overruns slice) := by
  obtain ⟨c, cs, rfl, hcut⟩ := Lexeme.cut_of_takes hl
  obtain ⟨t, s, hs, ht, hready, hsrest⟩ := nextToken_of_remaining_cons h hrest
  obtain ⟨n, hat', hn, he⟩ := exists_at_of_ready h hat
  rw [List.append_eq, hcut] at ht hsrest
  subst ht
  obtain rfl : n = behind.length := by
    have := congrArg List.length (hrest.symm.trans hn)
    simp only [List.length_append, List.length_drop, List.length_cons] at this
    omega
  rcases hr : r.read with ⟨⟨_ | d, p⟩, r₁⟩
  · rw [(of_read_none h hr).1] at hrest
    cases hrest
  · have hscanned := scanned_of_nextToken hr hs
    have hd : d = c := (List.cons.inj ((remaining_of_read_some h hr).symm.trans hrest)).1
    subst hd
    have hplace : t.position = Position.start.past
        (if (d :: cs).head? = some '"' then behind.dropLast else behind) := by
      rw [place_of_scanned hat' hr hscanned]
      simp only [List.head?_cons, Option.some.injEq]
      split
      · exact tape_before behind _
      · exact tape_behind behind _
    refine ⟨s, ?_, hready, ?_, hsrest, fun hnil => ?_⟩
    · rw [hs, ← hplace]
      rfl
    · rw [List.append_assoc]
      exact onTape_of_scanned (onTape_of_read hat hr) hscanned
    · have hended : r.ended = false := by
        rw [he]
        simp
      rw [ended_of_scanned h hended hr hscanned (hsrest.trans hnil), hrest, hnil, List.append_nil]

end Source

/-- From a source that has still to read the pieces all tokens are had, each in its place. -/
theorem tokens_of_segments {rest : List Char} {pieces : List (Lexeme × List Char)}
    (hp : Segments rest pieces) {behind : List Char} {overrun : Bool} {r : Source}
    (h : r.Ready) (hat : r.OnTape (behind ++ rest)) (hrest : r.remaining = rest)
    (he : rest = [] → r.ended = overrun) : r.tokens = .ok (placed behind overrun pieces) := by
  induction hp generalizing behind overrun r with
  | nil =>
    rw [List.append_nil] at hat
    obtain ⟨s, hs⟩ := Source.nextToken_of_end h hat hrest
    rw [he rfl] at hs
    exact Source.tokens_of_last hs rfl
  | @cons l slice rest pieces hl hp ih =>
    obtain ⟨s, hs, hready, hat', hrest', he'⟩ := Source.nextToken_of_takes h hat hrest hl
    exact Source.tokens_cons hs hl.kind_ne_endOfInput (ih hready hat' hrest' he')

theorem lex_of_segments {text : String} {pieces : List (Lexeme × List Char)}
    (h : Segments text.toList pieces) : lex text = .ok (placed [] false pieces) :=
  tokens_of_segments h (Source.ready_ofString text) ⟨3, Source.at_ofString text⟩
    (Source.remaining_ofString text) fun _ => rfl

section Placed

variable {cs : List Char} {pieces : List (Lexeme × List Char)}

/-- Pieces that a semicolon follows are read to it, and what comes behind it is placed behind it. -/
theorem placed_append (pieces pieces' : List (Lexeme × List Char)) (behind : List Char)
    (overrun : Bool) : ∃ ts t,
      placed behind overrun (pieces ++ (⟨.semicolon, ""⟩, [';']) :: pieces') =
        ts ++ t :: placed (behind ++ pieces.flatMap Prod.snd ++ [';']) false pieces' ∧
      ts.map Token.lexeme = pieces.map Prod.fst ∧ t.lexeme = ⟨.semicolon, ""⟩ := by
  induction pieces generalizing behind overrun with
  | nil => exact ⟨[], _, by rw [List.flatMap_nil, List.append_nil]; rfl, rfl, rfl⟩
  | cons piece pieces ih =>
    obtain ⟨ts, t, hts, hlexemes, ht⟩ := ih (behind ++ piece.2) (piece.1.overruns piece.2)
    rw [List.cons_append, placed, hts, List.flatMap_cons, ← List.append_assoc]
    exact ⟨_ :: ts, t, rfl, congrArg (piece.1 :: ·) hlexemes, ht⟩

/-- A token and what becomes of it behind a text that ends at `p`. If `kept` its place goes with
it. -/
def Token.Moved (kept : Prop) (p : Position) (t u : Token) : Prop :=
  u.lexeme = t.lexeme ∧ (kept → u.position = t.position.moved p)

theorem placed_moved (h : Segments cs pieces) {kept : Prop} {pre behind : List Char}
    (hq : kept → behind = [] → cs.head? ≠ some '"') (overrun : Bool) :
    List.Forall₂ (Token.Moved kept (Position.start.past pre)) (placed behind overrun pieces)
      (placed (pre ++ behind) overrun pieces) := by
  induction h generalizing behind overrun with
  | nil =>
    refine .cons ⟨rfl, fun _ => ?_⟩ .nil
    simp only [Position.past_start_append]
    split
    · rw [Position.moved_right]
    · rfl
  | @cons l slice cs pieces hl h ih =>
    refine .cons ⟨rfl, fun hk => ?_⟩ ?_
    · simp only
      split
      · have hne : behind ≠ [] := by
          intro hnil
          refine hq hk hnil ?_
          rwa [List.head?_append_of_ne_nil _ hl.ne_nil]
        rw [List.dropLast_append_of_ne_nil hne, Position.past_start_append]
      · rw [Position.past_start_append]
    · rw [List.append_assoc]
      exact ih (fun _ hnil => absurd (List.append_eq_nil_iff.1 hnil).2 hl.ne_nil) _

end Placed

end KeyspaceQuery
