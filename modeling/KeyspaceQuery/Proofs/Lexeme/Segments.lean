import KeyspaceQuery.Proofs.Calls
import KeyspaceQuery.Proofs.Lexeme.Source
import KeyspaceQuery.Proofs.Lexeme.Spelling

/-! The lexer cuts its text into pieces. Which piece stands at the front of some characters, and
what lexeme it is, is told here by the characters alone: the longest run of blanks or of a word, a
string up to what ends it, or a single character. However a caller scans and peeks, it is given the
lexemes of these pieces in turn, and the characters of the text that are left over are all that the
lexer remembers. -/

namespace KeyspaceQuery

open Token (isBlank isWordStart isWordChar)

/-- What a word is, by its spelling. -/
inductive TokenKind.Names : TokenKind → String → Prop
  | keyword (k : Keyword) : Names (.keyword k) k.text
  | and : Names .and "AND"
  | or : Names .or "OR"
  | identifier {w} : w ≠ "AND" → w ≠ "OR" → (∀ k : Keyword, w ≠ k.text) → Names .identifier w

namespace Lexeme

/-- What may follow a backslash in a string, and what the pair stands for. -/
def pairs : List (Char × Char) := [('n', '\n'), ('t', '\t'), ('\\', '\\'), ('"', '"')]

/-- Characters between quotes, and the value they are written for. -/
inductive Denotes : List Char → List Char → Prop
  | nil : Denotes [] []
  | char {c cs value} : c ∉ ['"', '\n', '\\'] → Denotes cs value → Denotes (c :: cs) (c :: value)
  | pair {e d cs value} : (e, d) ∈ pairs → Denotes cs value →
    Denotes ('\\' :: e :: cs) (d :: value)

/-- The lexeme takes just these characters from the front of a text that goes on with `rest`. -/
inductive Takes : Lexeme → List Char → List Char → Prop
  | blanks {run rest} : run ≠ [] → (∀ c ∈ run, isBlank c) → (∀ c ∈ rest.head?, ¬ isBlank c) →
    Takes ⟨.whitespace, String.ofList run⟩ run rest
  | word {kind c run rest} : isWordStart c → (∀ d ∈ run, isWordChar d) →
    (∀ d ∈ rest.head?, ¬ isWordChar d) → kind.Names (String.ofList (c :: run)) →
    Takes ⟨kind, String.ofList (c :: run)⟩ (c :: run) rest
  | string {body value rest} : Denotes body value →
    Takes ⟨.str, String.ofList value⟩ ('"' :: (body ++ ['"'])) rest
  | lineFeed {body value rest} : Denotes body value →
    Takes ⟨.badString, String.ofList value⟩ ('"' :: (body ++ ['\n'])) rest
  /-- The text ends inside the string, and maybe inside a pair. -/
  | cutOff {body value stop} : Denotes body value → stop = [] ∨ stop = ['\\'] →
    Takes ⟨.badString, String.ofList value⟩ ('"' :: (body ++ stop)) []
  | badPair {body value c rest} : Denotes body value → c ∉ pairs.map Prod.fst →
    Takes ⟨.badEscape, String.ofList ['\\', c]⟩ ('"' :: (body ++ ['\\', c])) rest
  | dot {rest} : Takes ⟨.dot, ""⟩ ['.'] rest
  | comma {rest} : Takes ⟨.comma, ""⟩ [','] rest
  | semicolon {rest} : Takes ⟨.semicolon, ""⟩ [';'] rest
  | equal {rest} : Takes ⟨.equal, ""⟩ ['='] rest
  | illegal {c rest} : ¬ isBlank c → ¬ isWordStart c → c ∉ ['"', '.', ',', ';', '='] →
    Takes ⟨.illegal, String.ofList [c]⟩ [c] rest

end Lexeme

/-- The pieces of a text from its front to its end, each with its lexeme. -/
inductive Segments : List Char → List (Lexeme × List Char) → Prop
  | nil : Segments [] []
  | cons {l : Lexeme} {slice rest pieces} : l.Takes slice rest → Segments rest pieces →
    Segments (slice ++ rest) ((l, slice) :: pieces)

theorem TokenKind.names_iff {kind : TokenKind} {w : String} : kind.Names w ↔ ofWord w = kind := by
  refine ⟨?_, ?_⟩
  · intro h
    cases h with
    | keyword k => exact ofWord_text k
    | and => rfl
    | or => rfl
    | identifier hand hor hkeyword => exact ofWord_eq_identifier_iff.2 ⟨hand, hor, hkeyword⟩
  · rintro rfl
    by_cases hand : w = "AND"
    · subst hand
      exact .and
    · by_cases hor : w = "OR"
      · subst hor
        exact .or
      · by_cases hk : ∃ k : Keyword, w = k.text
        · obtain ⟨k, rfl⟩ := hk
          rw [ofWord_text]
          exact .keyword k
        · have hk : ∀ k : Keyword, w ≠ k.text := fun k h => hk ⟨k, h⟩
          rw [ofWord_eq_identifier_iff.2 ⟨hand, hor, hk⟩]
          exact .identifier hand hor hk

theorem TokenKind.Names.eq_text {k : Keyword} {w : String}
    (h : (TokenKind.keyword k).Names w) : w = k.text := by
  cases h
  rfl

namespace Lexeme

theorem unescape?_eq_some_iff {e d : Char} : Text.unescape? e = some d ↔ (e, d) ∈ pairs := by
  unfold Text.unescape?
  split <;> simp_all [pairs, eq_comm]

theorem unescape?_eq_none_iff {e : Char} : Text.unescape? e = none ↔ e ∉ pairs.map Prod.fst := by
  unfold Text.unescape?
  split <;> simp_all [pairs]

/-- What stands between the quotes goes into the value, whatever ends the string. -/
theorem quoted_denotes {body value : List Char} (h : Denotes body value) (cs : List Char) :
    quoted (body ++ cs) = ((value ++ (quoted cs).1.1, (quoted cs).1.2), (quoted cs).2) := by
  induction h with
  | nil => rfl
  | char hc _ ih =>
    simp only [List.mem_cons, List.not_mem_nil, or_false, not_or] at hc
    rw [List.cons_append, quoted_char hc.1 hc.2.1 hc.2.2, ih]
    rfl
  | pair he _ ih =>
    rw [List.cons_append, List.cons_append, quoted_pair (unescape?_eq_some_iff.2 he), ih]
    rfl

/-- What ends a string, and what is left of the text behind it. -/
inductive Stops : Source.StringEnd → List Char → List Char → Prop
  | closed {rest} : Stops .closed ['"'] rest
  | lineFeed {rest} : Stops .cutOff ['\n'] rest
  | endOfText : Stops .cutOff [] []
  | backslash : Stops .cutOff ['\\'] []
  | badPair {c rest} : c ∉ pairs.map Prod.fst → Stops (.badEscape c) ['\\', c] rest

theorem quoted_stops {e : Source.StringEnd} {stop rest : List Char} (h : Stops e stop rest) :
    quoted (stop ++ rest) = (([], e), rest) := by
  cases h with
  | closed => exact quoted_closing rest
  | lineFeed => exact quoted_newline rest
  | endOfText => rw [List.append_nil, quoted]
  | backslash => exact quoted_backslash
  | badPair hc => exact quoted_badPair (unescape?_eq_none_iff.2 hc) rest

theorem exists_stops (cs : List Char) : ∃ body stop, cs = body ++ (stop ++ (quoted cs).2) ∧
    Denotes body (quoted cs).1.1 ∧ Stops (quoted cs).1.2 stop (quoted cs).2 := by
  fun_induction quoted cs with
  | case1 => exact ⟨[], [], rfl, .nil, .endOfText⟩
  | case2 cs => exact ⟨[], ['"'], rfl, .nil, .closed⟩
  | case3 cs => exact ⟨[], ['\n'], rfl, .nil, .lineFeed⟩
  | case4 => exact ⟨[], ['\\'], rfl, .nil, .backslash⟩
  | case5 e cs he _ _ =>
    exact ⟨[], ['\\', e], rfl, .nil, .badPair (unescape?_eq_none_iff.1 he)⟩
  | case6 e cs d he value ending rest hq _ _ ih =>
    obtain ⟨body, stop, hcs, hbody, hstop⟩ := ih
    rw [hq] at hcs hbody hstop
    refine ⟨'\\' :: e :: body, stop, ?_, .pair (unescape?_eq_some_iff.1 he) hbody, hstop⟩
    rw [hcs]
    rfl
  | case7 c cs hc hn hb value ending rest hq ih =>
    obtain ⟨body, stop, hcs, hbody, hstop⟩ := ih
    rw [hq] at hcs hbody hstop
    refine ⟨c :: body, stop, ?_, .char (by simp [hc, hn, hb]) hbody, hstop⟩
    rw [hcs]
    rfl

/-- A string is cut off where its value ends. -/
theorem cut_string {e : Source.StringEnd} {body value stop rest : List Char}
    (h : Denotes body value) (hstop : Stops e stop rest) :
    cut '"' (body ++ stop ++ rest) =
      (⟨e.kind, Source.stringLiteral (value, e)⟩, rest) := by
  have hq : quoted (body ++ stop ++ rest) = ((value, e), rest) := by
    rw [List.append_assoc, quoted_denotes h, quoted_stops hstop, List.append_nil]
  rw [cut_quote, hq]

theorem cut_of_takes {l : Lexeme} {slice rest : List Char} (h : l.Takes slice rest) :
    ∃ c cs, slice = c :: cs ∧ cut c (cs ++ rest) = (l, rest) := by
  cases h with
  | @blanks run _ hne hrun hrest =>
    obtain ⟨c, cs, rfl⟩ := List.exists_cons_of_ne_nil hne
    obtain ⟨hc, hcs⟩ := List.forall_mem_cons.1 hrun
    refine ⟨c, cs, rfl, ?_⟩
    rw [cut_blank hc, takeWhile_run hcs hrest, dropWhile_run hcs hrest]
  | @word kind c run _ hc hrun hrest hname =>
    refine ⟨c, run, rfl, ?_⟩
    rw [cut_word hc, takeWhile_run hrun hrest, dropWhile_run hrun hrest,
      TokenKind.names_iff.1 hname]
  | string h => exact ⟨'"', _, rfl, cut_string h .closed⟩
  | lineFeed h => exact ⟨'"', _, rfl, cut_string h .lineFeed⟩
  | cutOff h hstop =>
    rcases hstop with rfl | rfl
    · exact ⟨'"', _, rfl, cut_string h .endOfText⟩
    · exact ⟨'"', _, rfl, cut_string h .backslash⟩
  | badPair h hc => exact ⟨'"', _, rfl, cut_string h (.badPair hc)⟩
  | dot => exact ⟨'.', [], rfl, cut_symbol (by decide) (by decide) (by decide) _⟩
  | comma => exact ⟨',', [], rfl, cut_symbol (by decide) (by decide) (by decide) _⟩
  | semicolon => exact ⟨';', [], rfl, cut_symbol (by decide) (by decide) (by decide) _⟩
  | equal => exact ⟨'=', [], rfl, cut_symbol (by decide) (by decide) (by decide) _⟩
  | @illegal c _ hb hw hc =>
    simp only [List.mem_cons, List.not_mem_nil, or_false, not_or] at hc
    obtain ⟨hq, hdot, hcomma, hsemi, heq⟩ := hc
    refine ⟨c, [], rfl, ?_⟩
    rw [List.nil_append, cut_symbol hb hw hq]
    unfold symbol
    split <;> simp_all

theorem takes_symbol {c : Char} (hb : ¬ isBlank c) (hw : ¬ isWordStart c) (hq : c ≠ '"')
    (rest : List Char) : (symbol c).Takes [c] rest := by
  unfold symbol
  split
  · exact .dot
  · exact .comma
  · exact .semicolon
  · exact .equal
  · exact .illegal hb hw (by simp_all)

/-- Something can always be cut off, and it is a piece. -/
theorem exists_takes_cut (c : Char) (cs : List Char) :
    ∃ slice, c :: cs = slice ++ (cut c cs).2 ∧ (cut c cs).1.Takes slice (cut c cs).2 := by
  induction c using cut_cases with
  | blank c h =>
    rw [cut_blank h]
    refine ⟨c :: cs.takeWhile isBlank, ?_, .blanks (List.cons_ne_nil _ _) ?_ ?_⟩
    · rw [List.cons_append, List.takeWhile_append_dropWhile]
    · exact List.forall_mem_cons.2 ⟨h, List.all_eq_true.1 List.all_takeWhile⟩
    · exact not_head_dropWhile _ _
  | word c h =>
    rw [cut_word h]
    refine ⟨c :: cs.takeWhile isWordChar, ?_, .word h ?_ ?_ (TokenKind.names_iff.2 rfl)⟩
    · rw [List.cons_append, List.takeWhile_append_dropWhile]
    · exact List.all_eq_true.1 List.all_takeWhile
    · exact not_head_dropWhile _ _
  | quote =>
    rw [cut_quote]
    obtain ⟨body, stop, hcs, hbody, hstop⟩ := exists_stops cs
    generalize quoted cs = q at hcs hbody hstop
    obtain ⟨⟨value, ending⟩, rest⟩ := q
    simp only at hcs hbody hstop
    refine ⟨'"' :: (body ++ stop), by rw [hcs]; simp, ?_⟩
    cases hstop with
    | closed => exact .string hbody
    | lineFeed => exact .lineFeed hbody
    | endOfText => exact .cutOff hbody (.inl rfl)
    | backslash => exact .cutOff hbody (.inr rfl)
    | badPair hc => exact .badPair hbody hc
  | symbol c hb hw hq =>
    rw [cut_symbol hb hw hq]
    exact ⟨[c], rfl, takes_symbol hb hw hq cs⟩

/-- Of some characters there is one piece that can be taken from their front. -/
theorem existsUnique_takes (c : Char) (cs : List Char) :
    ∃! p : Lexeme × List Char × List Char, c :: cs = p.2.1 ++ p.2.2 ∧ p.1.Takes p.2.1 p.2.2 := by
  obtain ⟨slice, hslice, htakes⟩ := exists_takes_cut c cs
  refine ⟨((cut c cs).1, slice, (cut c cs).2), ⟨hslice, htakes⟩, ?_⟩
  rintro ⟨l, slice', rest'⟩ ⟨hslice', htakes'⟩
  simp only at hslice' htakes'
  obtain ⟨d, ds, rfl, hcut⟩ := cut_of_takes htakes'
  rw [List.cons_append, List.cons.injEq] at hslice'
  obtain ⟨rfl, rfl⟩ := hslice'
  rw [hcut] at hslice ⊢
  obtain rfl : c :: ds = slice := List.append_cancel_right hslice
  rfl

end Lexeme

section Segments

variable {cs : List Char} {pieces : List (Lexeme × List Char)}

theorem Lexeme.Takes.ne_nil {l : Lexeme} {slice rest : List Char} (h : l.Takes slice rest) :
    slice ≠ [] := by
  obtain ⟨c, cs, rfl, -⟩ := cut_of_takes h
  exact List.cons_ne_nil c cs

theorem Lexeme.Takes.kind_ne_endOfInput {l : Lexeme} {slice rest : List Char}
    (h : l.Takes slice rest) : l.kind ≠ .endOfInput := by
  obtain ⟨c, cs, -, hcut⟩ := cut_of_takes h
  have := kind_cut_ne_endOfInput c (cs ++ rest)
  rwa [hcut] at this

theorem Segments.kind_ne_endOfInput (h : Segments cs pieces) :
    ∀ l ∈ pieces.map Prod.fst, l.kind ≠ .endOfInput := by
  induction h with
  | nil => exact List.forall_mem_nil _
  | cons hl _ ih => exact List.forall_mem_cons.2 ⟨hl.kind_ne_endOfInput, ih⟩

theorem Segments.ne_nil (h : Segments cs pieces) : ∀ p ∈ pieces, p.2 ≠ [] := by
  induction h with
  | nil => exact List.forall_mem_nil _
  | cons hl _ ih => exact List.forall_mem_cons.2 ⟨hl.ne_nil, ih⟩

theorem Segments.flatMap_eq (h : Segments cs pieces) : pieces.flatMap Prod.snd = cs := by
  induction h with
  | nil => rfl
  | cons _ _ ih => rw [List.flatMap_cons, ih]

theorem Segments.length_le (h : Segments cs pieces) : pieces.length ≤ cs.length := by
  induction h with
  | nil => exact Nat.le_refl 0
  | cons hl _ ih =>
    have := List.length_pos_iff.2 hl.ne_nil
    rw [List.length_cons, List.length_append]
    omega

theorem Lexeme.stopsAt_semicolon (l : Lexeme) (ds : List Char) : l.StopsAt (';' :: ds) := by
  refine ⟨fun _ c hc => ?_, fun _ c hc => ?_⟩
  · cases hc
    decide
  · cases hc
    decide

/-- What is added to a text changes none of its pieces, but for a run that goes on into it and a
string that is still open. -/
theorem Lexeme.Takes.append {l : Lexeme} {slice rest ds : List Char} (h : l.Takes slice rest)
    (hstop : rest = [] → l.StopsAt ds) : l.Takes slice (rest ++ ds) ∨
      rest = [] ∧ l.kind = .badString ∧ slice.head? = some '"' := by
  have hhead {P : Char → Prop} (hrest : ∀ c ∈ rest.head?, P c)
      (hds : rest = [] → ∀ c ∈ ds.head?, P c) : ∀ c ∈ (rest ++ ds).head?, P c := by
    cases rest with
    | nil => exact hds rfl
    | cons d rest => exact hrest
  cases h with
  | blanks hne hrun hrest =>
    exact .inl (.blanks hne hrun (hhead hrest fun hnil => (hstop hnil).2 rfl))
  | @word kind c run _ hc hrun hrest hname =>
    have hkind : kind.isWord := TokenKind.names_iff.1 hname ▸ TokenKind.isWord_ofWord _
    exact .inl (.word hc hrun (hhead hrest fun hnil => (hstop hnil).1 hkind) hname)
  | string h => exact .inl (.string h)
  | lineFeed h => exact .inl (.lineFeed h)
  | cutOff h _ => exact .inr ⟨rfl, rfl, rfl⟩
  | badPair h hc => exact .inl (.badPair h hc)
  | dot => exact .inl .dot
  | comma => exact .inl .comma
  | semicolon => exact .inl .semicolon
  | equal => exact .inl .equal
  | illegal hb hw hc => exact .inl (.illegal hb hw hc)

/-- A semicolon ends what stands before it, if that is whole. -/
theorem Lexeme.Takes.append_semicolon {l : Lexeme} {slice rest : List Char}
    (h : l.Takes slice rest) (hl : l.Spelled) (ds : List Char) :
    l.Takes slice (rest ++ ';' :: ds) := by
  refine (h.append fun _ => stopsAt_semicolon l ds).resolve_right fun hopen => ?_
  exact not_isBroken_of_spelled hl (.inl hopen.2.1)

theorem Segments.append_semicolon {ds : List Char} {pieces' : List (Lexeme × List Char)}
    (h : Segments cs pieces) (hs : ∀ l ∈ pieces.map Prod.fst, l.Spelled)
    (h' : Segments ds pieces') :
    Segments (cs ++ ';' :: ds) (pieces ++ (⟨.semicolon, ""⟩, [';']) :: pieces') := by
  induction h with
  | nil => exact .cons .semicolon h'
  | cons hl _ ih =>
    obtain ⟨hlexeme, hs⟩ := List.forall_mem_cons.1 hs
    rw [List.append_assoc]
    exact .cons (hl.append_semicolon hlexeme ds) (ih hs)

/-- The lexemes of a text are those of its pieces, and the end of the input. -/
theorem exists_segments (cs : List Char) : ∃ pieces, Segments cs pieces ∧
    lexemes cs = pieces.map Prod.fst ++ [.eof] := by
  fun_induction lexemes cs with
  | case1 => exact ⟨[], .nil, rfl⟩
  | case2 c cs ih =>
    obtain ⟨pieces, hpieces, hls⟩ := ih
    obtain ⟨slice, hslice, htakes⟩ := Lexeme.exists_takes_cut c cs
    rw [hslice, hls]
    exact ⟨_, .cons htakes hpieces, rfl⟩

end Segments

namespace Source

/-- What may be asked of a lexer, and what it answers. -/
inductive Call
  | scan | peek
  deriving DecidableEq, Repr

inductive Reply
  | token (t : Token)
  | char (c : Option Char)
  deriving DecidableEq, Repr

/-- Only a scan moves the source. -/
def reply : Call → Source → Except Fault (Reply × Source)
  | .scan, r => do
    let (t, s) ← r.nextToken
    return (.token t, s)
  | .peek, r => .ok (.char r.peek, r)

/-- The replies to calls while the first characters are left of the text, and what is left then. -/
inductive Answers : List Char → List Call → List Reply → List Char → Prop
  | done {cs} : Answers cs [] [] cs
  | peek {cs calls replies rest} : Answers cs calls replies rest →
    Answers cs (.peek :: calls) (.char cs.head? :: replies) rest
  | scan {t slice cs calls replies rest} : t.lexeme.Takes slice cs →
    Answers cs calls replies rest →
    Answers (slice ++ cs) (.scan :: calls) (.token t :: replies) rest
  | ended {t calls replies rest} : t.lexeme = .eof → Answers [] calls replies rest →
    Answers [] (.scan :: calls) (.token t :: replies) rest

theorem peek_of_ready {r : Source} (h : r.Ready) : r.peek = r.remaining.head? := by
  rcases h with hu | ⟨hu, hc⟩
  · rw [peek, remaining, hu]
  · obtain ⟨c, hc⟩ := Option.isSome_iff_exists.1 hc
    rw [peek, remaining, hu]
    simp [hc]

theorem reply_scan {r s : Source} {t : Token} (h : r.nextToken = .ok (t, s)) :
    reply .scan r = .ok (.token t, s) := by
  simp only [reply, h]
  rfl

/-- From a ready source every call is answered by what remains of the text, and nothing else. -/
theorem serve_of_ready (calls : List Call) {r : Source} (h : r.Ready) : ∃ replies s,
    serve reply calls r = .ok (replies, s) ∧ s.Ready ∧
      Answers r.remaining calls replies s.remaining := by
  induction calls generalizing r with
  | nil => exact ⟨[], r, rfl, h, .done⟩
  | cons call calls ih =>
    cases call with
    | peek =>
      obtain ⟨replies, s, hs, hready, hanswers⟩ := ih h
      refine ⟨.char r.peek :: replies, s, serve_cons rfl hs, hready, ?_⟩
      rw [peek_of_ready h]
      exact .peek hanswers
    | scan =>
      cases hcs : r.remaining with
      | nil =>
        obtain ⟨t, s, hs, ht, hspent⟩ := nextToken_of_remaining_nil h hcs
        obtain ⟨replies, last, hlast, hready, hanswers⟩ := ih (r := s) (.none hspent.undone)
        rw [remaining_of_spent hspent] at hanswers
        exact ⟨.token t :: replies, last, serve_cons (reply_scan hs) hlast, hready,
          .ended ht hanswers⟩
      | cons c cs =>
        obtain ⟨t, s, hs, ht, hsready, hrest⟩ := nextToken_of_remaining_cons h hcs
        obtain ⟨replies, last, hlast, hready, hanswers⟩ := ih hsready
        refine ⟨.token t :: replies, last, serve_cons (reply_scan hs) hlast, hready, ?_⟩
        obtain ⟨slice, hslice, htakes⟩ := Lexeme.exists_takes_cut c cs
        rw [hrest] at hanswers
        rw [hslice]
        exact .scan (ht ▸ htakes) hanswers

theorem Answers.suffix {cs rest : List Char} {calls : List Call} {replies : List Reply}
    (h : Answers cs calls replies rest) : rest <:+ cs := by
  induction h with
  | done => exact List.suffix_refl _
  | peek _ ih => exact ih
  | scan _ _ ih => exact ih.trans (List.suffix_append _ _)
  | ended _ _ ih => exact ih

end Source

/-- All tokens of a text are those of its pieces, and one end of the input behind them. -/
theorem lex_eq_segments (text : String) : ∃ ts z pieces, lex text = .ok (ts ++ [z]) ∧
    z.lexeme = .eof ∧ Segments text.toList pieces ∧ ts.map Token.lexeme = pieces.map Prod.fst := by
  obtain ⟨-, us, hlex, -, -, hus⟩ := Source.emits_of_ready (Source.ready_ofString text)
  obtain ⟨pieces, hpieces, hls⟩ := exists_segments text.toList
  rw [Source.remaining_ofString, hls] at hus
  obtain ⟨ts, zs, rfl, hts, hzs⟩ := List.map_eq_append_iff.1 hus
  obtain ⟨z, rfl⟩ := List.length_eq_one_iff.1 (by simpa using congrArg List.length hzs)
  exact ⟨ts, z, pieces, hlex, by simpa using hzs, hpieces, hts⟩

/-- The lexer remembers what is left of its text and nothing else. Each call is answered by the
piece at the front of that, of which there is just one, so that all tokens but the last are those of
the pieces of the text, and the last one is the end of the input. -/
theorem lexer_segments_text (text : String) :
    (∀ calls, ∃ replies r, serve Source.reply calls (.ofString text) = .ok (replies, r) ∧
      Source.Answers text.toList calls replies r.remaining ∧ r.remaining <:+ text.toList ∧
      r.peek = r.remaining.head?) ∧
    (∀ c cs, ∃! p : Lexeme × List Char × List Char,
      c :: cs = p.2.1 ++ p.2.2 ∧ p.1.Takes p.2.1 p.2.2) ∧
    ∃ ts z pieces, lex text = .ok (ts ++ [z]) ∧ z.lexeme = .eof ∧
      Segments text.toList pieces ∧ ts.map Token.lexeme = pieces.map Prod.fst ∧
      (∀ t ∈ ts, t.kind ≠ .endOfInput) ∧ ts.length ≤ text.toList.length ∧
      (∀ p ∈ pieces, p.2 ≠ []) ∧ pieces.flatMap Prod.snd = text.toList := by
  refine ⟨fun calls => ?_, Lexeme.existsUnique_takes, ?_⟩
  · obtain ⟨replies, r, hr, hready, hanswers⟩ :=
      Source.serve_of_ready calls (Source.ready_ofString text)
    exact ⟨replies, r, hr, hanswers, hanswers.suffix, Source.peek_of_ready hready⟩
  · obtain ⟨ts, z, pieces, hlex, hz, hpieces, hts⟩ := lex_eq_segments text
    have hlength := congrArg List.length hts
    simp only [List.length_map] at hlength
    refine ⟨ts, z, pieces, hlex, hz, hpieces, hts, ?_, hlength ▸ hpieces.length_le, hpieces.ne_nil,
      hpieces.flatMap_eq⟩
    intro t ht
    exact hpieces.kind_ne_endOfInput t.lexeme (hts ▸ List.mem_map_of_mem ht)

end KeyspaceQuery
