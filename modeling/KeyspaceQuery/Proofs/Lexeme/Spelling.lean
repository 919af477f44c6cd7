import KeyspaceQuery.Proofs.Lexeme

/-! Which lists of lexemes come from a text. A lexeme is spelled if its literal is one that its kind
can have, and two neighbours are apart if no run goes over from one to the other. The lexemes of a
text are apart, and spelled where they are not broken off. Conversely spelled lexemes that are apart
are the lexemes of their spellings one after the other. -/

namespace KeyspaceQuery

open Token (isBlank isWordStart isWordChar)

def IsWord (w : String) : Prop :=
  ∃ c cs, w.toList = c :: cs ∧ isWordStart c ∧ ∀ d ∈ cs, isWordChar d

def isWord : List Char → Bool
  | [] => false
  | c :: cs => isWordStart c && cs.all isWordChar

theorem isWord_iff {w : String} : isWord w.toList ↔ IsWord w := by
  unfold IsWord
  rcases w.toList with _ | ⟨c, cs⟩
  · exact ⟨nofun, nofun⟩
  · simp [isWord]

instance (w : String) : Decidable (IsWord w) := decidable_of_iff _ isWord_iff

theorem Keyword.isWord_text (k : Keyword) : IsWord k.text := by
  cases k <;> decide

/-- A word that is not reserved. -/
structure IsIdentifier (w : String) : Prop where
  isWord : IsWord w
  ne_and : w ≠ "AND"
  ne_or : w ≠ "OR"
  ne_keyword : ∀ k : Keyword, w ≠ k.text

theorem Keyword.mem_all (k : Keyword) : k ∈ all := by cases k <;> decide

theorem TokenKind.ofWord_eq_identifier_iff {w : String} :
    ofWord w = .identifier ↔ w ≠ "AND" ∧ w ≠ "OR" ∧ ∀ k : Keyword, w ≠ k.text := by
  unfold ofWord
  split
  · simp_all
  · split
    · simp_all
    · split
      · rename_i k hk
        have := List.find?_some hk
        simp only [decide_eq_true_eq] at this
        simp only [reduceCtorEq, false_iff, not_and]
        exact fun _ _ h => h k this.symm
      · rename_i hk
        simp only [List.find?_eq_none, decide_eq_true_eq] at hk
        simp only [true_iff]
        exact ⟨‹_›, ‹_›, fun k h => hk k k.mem_all h.symm⟩

theorem TokenKind.ofWord_text (k : Keyword) : ofWord k.text = .keyword k := by
  cases k <;> decide

namespace Lexeme

/-- The characters a lexeme is written with. -/
def spelling (l : Lexeme) : List Char :=
  match l.kind with
  | .dot => ['.']
  | .comma => [',']
  | .semicolon => [';']
  | .equal => ['=']
  | .str => (Text.quote l.literal).toList
  | _ => l.literal.toList

/-- The literal is one that the kind can have. Broken strings, illegal characters and the end of the
input are not spelled. -/
def Spelled (l : Lexeme) : Prop :=
  match l.kind with
  | .whitespace => ∃ c cs, l.literal.toList = c :: cs ∧ isBlank c ∧ ∀ d ∈ cs, isBlank d
  | .dot | .comma | .semicolon | .equal => l.literal = ""
  | .and | .or | .keyword _ | .identifier => IsWord l.literal ∧ .ofWord l.literal = l.kind
  | .str => True
  | _ => False

/-- Lexemes of these kinds stop a parser wherever they stand. -/
def IsBroken (l : Lexeme) : Prop :=
  l.kind = .badString ∨ l.kind = .badEscape ∨ l.kind = .illegal

/-- No run of characters goes on from the first lexeme into the second one. -/
def Apart (a b : Lexeme) : Prop :=
  ¬ (a.kind.isWord ∧ b.kind.isWord) ∧ ¬ (a.kind = .whitespace ∧ b.kind = .whitespace)

/-- The characters do not go on with the run that the lexeme is. -/
def StopsAt (l : Lexeme) (cs : List Char) : Prop :=
  (l.kind.isWord → ∀ c ∈ cs.head?, ¬ isWordChar c) ∧
    (l.kind = .whitespace → ∀ c ∈ cs.head?, ¬ isBlank c)

theorem stopsAt_nil (l : Lexeme) : l.StopsAt [] := ⟨fun _ => by simp, fun _ => by simp⟩

def space : Lexeme := ⟨.whitespace, " "⟩

theorem spelled_space : space.Spelled := ⟨' ', [], rfl, rfl, by simp⟩

theorem spelled_keyword (k : Keyword) : (⟨.keyword k, k.text⟩ : Lexeme).Spelled :=
  ⟨k.isWord_text, TokenKind.ofWord_text k⟩

theorem apart_space {l : Lexeme} (h : l.kind ≠ .whitespace) : l.Apart space :=
  ⟨fun hw => absurd hw.2 (by decide), fun hb => h hb.1⟩

theorem space_apart {l : Lexeme} (h : l.kind ≠ .whitespace) : space.Apart l :=
  ⟨fun hw => absurd hw.1 (by decide), fun hb => h hb.2⟩

theorem not_isWordChar_of_isBlank {c : Char} (h : isBlank c) : isWordChar c = false := by
  simp only [isBlank, Bool.or_eq_true, beq_iff_eq] at h
  rcases h with ((rfl | rfl) | rfl) | rfl <;> decide

theorem not_isBlank_of_isWordStart {c : Char} (h : isWordStart c) : isBlank c = false := by
  cases hb : isBlank c with
  | false => rfl
  | true =>
    have := Token.isWordChar_of_isWordStart h
    rw [not_isWordChar_of_isBlank hb] at this
    cases this

theorem not_head_dropWhile (p : Char → Bool) (cs : List Char) :
    ∀ c ∈ (cs.dropWhile p).head?, ¬ p c := by
  intro c hc
  have := List.head?_dropWhile_not p cs
  rw [Option.mem_def] at hc
  rw [hc] at this
  simp [this]

theorem kind_stringEnd (e : Source.StringEnd) :
    e.kind = .str ∨ e.kind = .badString ∨ e.kind = .badEscape := by
  cases e
  · exact .inl rfl
  · exact .inr (.inl rfl)
  · exact .inr (.inr rfl)

theorem kind_symbol (c : Char) : (symbol c).kind = .illegal ∨ (symbol c).Spelled := by
  unfold symbol
  split
  · exact .inr rfl
  · exact .inr rfl
  · exact .inr rfl
  · exact .inr rfl
  · exact .inl rfl

theorem spelled_of_isWord {l : Lexeme} (hk : l.kind.isWord) (hw : IsWord l.literal)
    (ho : .ofWord l.literal = l.kind) : l.Spelled := by
  unfold Spelled
  split <;> simp_all [TokenKind.isWord]

theorem cut_blank {c : Char} (h : isBlank c) (cs : List Char) :
    cut c cs =
      (⟨.whitespace, String.ofList (c :: cs.takeWhile isBlank)⟩, cs.dropWhile isBlank) := by
  simp [cut, h]

theorem cut_word {c : Char} (h : isWordStart c) (cs : List Char) :
    cut c cs =
      (⟨.ofWord (String.ofList (c :: cs.takeWhile isWordChar)),
        String.ofList (c :: cs.takeWhile isWordChar)⟩, cs.dropWhile isWordChar) := by
  simp [cut, h, not_isBlank_of_isWordStart h]

theorem cut_quote (cs : List Char) :
    cut '"' cs =
      (⟨(quoted cs).1.2.kind, Source.stringLiteral (quoted cs).1⟩, (quoted cs).2) := by
  have hb : isBlank '"' = false := by decide
  have hw : isWordStart '"' = false := by decide
  simp [cut, hb, hw]

theorem cut_symbol {c : Char} (hb : ¬ isBlank c) (hw : ¬ isWordStart c) (hq : c ≠ '"')
    (cs : List Char) : cut c cs = (symbol c, cs) := by
  simp [cut, hb, hw, hq]

/-- The lexeme that starts with a character is a run of blanks, a word, a string or a symbol. -/
theorem cut_cases {P : Char → Prop} (blank : ∀ c, isBlank c → P c) (word : ∀ c, isWordStart c → P c)
    (quote : P '"') (symbol : ∀ c, ¬ isBlank c → ¬ isWordStart c → c ≠ '"' → P c) (c : Char) :
    P c := by
  by_cases hb : isBlank c
  · exact blank c hb
  · by_cases hw : isWordStart c
    · exact word c hw
    · by_cases hq : c = '"'
      · exact hq ▸ quote
      · exact symbol c hb hw hq

theorem not_isBroken_of_spelled {l : Lexeme} (h : l.Spelled) : ¬ l.IsBroken := by
  rintro (hk | hk | hk) <;> simp [Spelled, hk] at h

/-- What `cut` takes is whole. -/
theorem stopsAt_cut (c : Char) (cs : List Char) : (cut c cs).1.StopsAt (cut c cs).2 := by
  induction c using cut_cases with
  | blank c h =>
    rw [cut_blank h]
    exact ⟨nofun, fun _ => not_head_dropWhile _ _⟩
  | word c h =>
    rw [cut_word h]
    exact ⟨fun _ => not_head_dropWhile _ _, fun hk => absurd hk (TokenKind.ofWord_ne rfl _)⟩
  | quote =>
    rw [cut_quote]
    rcases kind_stringEnd (quoted cs).1.2 with h | h | h <;>
      exact ⟨fun hk => by simp [h, TokenKind.isWord] at hk, fun hk => by simp [h] at hk⟩
  | symbol c hb hw hq =>
    rw [cut_symbol hb hw hq]
    unfold symbol
    split <;> exact ⟨nofun, nofun⟩

theorem spelled_cut (c : Char) (cs : List Char) :
    (cut c cs).1.IsBroken ∨ (cut c cs).1.Spelled := by
  induction c using cut_cases with
  | blank c h =>
    rw [cut_blank h]
    refine .inr ⟨c, cs.takeWhile isBlank, by simp, h, ?_⟩
    exact List.all_eq_true.1 List.all_takeWhile
  | word c h =>
    rw [cut_word h]
    have hw : ∀ d ∈ cs.takeWhile isWordChar, isWordChar d :=
      List.all_eq_true.1 List.all_takeWhile
    exact .inr (spelled_of_isWord (TokenKind.isWord_ofWord _) ⟨c, _, by simp, h, hw⟩ rfl)
  | quote =>
    rw [cut_quote]
    rcases kind_stringEnd (quoted cs).1.2 with h | h | h
    · exact .inr (by simp [Spelled, h])
    · exact .inl (.inl h)
    · exact .inl (.inr (.inl h))
  | symbol c hb hw hq =>
    rw [cut_symbol hb hw hq]
    exact (kind_symbol c).imp (fun h => .inr (.inr h)) id

/-- The kind of a run tells how it begins. -/
theorem head_of_cut (c : Char) (cs : List Char) :
    ((cut c cs).1.kind.isWord → isWordChar c) ∧ ((cut c cs).1.kind = .whitespace → isBlank c) := by
  induction c using cut_cases with
  | blank c h =>
    rw [cut_blank h]
    exact ⟨nofun, fun _ => h⟩
  | word c h =>
    rw [cut_word h]
    exact ⟨fun _ => Token.isWordChar_of_isWordStart h,
      fun hk => absurd hk (TokenKind.ofWord_ne rfl _)⟩
  | quote =>
    rw [cut_quote]
    rcases kind_stringEnd (quoted cs).1.2 with h | h | h <;>
      exact ⟨fun hk => by simp [h, TokenKind.isWord] at hk, fun hk => by simp [h] at hk⟩
  | symbol c hb hw hq =>
    rw [cut_symbol hb hw hq]
    unfold symbol
    split <;> exact ⟨nofun, nofun⟩

/-- A character between quotes is written as a pair that stands for it, or as itself. -/
theorem escape_cases (c : Char) :
    (∃ e, Text.escape c = ['\\', e] ∧ Text.unescape? e = some c) ∨
      Text.escape c = [c] ∧ c ≠ '"' ∧ c ≠ '\n' ∧ c ≠ '\\' := by
  unfold Text.escape
  split
  · exact .inl ⟨_, rfl, rfl⟩
  · exact .inl ⟨_, rfl, rfl⟩
  · exact .inl ⟨_, rfl, rfl⟩
  · exact .inl ⟨_, rfl, rfl⟩
  · exact .inr ⟨rfl, ‹_›, ‹_›, ‹_›⟩

/-- A quoted value is read back up to its closing quote. -/
theorem quoted_escape (value rest : List Char) :
    quoted (value.flatMap Text.escape ++ '"' :: rest) = ((value, .closed), rest) := by
  induction value with
  | nil => exact quoted_closing rest
  | cons c value ih =>
    rw [List.flatMap_cons, List.append_assoc]
    rcases escape_cases c with ⟨e, he, hd⟩ | ⟨he, hq, hn, hb⟩
    · rw [he, List.cons_append, List.singleton_append, quoted_pair hd, ih]
    · rw [he, List.singleton_append, quoted_char hq hn hb, ih]

theorem takeWhile_run {p : Char → Bool} {cs rest : List Char} (hcs : ∀ c ∈ cs, p c)
    (hrest : ∀ c ∈ rest.head?, ¬ p c) : (cs ++ rest).takeWhile p = cs := by
  rw [List.takeWhile_append_of_pos hcs]
  rcases rest with _ | ⟨d, ds⟩
  · simp
  · rw [List.takeWhile_cons_of_neg (hrest d rfl), List.append_nil]

theorem dropWhile_run {p : Char → Bool} {cs rest : List Char} (hcs : ∀ c ∈ cs, p c)
    (hrest : ∀ c ∈ rest.head?, ¬ p c) : (cs ++ rest).dropWhile p = rest := by
  rw [List.dropWhile_append_of_pos hcs]
  rcases rest with _ | ⟨d, ds⟩
  · rfl
  · rw [List.dropWhile_cons_of_neg (hrest d rfl)]

theorem ofList_eq_of_toList {s : String} {cs : List Char} (h : s.toList = cs) :
    String.ofList cs = s := by
  rw [← h, String.ofList_toList]

/-- Characters that begin with the spelling of the lexeme, and do not go on with it, are cut behind
it. -/
def IsCutOff (l : Lexeme) : Prop :=
  ∃ c cs, l.spelling = c :: cs ∧ ∀ rest, l.StopsAt rest → cut c (cs ++ rest) = (l, rest)

theorem isCutOff_symbol {l : Lexeme} {c : Char} (hs : l.spelling = [c]) (hc : symbol c = l)
    (hb : isBlank c = false) (hw : isWordStart c = false) (hq : c ≠ '"') : l.IsCutOff := by
  refine ⟨c, [], hs, fun rest _ => ?_⟩
  rw [List.nil_append, cut_symbol (by simp [hb]) (by simp [hw]) hq, hc]

theorem isCutOff_word {l : Lexeme} (hs : l.spelling = l.literal.toList) (hk : l.kind.isWord)
    (hw : IsWord l.literal) (ho : .ofWord l.literal = l.kind) : l.IsCutOff := by
  obtain ⟨c, cs, hl, hc, hcs⟩ := hw
  refine ⟨c, cs, hs.trans hl, fun rest hstop => ?_⟩
  rw [cut_word hc, takeWhile_run hcs (hstop.1 hk), dropWhile_run hcs (hstop.1 hk),
    ofList_eq_of_toList hl, ho]

theorem isCutOff_blank {w : String} (h : (⟨.whitespace, w⟩ : Lexeme).Spelled) :
    (⟨.whitespace, w⟩ : Lexeme).IsCutOff := by
  obtain ⟨c, cs, hl, hc, hcs⟩ := h
  refine ⟨c, cs, hl, fun rest hstop => ?_⟩
  rw [cut_blank hc, takeWhile_run hcs (hstop.2 rfl), dropWhile_run hcs (hstop.2 rfl),
    ofList_eq_of_toList hl]

theorem isCutOff_str (value : String) : (⟨.str, value⟩ : Lexeme).IsCutOff := by
  refine ⟨'"', value.toList.flatMap Text.escape ++ ['"'], by simp [spelling, Text.quote],
    fun rest _ => ?_⟩
  rw [cut_quote, List.append_assoc, List.singleton_append, quoted_escape]
  simp [Source.stringLiteral, Source.StringEnd.kind]

theorem isCutOff_of_spelled {l : Lexeme} (h : l.Spelled) : l.IsCutOff := by
  obtain ⟨kind, literal⟩ := l
  cases kind with
  | whitespace => exact isCutOff_blank h
  | dot | comma | semicolon | equal =>
    cases h
    exact isCutOff_symbol rfl rfl (by decide) (by decide) (by decide)
  | and | or | keyword | identifier => exact isCutOff_word rfl rfl h.1 h.2
  | str => exact isCutOff_str literal
  | badString | badEscape | illegal | endOfInput => cases h

/-- What a spelled lexeme begins with tells its kind. -/
theorem kind_of_head {c : Char} {cs : List Char} (h : (cut c cs).1.kind ≠ .illegal) :
    (isWordChar c → (cut c cs).1.kind.isWord) ∧ (isBlank c → (cut c cs).1.kind = .whitespace) := by
  induction c using cut_cases with
  | blank c hb =>
    rw [cut_blank hb]
    exact ⟨fun hw => by simp [not_isWordChar_of_isBlank hb] at hw, fun _ => rfl⟩
  | word c hw =>
    rw [cut_word hw]
    refine ⟨fun _ => TokenKind.isWord_ofWord _, fun hb => ?_⟩
    rw [not_isBlank_of_isWordStart hw] at hb
    cases hb
  | quote => exact ⟨fun hw => absurd hw (by decide), fun hb => absurd hb (by decide)⟩
  | symbol c hb hw hq =>
    rw [cut_symbol hb hw hq] at h ⊢
    refine ⟨fun hc => ?_, fun hc => absurd hc hb⟩
    unfold symbol at h
    split at h
    · exact absurd hc (by decide)
    · exact absurd hc (by decide)
    · exact absurd hc (by decide)
    · exact absurd hc (by decide)
    · exact absurd rfl h

/-- A lexeme stops where the spelling of one that is apart from it begins. -/
theorem stopsAt_spelling {l m : Lexeme} (hm : m.Spelled) (h : l.Apart m) (cs : List Char) :
    l.StopsAt (m.spelling ++ cs) := by
  obtain ⟨d, ds, hd, hcut⟩ := isCutOff_of_spelled hm
  have hcut := hcut [] m.stopsAt_nil
  have hk : (cut d (ds ++ [])).1.kind ≠ .illegal → _ := kind_of_head
  rw [hcut] at hk
  have hk := hk fun hi => not_isBroken_of_spelled hm (.inr (.inr hi))
  have hhead : ∀ c ∈ (m.spelling ++ cs).head?, c = d := by
    rw [hd]
    exact fun c hc => (Option.some.inj hc).symm
  exact ⟨fun hl c hc hw => h.1 ⟨hl, hk.1 (hhead c hc ▸ hw)⟩,
    fun hl c hc hb => h.2 ⟨hl, hk.2 (hhead c hc ▸ hb)⟩⟩

end Lexeme

theorem isChain_lexemes (cs : List Char) : (lexemes cs).IsChain Lexeme.Apart := by
  fun_induction lexemes cs with
  | case1 => exact List.isChain_singleton _
  | case2 c cs ih =>
    apply ih.cons
    intro l hl
    have hstop := Lexeme.stopsAt_cut c cs
    generalize (Lexeme.cut c cs).2 = rest at hl hstop
    rcases rest with _ | ⟨d, ds⟩
    · simp only [lexemes, List.head?_cons, Option.mem_def, Option.some.injEq] at hl
      subst hl
      exact ⟨nofun, nofun⟩
    · simp only [lexemes, List.head?_cons, Option.mem_def, Option.some.injEq] at hl
      subst hl
      have hd := Lexeme.head_of_cut d ds
      exact ⟨fun h => hstop.1 h.1 d rfl (hd.1 h.2), fun h => hstop.2 h.1 d rfl (hd.2 h.2)⟩

theorem spelled_of_mem_lexemes {cs : List Char} {l : Lexeme} (h : l ∈ lexemes cs) :
    l = .eof ∨ l.IsBroken ∨ l.Spelled := by
  fun_induction lexemes cs with
  | case1 => exact .inl (List.mem_singleton.1 h)
  | case2 c cs ih =>
    rcases List.mem_cons.1 h with rfl | h
    · exact .inr (Lexeme.spelled_cut c cs)
    · exact ih h

/-- What is written down as spelled lexemes that are apart is read as those lexemes, and then what
stands behind it. -/
theorem lexemes_spelling_append {ls : List Lexeme} (hs : ∀ l ∈ ls, l.Spelled)
    (ha : ls.IsChain Lexeme.Apart) {rest : List Char} (hrest : ∀ l ∈ ls.getLast?, l.StopsAt rest) :
    lexemes (ls.flatMap Lexeme.spelling ++ rest) = ls ++ lexemes rest := by
  induction ls with
  | nil => rfl
  | cons l ls ih =>
    obtain ⟨c, cs, hl, hcut⟩ := Lexeme.isCutOff_of_spelled (hs l (by simp))
    have hstop : l.StopsAt (ls.flatMap Lexeme.spelling ++ rest) := by
      rcases ls with _ | ⟨m, ms⟩
      · exact hrest l rfl
      · rw [List.flatMap_cons, List.append_assoc]
        exact Lexeme.stopsAt_spelling (hs m (by simp)) (ha.rel_head? rfl) _
    have hlast : ∀ m ∈ ls.getLast?, m.StopsAt rest := by
      rcases ls with _ | ⟨m, ms⟩
      · simp
      · exact fun k hk => hrest k (by rwa [List.getLast?_cons_cons])
    rw [List.flatMap_cons, List.append_assoc, hl, List.cons_append, lexemes, hcut _ hstop]
    simp only [List.cons_append]
    rw [ih (fun m hm => hs m (by simp [hm])) ha.tail hlast]

theorem lexemes_spelling {ls : List Lexeme} (hs : ∀ l ∈ ls, l.Spelled)
    (ha : ls.IsChain Lexeme.Apart) : lexemes (ls.flatMap Lexeme.spelling) = ls ++ [.eof] := by
  have h := lexemes_spelling_append hs ha fun l _ => l.stopsAt_nil
  rwa [List.append_nil, lexemes] at h

end KeyspaceQuery
