import KeyspaceQuery.Proofs.Trimming.Refused

/-! Errors of a line that is a text with white space in front and behind. The line is refused where
the text is, and blanks in front move the place. Where the text is refused for its end, what is
behind it is refused instead, or the end of the line. -/

namespace KeyspaceQuery

open Text (OneLine isWhiteSpace)
open Token (isBlank isWordChar)

/-- The line is the text with white space in front and behind. The text itself has none at its
ends. -/
structure Framed (line : String) (fs : List Char) (text : String) (bs : List Char) : Prop where
  eq : line.toList = fs ++ (text.toList ++ bs)
  oneLine : OneLine line
  front : ∀ c ∈ fs, isWhiteSpace c
  back : ∀ c ∈ bs, isWhiteSpace c
  first : ∀ c ∈ text.toList.head?, ¬ isWhiteSpace c
  last : ∀ c ∈ text.toList.getLast?, ¬ isWhiteSpace c
  nonempty : text ≠ ""

/-- By how many columns `n` characters in front of a text move it. A string at its front is placed
one column before itself, but not before the front of the line. -/
def Text.indent (text : String) (n : Nat) : Nat :=
  if text.toList.head? = some '"' then n - 1 else n

/-- How many characters come before the first one that is not a blank. If there is none, the end
stands one column behind the blanks. -/
def Text.pastBlanks (cs : List Char) : Nat :=
  (cs.takeWhile isBlank).length + if cs.all isBlank then 1 else 0

section PastBlanks

variable {cs : List Char}

theorem Text.pastBlanks_of_blanks (h : ∀ c ∈ cs, isBlank c) : pastBlanks cs = cs.length + 1 := by
  rw [pastBlanks, List.takeWhile_eq_self_iff.2 h, if_pos (List.all_eq_true.2 h)]

theorem Text.pastBlanks_of_other (h : ¬ ∀ c ∈ cs, isBlank c) :
    pastBlanks cs = (cs.takeWhile isBlank).length := by
  rw [pastBlanks, if_neg (mt List.all_eq_true.1 h), Nat.add_zero]

/-- The first character that is not a blank. -/
theorem exists_head_of_other (h : ¬ ∀ c ∈ cs, isBlank c) :
    ∃ c ∈ (cs.dropWhile isBlank).head?, c ∈ cs ∧ ¬ isBlank c := by
  have hne : cs.dropWhile isBlank ≠ [] := mt List.dropWhile_eq_nil_iff.1 h
  obtain ⟨c, hc⟩ := Option.isSome_iff_exists.1 (List.isSome_head?.2 hne)
  exact ⟨c, hc, (List.dropWhile_suffix _).subset (List.mem_of_mem_head? hc),
    Lexeme.not_head_dropWhile _ _ c hc⟩

end PastBlanks

section Framed

variable {line text : String} {fs bs slice : List Char} {ps ps' pieces : List (Lexeme × List Char)}
  {l : Lexeme} {q : ProgramMachine.State} {r : Refusal} {taken : Bool} {e : SyntaxError}

theorem Framed.text_ne_nil (h : Framed line fs text bs) : text.toList ≠ [] :=
  fun hnil => h.nonempty (String.toList_eq_nil_iff.1 hnil)

theorem Framed.not_isBlank_of_head (h : Framed line fs text bs) :
    ∀ c ∈ text.toList.head?, ¬ isBlank c :=
  fun c hc hblank => h.first c hc (isWhiteSpace_of_isBlank hblank)

theorem Framed.not_isBlank_of_head_append (h : Framed line fs text bs) :
    ∀ c ∈ (text.toList ++ bs).head?, ¬ isBlank c := by
  rw [List.head?_append_of_ne_nil _ h.text_ne_nil]
  exact h.not_isBlank_of_head

theorem Framed.not_isBlank_of_last (h : Framed line fs text bs) :
    ∀ c ∈ text.toList.getLast?, ¬ isBlank c :=
  fun c hc hblank => h.last c hc (isWhiteSpace_of_isBlank hblank)

theorem Framed.not_isWordChar (h : Framed line fs text bs) : ∀ c ∈ bs, ¬ isWordChar c :=
  fun c hc => not_isWordChar_of_isWhiteSpace (h.back c hc)

theorem Framed.quote_not_mem (h : Framed line fs text bs) : '"' ∉ bs :=
  fun hquote => absurd (h.back _ hquote) (by decide)

theorem Framed.lineFeed_not_mem (h : Framed line fs text bs) : '\n' ∉ fs ++ text.toList ++ bs := by
  rw [List.append_assoc, ← h.eq]
  exact h.oneLine

/-- White space in front that is no blank is refused. -/
theorem Framed.exists_error_in_front (h : Framed line fs text bs)
    (hfs : ¬ ∀ c ∈ fs, isBlank c) : ∃ f, parseProgram line = .error (.syntaxError f) ∧
      f.position = ⟨0, Text.pastBlanks fs⟩ := by
  obtain ⟨c, hc, hmem, hother⟩ := exists_head_of_other hfs
  have hline : line.toList =
      fs.takeWhile isBlank ++ (fs.dropWhile isBlank ++ (text.toList ++ bs)) := by
    rw [← List.append_assoc, List.takeWhile_append_dropWhile, h.eq]
  have hhead : c ∈ (fs.dropWhile isBlank ++ (text.toList ++ bs)).head? := by
    rw [List.head?_append, Option.mem_def.1 hc]
    rfl
  obtain ⟨l, slice, more, hp, hslice, hl⟩ := exists_segments_of_white hhead (h.front c hmem)
  obtain ⟨r, taken, hr⟩ := ProgramMachine.exists_refuse_of_isBroken
    (hl.resolve_left fun hblank => hother hblank.2) (.between [])
  have hp' : Segments (fs.dropWhile isBlank ++ (text.toList ++ bs)) ([] ++ (l, slice) :: more) := hp
  obtain ⟨f, hf, hposition⟩ := exists_error_of_piece hline (fun _ => List.mem_takeWhile_imp)
    (fun d hd => by cases hhead.symm.trans hd; exact hother) hp' rfl hr
  refine ⟨f, hf, ?_⟩
  have hone : '\n' ∉ fs.takeWhile isBlank := fun hn => h.lineFeed_not_mem <|
    List.mem_append_left _ (List.mem_append_left _ ((List.takeWhile_prefix _).subset hn))
  rw [hposition, List.flatMap_nil, List.append_nil,
    Position.ofPiece_of_white hone hslice (h.front c hmem), Text.pastBlanks_of_other hfs]

/-- What is refused in the text at a piece is refused there in the line too. -/
theorem Framed.exists_error_at_piece (h : Framed line fs text bs) (hfs : ∀ c ∈ fs, isBlank c)
    (hp : Segments text.toList (ps ++ (l, slice) :: ps'))
    (hw : ProgramMachine.move.walk (.between []) (ps.map Prod.fst) = some q)
    (hr : ProgramMachine.move q l = .refuse r taken) :
    ∃ f, parseProgram line = .error (.syntaxError f) ∧
      f.position = .ofPiece (fs ++ ps.flatMap Prod.snd) slice := by
  obtain ⟨l', slice', more, hp', hslice, hl'⟩ :=
    hp.exists_append h.not_isBlank_of_last h.not_isWordChar h.quote_not_mem
  obtain ⟨r', taken', hr'⟩ : ∃ r' taken', ProgramMachine.move q l' = .refuse r' taken' := by
    rcases hl' with rfl | hl'
    · exact ⟨r, taken, hr⟩
    · exact ProgramMachine.exists_refuse_of_isBroken hl' q
  obtain ⟨f, hf, hposition⟩ :=
    exists_error_of_piece h.eq hfs h.not_isBlank_of_head_append hp' hw hr'
  exact ⟨f, hf, by rw [hposition, Position.ofPiece, Position.ofPiece, hslice]⟩

/-- A piece of the text stands as many columns further right in the line. -/
theorem Framed.ofPiece_append (h : Framed line fs text bs)
    (hp : Segments text.toList (ps ++ (l, slice) :: ps'))
    (hw : ProgramMachine.move.walk (.between []) (ps.map Prod.fst) = some q) :
    Position.ofPiece (fs ++ ps.flatMap Prod.snd) slice =
      ⟨(Position.ofPiece (ps.flatMap Prod.snd) slice).line,
        (Position.ofPiece (ps.flatMap Prod.snd) slice).column + Text.indent text fs.length⟩ := by
  have htext : text.toList = ps.flatMap Prod.snd ++ (slice ++ ps'.flatMap Prod.snd) := by
    rw [← hp.flatMap_eq, List.flatMap_append, List.flatMap_cons]
  have hquote (hquote : text.toList.head? = some '"') : ps.flatMap Prod.snd = [] := by
    rw [hp.eq_nil_of_walk hquote hw, List.flatMap_nil]
  have hslice : slice ≠ [] := hp.ne_nil (l, slice) (by simp)
  have hone : '\n' ∉ fs ++ ps.flatMap Prod.snd := by
    have hline := h.oneLine
    rw [OneLine, h.eq, htext] at hline
    simp only [List.mem_append, not_or] at hline ⊢
    exact ⟨hline.1, hline.2.1.1⟩
  generalize ps.flatMap Prod.snd = behind at *
  have hbehind : '\n' ∉ behind := fun hmem => hone (List.mem_append_right _ hmem)
  rw [Position.ofPiece_of_oneLine hone, Position.ofPiece_of_oneLine hbehind, Text.indent]
  by_cases hnil : behind = []
  · -- the piece is the first one, so the text begins as the piece does
    rw [htext, hnil, List.nil_append, List.head?_append_of_ne_nil _ hslice, List.append_nil]
    split <;> simp
  · have hlength := List.length_pos_iff.2 hnil
    rw [if_neg fun hhead => hnil (hquote hhead), List.length_append, Position.mk.injEq]
    refine ⟨rfl, ?_⟩
    simp only
    split <;> omega

/-- A text that is read to its end does not begin with a string. -/
theorem Framed.indent_of_walk (h : Framed line fs text bs) (hp : Segments text.toList pieces)
    (hw : ProgramMachine.move.walk (.between []) (pieces.map Prod.fst) = some q) (n : Nat) :
    Text.indent text n = n := by
  refine if_neg fun hquote => h.text_ne_nil (hp.eq_nil_iff.2 ?_)
  rw [← List.append_nil pieces] at hp
  exact hp.eq_nil_of_walk hquote hw

/-- Behind a dot at its end the text is refused at whatever white space comes. -/
theorem Framed.exists_error_behind_dot (h : Framed line fs text bs) (hfs : ∀ c ∈ fs, isBlank c)
    (hp : Segments text.toList pieces) (hs : ∀ l ∈ pieces.map Prod.fst, l.Spelled)
    (hw : ProgramMachine.move.walk (.between []) (pieces.map Prod.fst) = some q) (hq : q.AtDot)
    (hbs : bs ≠ []) : ∃ f, parseProgram line = .error (.syntaxError f) ∧
      f.position = ⟨0, fs.length + text.toList.length⟩ := by
  obtain ⟨c, hc⟩ := Option.isSome_iff_exists.1 (List.isSome_head?.2 hbs)
  have hwhite := h.back c (List.mem_of_mem_head? hc)
  obtain ⟨l, slice, more, hmore, hslice, hl⟩ := exists_segments_of_white hc hwhite
  have hkind : l.kind ≠ .identifier := by
    rcases hl with ⟨hl, -⟩ | hl | hl | hl <;> rw [hl] <;> nofun
  obtain ⟨r, taken, hr⟩ := hq.exists_refuse hkind
  obtain ⟨f, hf, hposition⟩ := exists_error_of_piece h.eq hfs h.not_isBlank_of_head_append
    (hp.append hs h.not_isBlank_of_last h.not_isWordChar hmore) hw hr
  have hone : '\n' ∉ fs ++ text.toList :=
    fun hn => h.lineFeed_not_mem (List.mem_append_left _ hn)
  refine ⟨f, hf, ?_⟩
  rw [hposition, hp.flatMap_eq, Position.ofPiece_of_white hone hslice hwhite, List.length_append]

/-- A text that is refused at its end, but not behind a dot, is refused behind the blanks that
follow it. -/
theorem Framed.exists_error_behind_blanks (h : Framed line fs text bs)
    (hfs : ∀ c ∈ fs, isBlank c) (hp : Segments text.toList pieces)
    (hs : ∀ l ∈ pieces.map Prod.fst, l.Spelled)
    (hw : ProgramMachine.move.walk (.between []) (pieces.map Prod.fst) = some q)
    (hq : q.RefusesEnd) (hdot : ¬ q.AtDot) (hbs : bs ≠ []) :
    ∃ f, parseProgram line = .error (.syntaxError f) ∧
      f.position = ⟨0, fs.length + text.toList.length + Text.pastBlanks bs⟩ := by
  have hlast := h.not_isBlank_of_last
  have hword := h.not_isWordChar
  have hfirst := h.not_isBlank_of_head_append
  by_cases hblank : ∀ c ∈ bs, isBlank c
  · -- the end is refused there too
    have hmore : Segments bs [(⟨.whitespace, String.ofList bs⟩, bs)] := by
      have := Segments.cons (.blanks hbs hblank (by simp)) .nil
      rwa [List.append_nil] at this
    have hkinds : ∀ l ∈ [(⟨.whitespace, String.ofList bs⟩ : Lexeme)], l.kind = .whitespace :=
      List.forall_mem_singleton.2 rfl
    obtain ⟨q', hw', hq'⟩ := hq.exists_walk hdot hkinds
    obtain ⟨f, hf, hposition⟩ := exists_error_of_end h.oneLine h.eq hfs hfirst
      (hp.append hs hlast hword hmore) (by rw [List.map_append, Machine.walk_append hw]; exact hw')
      hq'
    refine ⟨f, hf, ?_⟩
    rw [hposition, if_pos (Lexeme.overruns_of (.inl rfl)), Text.pastBlanks_of_blanks hblank, h.eq,
      List.length_append, List.length_append, Nat.add_assoc, Nat.add_assoc, Nat.add_assoc]
  · obtain ⟨c, hc, hmem, hother⟩ := exists_head_of_other hblank
    have hwhite := h.back c hmem
    obtain ⟨l, slice, more, hmore, hslice, hl⟩ := exists_segments_of_white hc hwhite
    have hblanks : ∀ c ∈ bs.takeWhile isBlank, isBlank c := fun _ => List.mem_takeWhile_imp
    obtain ⟨ws, hws, hflat, hkinds⟩ :=
      hmore.exists_front hblanks (Lexeme.not_head_dropWhile _ _)
    rw [List.takeWhile_append_dropWhile] at hws
    obtain ⟨q', hw', -⟩ := hq.exists_walk hdot hkinds
    obtain ⟨r, taken, hr⟩ := ProgramMachine.exists_refuse_of_isBroken
      (hl.resolve_left fun hblank => hother hblank.2) q'
    have hp' := hp.append hs hlast hword hws
    rw [← List.append_assoc] at hp'
    obtain ⟨f, hf, hposition⟩ := exists_error_of_piece h.eq hfs hfirst hp'
      (by rw [List.map_append, Machine.walk_append hw, hw']) hr
    refine ⟨f, hf, ?_⟩
    rw [List.flatMap_append, hp.flatMap_eq, hflat] at hposition
    have hone : '\n' ∉ fs ++ (text.toList ++ bs.takeWhile isBlank) := by
      have hline := h.lineFeed_not_mem
      simp only [List.mem_append, not_or] at hline ⊢
      exact ⟨hline.1.1, hline.1.2, fun hn => hline.2 ((List.takeWhile_prefix _).subset hn)⟩
    rw [hposition, Position.ofPiece_of_white hone hslice hwhite, Text.pastBlanks_of_other hblank,
      List.length_append, List.length_append, Nat.add_assoc]

/-- The error of the line, by that of the text. It stands where that of the text does, or behind the
blanks that follow if the text goes on there without an end. -/
theorem Framed.exists_error (h : Framed line fs text bs) (hfs : ∀ c ∈ fs, isBlank c)
    (he : parseProgram text = .error (.syntaxError e)) :
    ∃ f, parseProgram line = .error (.syntaxError f) ∧
      (bs = [] ∨ ¬ e.FoundEnd ∨ text.toList.getLast? = some '.' →
        f.position = ⟨e.position.line, e.position.column + Text.indent text fs.length⟩) ∧
      (bs ≠ [] → e.FoundEnd → text.toList.getLast? ≠ some '.' →
        f.position = ⟨0, fs.length + text.toList.length + Text.pastBlanks bs⟩) := by
  obtain ⟨pieces, hp, hls⟩ := exists_segments text.toList
  have hfirst := h.not_isBlank_of_head
  have hnothing : text.toList = [] ++ text.toList := rfl
  rcases refused_at_piece_or_end hp he with
    ⟨ps, l, slice, ps', q, r, taken, rfl, hw, hr, hend⟩ | ⟨q, hw, hq, hend⟩
  · obtain ⟨e', he', hplace⟩ :=
      exists_error_of_piece hnothing (List.forall_mem_nil _) hfirst hp hw hr
    cases he.symm.trans he'
    obtain ⟨f, hf, hposition⟩ := h.exists_error_at_piece hfs hp hw hr
    refine ⟨f, hf, fun _ => ?_, fun _ hend' => absurd hend' hend⟩
    rw [hposition, hplace, h.ofPiece_append hp hw, List.nil_append]
  · have hs : ∀ l ∈ pieces.map Prod.fst, l.Spelled :=
      Machine.spelled_of_walk ProgramMachine.guides_move hw fun l hl =>
        hls ▸ List.mem_append_left _ hl
    obtain rfl | ⟨ps, ⟨l, slice⟩, rfl⟩ := List.eq_nil_or_concat' pieces
    · exact absurd (hp.eq_nil_iff.2 rfl) h.text_ne_nil
    have hone : OneLine text := fun hn =>
      h.lineFeed_not_mem (List.mem_append_left _ (List.mem_append_right _ hn))
    obtain ⟨e', he', hplace⟩ :=
      exists_error_of_end hone hnothing (List.forall_mem_nil _) hfirst hp hw hq
    cases he.symm.trans he'
    have hkind : l.kind = .dot ↔ text.toList.getLast? = some '.' :=
      hp.kind_eq_dot_iff (hs l (by simp))
    have hdot : q.AtDot ↔ l.kind = .dot := by
      rw [List.map_append] at hw
      obtain ⟨q₀, -, hm⟩ := Machine.walk_concat_iff.1 hw
      exact ProgramMachine.atDot_iff hm
    rw [hplace, h.indent_of_walk hp hw]
    by_cases hbs : bs = []
    · subst hbs
      have hline := h.eq
      rw [List.append_nil] at hline
      obtain ⟨f, hf, hposition⟩ := exists_error_of_end h.oneLine hline hfs hfirst hp hw hq
      refine ⟨f, hf, fun _ => ?_, fun hnil => absurd rfl hnil⟩
      rw [hposition, hline, List.length_append, Nat.add_assoc, Nat.add_comm]
    by_cases hq' : q.AtDot
    · obtain ⟨f, hf, hposition⟩ := h.exists_error_behind_dot hfs hp hs hw hq' hbs
      have hover : ¬ l.overruns slice :=
        Lexeme.not_overruns (.inl (hdot.1 hq' ▸ List.mem_cons_self))
      refine ⟨f, hf, fun _ => ?_, fun _ _ hlast => absurd (hkind.1 (hdot.1 hq')) hlast⟩
      rw [hposition, if_neg hover, Nat.add_zero, Nat.add_comm]
    · obtain ⟨f, hf, hposition⟩ := h.exists_error_behind_blanks hfs hp hs hw hq hq' hbs
      refine ⟨f, hf, fun hwhere => ?_, fun _ _ _ => hposition⟩
      rcases hwhere with hnil | hnot | hlast
      · exact absurd hnil hbs
      · exact absurd hend hnot
      · exact absurd (hdot.2 (hkind.2 hlast)) hq'

end Framed

end KeyspaceQuery
