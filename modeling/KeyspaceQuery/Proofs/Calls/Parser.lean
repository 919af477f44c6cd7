import KeyspaceQuery.Proofs.Calls
import KeyspaceQuery.Proofs.Grammar.Program
import KeyspaceQuery.Proofs.Lexeme.Segments
import KeyspaceQuery.Proofs.WellFormed

/-! Parsers called again and again on one stream. A call that fails may leave a token put back, and
the next one starts there; but what stands on the stream is always an end of the text, so that each
call does what it would do at the start of such an end. All trees handed out are well-formed. -/

namespace KeyspaceQuery

open Grammar

namespace TokenStream

/-- The stream stands somewhere in the text: on it are tokens that the text ends with. -/
def Within (cs : List Char) (b : TokenStream) : Prop :=
  ∃ z ts, z.lexeme = .eof ∧ b.Holds z ts ∧ ts.map Token.lexeme <:+ lexemes cs

theorem within_ofString (text : String) : (ofString text).Within text.toList := by
  obtain ⟨z, ts, -, hemits, hz, hts⟩ := Source.emits_of_ready (Source.ready_ofString text)
  exact ⟨z, ts, hz, hemits, hts ▸ List.suffix_refl _⟩

end TokenStream

namespace Parser

/-- Behind the end of the input a parser finds that end again. -/
theorem exists_run_of_holds {α σ : Type} {p : Parser α} {m : Machine σ α} {q : σ} {z : Token}
    {b : TokenStream} {ts : List Token} {cs : List Char} (hm : m.Ends) (hz : z.lexeme = .eof)
    (hp : Tracks z p (m.run Token.lexeme z q) Verdict.done) (hb : b.Holds z ts)
    (hts : ts.map Token.lexeme <:+ lexemes cs) :
    ∃ us, us.map Token.lexeme <:+ lexemes cs ∧ Terminated (us.map Token.lexeme) ∧ ∃ c,
      (∃ a rest, p.run b = .ok (.ok a, c) ∧ c.Holds z rest ∧
        m.run Token.lexeme z q us = .done a rest) ∨
      ∃ r t rest, p.run b = .ok (.error (r.error t), c) ∧ c.Holds z rest ∧
        m.run Token.lexeme z q us = .refused r t rest := by
  rcases TokenStream.terminated_of_holds hb with rfl | hend
  · have heof : [z].map Token.lexeme = [.eof] := by rw [List.map_singleton, hz]
    refine ⟨[z], ?_, by rw [heof]; exact .eof, ?_⟩
    · rw [heof]
      exact (terminated_lexemes cs).eof_suffix
    · rw [← Machine.run_nil hm hz]
      exact hp hb
  · exact ⟨ts, hts, hend, hp hb⟩

/-- From a place within a text a parser comes to another one, without a fault, and a value that it
gives is the answer to what the text ends with. -/
theorem exists_run_of_within {α σ : Type} {p : Parser α} {m : Machine σ α} {q : σ}
    (hp : ∀ z, z.lexeme = .eof → Tracks z p (m.run Token.lexeme z q) Verdict.done) (hm : m.Ends)
    {b : TokenStream} {cs : List Char} (hb : b.Within cs) : ∃ o c, p.run b = .ok (o, c) ∧
      c.Within cs ∧ ∀ a, o = .ok a → ∃ ls rest, ls <:+ lexemes cs ∧ Terminated ls ∧
        m.answer q ls = some (a, rest) := by
  obtain ⟨z, ts, hz, hb, hts⟩ := hb
  obtain ⟨us, hus, hend, c, h⟩ := exists_run_of_holds hm hz (hp z hz) hb hts
  have hrest := Machine.rest_run_suffix (z := z) hm (q := q) hend
  have hanswer := Machine.answer_map (z := z) hm (q := q) hend
  rcases h with ⟨a, rest, hr, hc, hF⟩ | ⟨r, t, rest, hr, hc, hF⟩
  · rw [hF] at hrest hanswer
    refine ⟨.ok a, c, hr, ⟨z, rest, hz, hc, (hrest.map _).trans hus⟩, ?_⟩
    rintro a' ⟨⟩
    exact ⟨_, _, hus, hend, hanswer⟩
  · rw [hF] at hrest
    exact ⟨_, c, hr, ⟨z, rest, hz, hc, (hrest.map _).trans hus⟩, nofun⟩

/-- What may be asked of a parser, and what it answers. -/
inductive Call
  | statement | program
  deriving DecidableEq, Repr

inductive Reply
  | statement (o : Except SyntaxError Statement)
  | program (o : Except SyntaxError Program)
  deriving DecidableEq

def reply : Call → TokenStream → Except Fault (Reply × TokenStream)
  | .statement, b => do
    let (o, c) ← Parser.statement.run b
    return (.statement o, c)
  | .program, b => do
    let (o, c) ← Parser.program.run b
    return (.program o, c)

/-- The trees in a reply. -/
def Reply.trees : Reply → List Statement
  | statement (.ok s) => [s]
  | program (.ok (.statements ss)) => ss
  | _ => []

end Parser

theorem not_mem_of_isIdentifier {w : String} (h : IsIdentifier w) {c : Char}
    (hc : ¬ Token.isWordChar c) : c ∉ w.toList := by
  obtain ⟨d, ds, hw, hd, hds⟩ := h.isWord
  have hword : ∀ d ∈ w.toList, Token.isWordChar d := by
    rw [hw]
    exact List.forall_mem_cons.2 ⟨Token.isWordChar_of_isWordStart hd, hds⟩
  exact fun hmem => hc (hword c hmem)

/-- The words that a path is made of are its segments. -/
theorem Path.segments_eq {p : Path} {ws : List String} (hp : p.text = ".".intercalate ws)
    (hne : ws ≠ []) (h : ∀ w ∈ ws, IsIdentifier w) : p.segments = ws := by
  have hdot : ∀ l ∈ ws.map String.toList, '.' ∉ l :=
    List.forall_mem_map.2 fun w hw => not_mem_of_isIdentifier (h w hw) (by decide)
  have hsplit := List.splitOn_intercalate '.' hdot (by simpa using hne)
  rw [segments, hp, String.toList_intercalate]
  exact (congrArg (List.map String.ofList) hsplit).trans (by simp)

theorem Path.WellFormed.segments {p : Path} (h : p.WellFormed) :
    p.segments ≠ [] ∧ ∀ w ∈ p.segments, IsIdentifier w := by
  obtain ⟨ws, hne, hws, hp⟩ := h
  rw [segments_eq hp hne hws]
  exact ⟨hne, hws⟩

theorem Statement.WellFormed.keyspace {s : Statement} (h : s.WellFormed) :
    s.keyspace.WellFormed := by
  cases s with
  | drop => exact h
  | create | select | upsert | delete => exact h.1

section Sound

variable {ls : List Lexeme}

theorem Sound.suffix {rest : List Lexeme} (h : Sound ls) (hr : rest <:+ ls) : Sound rest :=
  fun l hl => h l (hr.subset hl)

theorem Sound.sentence (h : Sound ls) {s : Statement} {rest : List Lexeme}
    (hs : Sentence s ls rest) : s.WellFormed := by
  cases hs with
  | closed _ hb _ | drop hb => exact h.body hb

theorem Sound.sequence (h : Sound ls) {ss : List Statement} (hss : Sequence ss ls) :
    ∀ s ∈ ss, s.WellFormed := by
  induction hss with
  | nil => exact List.forall_mem_nil _
  | last hb _ => exact List.forall_mem_singleton.2 (h.body hb)
  | skip hm _ ih => exact ih (h.suffix hm.suffix)
  | cons hb hm _ ih =>
    exact List.forall_mem_cons.2 ⟨h.body hb, ih (h.suffix (hm.suffix.trans hb.leaves.suffix))⟩

end Sound

section Answer

variable {cs : List Char} {ls rest : List Lexeme}

theorem readable_of_suffix (h : ls <:+ lexemes cs) (hls : Terminated ls) : Readable ls :=
  ⟨(isChain_lexemes cs).suffix h, hls⟩

theorem wellFormed_of_answer_statement (h : ls <:+ lexemes cs) (hls : Terminated ls)
    {s : Statement} (hs : StatementMachine.move.answer (.stage .start) ls = some (s, rest)) :
    s.WellFormed :=
  ((sound_lexemes cs).suffix h).sentence
    ((StatementMachine.answer_start_iff (readable_of_suffix h hls)).1 hs)

theorem wellFormed_of_answer_program (h : ls <:+ lexemes cs) (hls : Terminated ls)
    {p : Program} (hp : ProgramMachine.move.answer (.between []) ls = some (p, rest)) :
    (∀ s ∈ p.toList, s.WellFormed) ∧ p ≠ .statements [] := by
  obtain ⟨ss, hss, ha⟩ := (ProgramMachine.answer_between_iff (readable_of_suffix h hls)).1 hp
  cases ha
  rw [List.nil_append, Program.toList_ofList]
  exact ⟨((sound_lexemes cs).suffix h).sequence hss, Program.ofList_ne_statements_nil ss⟩

end Answer

/-- What is true of every reply that a parser gives. -/
structure Parser.Reply.Sound (a : Reply) : Prop where
  wellFormed : ∀ s ∈ a.trees, s.WellFormed
  notEmpty : a ≠ .program (.ok (.statements []))

/-- One call goes from one place within the text to another one. -/
theorem Parser.exists_reply_of_within {b : TokenStream} {cs : List Char} (call : Call)
    (hb : b.Within cs) : ∃ a c, reply call b = .ok (a, c) ∧ c.Within cs ∧ a.Sound := by
  cases call with
  | statement =>
    obtain ⟨o, c, hr, hc, ho⟩ := exists_run_of_within
      (fun _ => StatementMachine.tracks_statement) StatementMachine.ends_move hb
    refine ⟨.statement o, c, by simp only [reply, hr]; rfl, hc, ?_, nofun⟩
    cases o with
    | error e => exact List.forall_mem_nil _
    | ok s =>
      obtain ⟨ls, rest, hls, hend, hs⟩ := ho s rfl
      exact List.forall_mem_singleton.2 (wellFormed_of_answer_statement hls hend hs)
  | program =>
    obtain ⟨o, c, hr, hc, ho⟩ := exists_run_of_within
      (fun _ => ProgramMachine.tracks_program) ProgramMachine.ends_move hb
    refine ⟨.program o, c, by simp only [reply, hr]; rfl, hc, ?_⟩
    cases o with
    | error e => exact ⟨List.forall_mem_nil _, nofun⟩
    | ok p =>
      obtain ⟨ls, rest, hls, hend, hp⟩ := ho p rfl
      obtain ⟨hwf, hne⟩ := wellFormed_of_answer_program hls hend hp
      cases p with
      | empty => exact ⟨List.forall_mem_nil _, nofun⟩
      | statements ss => exact ⟨hwf, by simpa using hne⟩

/-- However often a text is parsed on, by statements or by programs, no call faults, and every tree
in the replies is well-formed: its keyspace is made of segments that are identifiers, it has the
keys or filters that its kind asks for, and values are grouped in pairs. -/
theorem wellFormed_of_serve (text : String) (calls : List Parser.Call) :
    ∃ replies b, serve Parser.reply calls (.ofString text) = .ok (replies, b) ∧
      ∀ a ∈ replies, (∀ s ∈ a.trees, s.WellFormed ∧ s.keyspace.segments ≠ [] ∧
        ∀ w ∈ s.keyspace.segments, IsIdentifier w) ∧ a ≠ .program (.ok (.statements [])) := by
  obtain ⟨replies, b, hserve, -, hsound⟩ := exists_serve
    (fun call _ hb => Parser.exists_reply_of_within call hb) calls
    (TokenStream.within_ofString text)
  refine ⟨replies, b, hserve, fun a ha => ⟨fun s hs => ?_, (hsound a ha).notEmpty⟩⟩
  have hwf := (hsound a ha).wellFormed s hs
  exact ⟨hwf, hwf.keyspace.segments⟩

/-- No text makes the parser put back a token that it may not, or the lexer undo a reading that it
may not: all calls to a parser are answered, those behind a failed one too, and so are all calls to
a lexer, between which no more than one reading is undone. -/
theorem answered_of_serve (text : String) :
    (∀ calls, ∃ replies b, serve Parser.reply calls (.ofString text) = .ok (replies, b) ∧
      replies.length = calls.length) ∧
    ∀ calls, ∃ replies r, serve Source.reply calls (.ofString text) = .ok (replies, r) ∧
      replies.length = calls.length ∧ r.undone ≤ 1 := by
  refine ⟨fun calls => ?_, fun calls => ?_⟩
  · obtain ⟨replies, b, hserve, -⟩ := exists_serve
      (fun call _ hb => Parser.exists_reply_of_within call hb) calls
      (TokenStream.within_ofString text)
    exact ⟨replies, b, hserve, length_of_serve hserve⟩
  · obtain ⟨replies, r, hserve, hready, -⟩ :=
      Source.serve_of_ready calls (Source.ready_ofString text)
    exact ⟨replies, r, hserve, length_of_serve hserve, hready.undone_le⟩

end KeyspaceQuery
