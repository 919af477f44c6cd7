import KeyspaceQuery.Proofs.Calls.Parser
import KeyspaceQuery.Proofs.Errors.Program
import KeyspaceQuery.Proofs.Text.Lines

/-! What the message of an error says. It ends in two numbers, with the list of what could stand
before them and what was found before that. These parts can be told apart: a number is all digits,
no entry of the list has a comma, and what was found has none, or is one. So no two errors have the
same message. -/

namespace KeyspaceQuery

open Lexeme (takeWhile_run)
open Text (OneLine)

section Runs

variable {p : Char → Bool} {xs ys as bs : List Char}

/-- Two texts that begin with runs, and go on differently from their runs, agree in both parts. -/
theorem run_append_inj (has : ∀ a ∈ as, p a) (hbs : ∀ b ∈ bs, p b) (hxs : ∀ x ∈ xs.head?, ¬ p x)
    (hys : ∀ y ∈ ys.head?, ¬ p y) (h : as ++ xs = bs ++ ys) : as = bs ∧ xs = ys := by
  have hrun : as = bs := by
    rw [← takeWhile_run has hxs, h, takeWhile_run hbs hys]
  subst hrun
  exact ⟨rfl, List.append_cancel_left h⟩

/-- The same with the runs at the end. -/
theorem append_run_inj (has : ∀ a ∈ as, p a) (hbs : ∀ b ∈ bs, p b)
    (hxs : ∀ x ∈ xs.getLast?, ¬ p x) (hys : ∀ y ∈ ys.getLast?, ¬ p y)
    (h : xs ++ as = ys ++ bs) : xs = ys ∧ as = bs := by
  have hreverse : as.reverse ++ xs.reverse = bs.reverse ++ ys.reverse := by
    rw [← List.reverse_append, h, List.reverse_append]
  obtain ⟨hrun, hrest⟩ := run_append_inj (p := p) (by simpa using has) (by simpa using hbs)
    (by rwa [List.head?_reverse]) (by rwa [List.head?_reverse]) hreverse
  exact ⟨List.reverse_injective hrest, List.reverse_injective hrun⟩

end Runs

section Numbers

variable {s t : String} {m n : Nat}

theorem isDigit_of_mem_repr {c : Char} (h : c ∈ n.repr.toList) : c.isDigit := by
  rw [Nat.toList_repr] at h
  exact Nat.isDigit_of_mem_toDigits (by decide) (by decide) h

theorem toList_repr_inj (h : m.repr.toList = n.repr.toList) : m = n := by
  rw [Nat.toList_repr, Nat.toList_repr] at h
  rw [← Nat.ofDigitChars_ten_toDigits (n := m), h, Nat.ofDigitChars_ten_toDigits]

/-- A number behind a blank can be told from what comes before it. -/
theorem append_repr_inj (hs : s.toList.getLast? = some ' ') (ht : t.toList.getLast? = some ' ')
    (h : s ++ m.repr = t ++ n.repr) : s = t ∧ m = n := by
  have hlist : s.toList ++ m.repr.toList = t.toList ++ n.repr.toList := by
    rw [← String.toList_append, h, String.toList_append]
  have hblank : ∀ c ∈ some ' ', ¬ c.isDigit := by
    rintro c ⟨⟩
    decide
  obtain ⟨hst, hmn⟩ := append_run_inj (p := Char.isDigit) (fun _ => isDigit_of_mem_repr)
    (fun _ => isDigit_of_mem_repr) (by rwa [hs]) (by rwa [ht]) hlist
  exact ⟨String.toList_inj.1 hst, toList_repr_inj hmn⟩

theorem oneLine_repr (n : Nat) : OneLine n.repr :=
  fun h => absurd (isDigit_of_mem_repr h) (by decide)

theorem Position.oneLine_message (p : Position) : OneLine p.message :=
  ((OneLine.append (s := "line ") (by decide) (oneLine_repr _)).append (by decide)).append
    (oneLine_repr _)

theorem getLast?_append_of_getLast? {c : Char} (hs : s.toList.getLast? = some c) (t : String) :
    (t ++ s).toList.getLast? = some c := by
  rw [String.toList_append, List.getLast?_append, hs]
  rfl

/-- The place that ends a message can be told from what comes before it. -/
theorem Position.append_message_inj {p q : Position}
    (h : s ++ " at " ++ p.message = t ++ " at " ++ q.message) : s = t ∧ p = q := by
  obtain ⟨pl, pc⟩ := p
  obtain ⟨ql, qc⟩ := q
  simp only [message, ← String.append_assoc] at h
  obtain ⟨h, hcolumn⟩ := append_repr_inj (getLast?_append_of_getLast? (by decide) _)
    (getLast?_append_of_getLast? (by decide) _) h
  rw [String.append_left_inj] at h
  obtain ⟨h, hline⟩ := append_repr_inj (getLast?_append_of_getLast? (by decide) _)
    (getLast?_append_of_getLast? (by decide) _) h
  rw [String.append_left_inj, String.append_left_inj] at h
  rw [Nat.succ.inj hline, Nat.succ.inj hcolumn]
  exact ⟨h, rfl⟩

end Numbers

section Lists

variable {xs ys : List String}

theorem intercalate_pair {α : Type} (a b : α) (x : List α) (xs : List (List α)) :
    [a, b].intercalate (x :: xs) = [a].intercalate (x :: xs.map (b :: ·)) := by
  induction xs generalizing x with
  | nil => simp
  | cons y ys ih =>
    rw [List.intercalate_cons_cons, List.map_cons, List.intercalate_cons_cons, ih]
    cases ys <;> simp

/-- Entries without commas are found again between the commas. -/
theorem splitOn_intercalate_comma {x : String} (h : ∀ y ∈ x :: xs, ',' ∉ y.toList) :
    (", ".intercalate (x :: xs)).toList.splitOn ',' =
      x.toList :: xs.map fun y => ' ' :: y.toList := by
  have hcomma : ", ".toList = [',', ' '] := rfl
  rw [String.toList_intercalate, hcomma, List.map_cons, intercalate_pair,
    List.splitOn_intercalate ',' ?_ (List.cons_ne_nil _ _), List.map_map]
  · rfl
  · simpa using h

theorem intercalate_comma_inj (hxs : xs ≠ []) (hys : ys ≠ []) (hx : ∀ x ∈ xs, ',' ∉ x.toList)
    (hy : ∀ y ∈ ys, ',' ∉ y.toList) (h : ", ".intercalate xs = ", ".intercalate ys) :
    xs = ys := by
  obtain ⟨x, xs, rfl⟩ := List.exists_cons_of_ne_nil hxs
  obtain ⟨y, ys, rfl⟩ := List.exists_cons_of_ne_nil hys
  have hsplit := splitOn_intercalate_comma hx
  rw [h, splitOn_intercalate_comma hy, List.cons.injEq] at hsplit
  obtain ⟨hhead, htail⟩ := hsplit
  have hinj : Function.Injective fun y : String => ' ' :: y.toList :=
    fun y z hyz => String.toList_inj.1 (List.cons.inj hyz).2
  rw [String.toList_inj.1 hhead, List.map_injective_iff.2 hinj htail]

end Lists

/-- What was found, as a message shows it. -/
structure IsFinding (found : String) : Prop where
  isNotEmpty : found.toList ≠ []
  oneLine : OneLine found
  noComma : ',' ∉ found.toList.tail

theorem isFinding_display (kind : TokenKind) : IsFinding kind.display := by
  cases kind with
  | keyword k => cases k <;> exact ⟨by decide, by decide, by decide⟩
  | _ => exact ⟨by decide, by decide, by decide⟩

theorem isFinding_describe {t : Token} (h : t.kind = .identifier → IsIdentifier t.literal) :
    IsFinding t.describe := by
  unfold Token.describe
  split
  · rename_i hk
    have hchars : ("IDENTIFIER (" ++ t.literal ++ ")").toList =
        'I' :: ("DENTIFIER (".toList ++ t.literal.toList ++ [')']) := by
      simp
    have hword {c : Char} (hc : ¬ Token.isWordChar c) : c ∉ t.literal.toList :=
      not_mem_of_isIdentifier (h hk) hc
    refine ⟨?_, ?_, ?_⟩
    · rw [hchars]
      exact List.cons_ne_nil _ _
    · rw [OneLine, hchars]
      simp [hword (c := '\n') (by decide)]
    · rw [hchars]
      simp [hword (c := ',') (by decide)]
  · exact isFinding_display _

theorem noComma_text (x : Expectation) : ',' ∉ x.text.toList := by
  cases x with
  | keyword k => cases k <;> decide
  | _ => decide

theorem oneLine_text (x : Expectation) : OneLine x.text := by
  cases x with
  | keyword k => cases k <;> decide
  | _ => decide

namespace SyntaxError

/-- The cause can be read off its message. -/
def Cause.IsLegible : Cause → Prop
  | unexpected found expected => IsFinding found ∧ expected ≠ [] ∧
      ∀ entry ∈ expected, OneLine entry ∧ ',' ∉ entry.toList
  | notAllowed _ => True

theorem Cause.IsLegible.oneLine {c : Cause} (h : c.IsLegible) : OneLine c.message := by
  cases c with
  | unexpected found expected =>
    obtain ⟨hfound, -, hexpected⟩ := h
    have hfinding : OneLine ("found " ++ found) := OneLine.append (by decide) hfound.oneLine
    have hcomma : OneLine ", " := by decide
    have hlist := hcomma.intercalate fun x hx => (hexpected x hx).1
    exact (hfinding.append (by decide)).append hlist
  | notAllowed capability => cases capability <;> decide

end SyntaxError

/-- What was found goes up to the first comma behind its first character. -/
theorem IsFinding.append_comma_inj {s t : String} {xs ys : List Char} (hs : IsFinding s)
    (ht : IsFinding t) (h : s.toList ++ ',' :: xs = t.toList ++ ',' :: ys) : s = t ∧ xs = ys := by
  obtain ⟨a, as, has⟩ := List.exists_cons_of_ne_nil hs.isNotEmpty
  obtain ⟨b, bs, hbs⟩ := List.exists_cons_of_ne_nil ht.isNotEmpty
  have hsc := hs.noComma
  have htc := ht.noComma
  rw [has, List.tail_cons] at hsc
  rw [hbs, List.tail_cons] at htc
  rw [has, hbs, List.cons_append, List.cons_append, List.cons.injEq] at h
  obtain ⟨rfl, h⟩ := h
  obtain ⟨rfl, hrest⟩ := run_append_inj (p := (· != ','))
    (fun c hc => bne_iff_ne.2 (ne_of_mem_of_not_mem hc hsc))
    (fun c hc => bne_iff_ne.2 (ne_of_mem_of_not_mem hc htc)) (by simp) (by simp) h
  exact ⟨String.toList_inj.1 (has.trans hbs.symm), (List.cons.inj hrest).2⟩

namespace SyntaxError

theorem Cause.toList_message_unexpected (found : String) (expected : List String) :
    (unexpected found expected).message.toList = "found ".toList ++
      (found.toList ++ ',' :: (" expected ".toList ++ (", ".intercalate expected).toList)) := by
  simp [message]

theorem Cause.message_inj {c d : Cause} (hc : c.IsLegible) (hd : d.IsLegible)
    (h : c.message = d.message) : c = d := by
  cases c with
  | unexpected found expected =>
    cases d with
    | unexpected found' expected' =>
      obtain ⟨hfound, hne, hexpected⟩ := hc
      obtain ⟨hfound', hne', hexpected'⟩ := hd
      have hchars := congrArg String.toList h
      rw [toList_message_unexpected, toList_message_unexpected] at hchars
      obtain ⟨rfl, hlist⟩ := hfound.append_comma_inj hfound' (List.append_cancel_left hchars)
      have hentries := intercalate_comma_inj hne hne' (fun x hx => (hexpected x hx).2)
        (fun x hx => (hexpected' x hx).2) (String.toList_inj.1 (List.append_cancel_left hlist))
      rw [hentries]
    | notAllowed capability =>
      have hhead := congrArg (·.toList.head?) h
      cases capability <;> simp [message, Capability.text] at hhead
  | notAllowed capability =>
    cases d with
    | unexpected found expected =>
      have hhead := congrArg (·.toList.head?) h
      cases capability <;> simp [message, Capability.text] at hhead
    | notAllowed capability' =>
      rw [message, message, String.append_left_inj] at h
      cases capability <;> cases capability' <;> first | rfl | exact absurd h (by decide)

theorem oneLine_message {e : SyntaxError} (h : e.cause.IsLegible) : OneLine e.message :=
  (h.oneLine.append (by decide)).append e.position.oneLine_message

end SyntaxError

namespace Machine

variable {σ α : Type} {m : Machine σ α} {q₀ : σ} {expected : σ → List Expectation}
  {parse : String → Except Failure α}

/-- What is found is a token of the text, and the list of a refusal is never empty. -/
theorem isLegible_of_parse (h : Parser.Reads m q₀ parse) (hm : m.Guides expected) {text : String}
    {e : SyntaxError} (he : parse text = .error (.syntaxError e)) : e.cause.IsLegible := by
  obtain ⟨ts, pre, t, post, q, r, taken, hlex, rfl, -, hr, he⟩ :=
    Parser.exists_refuse_of_parse h hm.ends he
  cases he
  obtain ⟨ts', hlex', hts⟩ := Parser.lex_of_reads h text
  obtain rfl := Except.ok.inj (hlex'.symm.trans hlex)
  obtain ⟨hne, rfl | ⟨c, rfl, -⟩⟩ := hm.refuses hr
  · have hsound : Sound ((pre ++ t :: post).map Token.lexeme) := hts ▸ sound_lexemes _
    have hfound : IsFinding t.describe := isFinding_describe (hsound t.lexeme (by simp))
    refine ⟨hfound, by simpa using hne, fun entry hentry => ?_⟩
    obtain ⟨x, -, rfl⟩ := List.mem_map.1 hentry
    exact ⟨oneLine_text x, noComma_text x⟩
  · exact trivial

end Machine

/-- One of the parsers refuses the text with this error. -/
inductive Rejected (text : String) (e : SyntaxError) : Prop
  | statement (h : parseStatement text = .error (.syntaxError e))
  | program (h : parseProgram text = .error (.syntaxError e))

variable {x y : String} {e f : SyntaxError}

theorem Rejected.isLegible (h : Rejected x e) : e.cause.IsLegible := by
  cases h with
  | statement h => exact Machine.isLegible_of_parse reads_statement StatementMachine.guides_move h
  | program h => exact Machine.isLegible_of_parse reads_program ProgramMachine.guides_move h

/-- Two errors of the parsers have one message only if they have one cause and one position. -/
theorem message_identifies_error (hx : Rejected x e) (hy : Rejected y f) :
    e.message = f.message ↔ e.cause = f.cause ∧ e.position = f.position := by
  refine ⟨fun h => ?_, fun ⟨hcause, hposition⟩ => ?_⟩
  · obtain ⟨hmessage, hposition⟩ := Position.append_message_inj h
    exact ⟨SyntaxError.Cause.message_inj hx.isLegible hy.isLegible hmessage, hposition⟩
  · rw [SyntaxError.message, SyntaxError.message, hcause, hposition]

/-- A comma is found in the place of a word and behind a statement. -/
theorem message_identifies_comma :
    let e : SyntaxError := ⟨.unexpected "," ["KEYSPACE"], ⟨0, 5⟩⟩
    let f : SyntaxError := ⟨.unexpected "," ["EOF", "SEMICOLON"], ⟨0, 15⟩⟩
    Rejected "DROP ,;" e ∧ Rejected "DROP KEYSPACE a," f ∧
      (e.message = f.message ↔ e.cause = f.cause ∧ e.position = f.position) := by
  have he : Rejected "DROP ,;" ⟨.unexpected "," ["KEYSPACE"], ⟨0, 5⟩⟩ :=
    .statement (by decide +kernel)
  have hf : Rejected "DROP KEYSPACE a," ⟨.unexpected "," ["EOF", "SEMICOLON"], ⟨0, 15⟩⟩ :=
    .program (by decide +kernel)
  exact ⟨he, hf, message_identifies_error he hf⟩

end KeyspaceQuery
