import KeyspaceQuery.Proofs.Lexeme
import KeyspaceQuery.SyntaxError

/-! Machines that read lexemes one at a time until they have an answer or refuse one. They see no
places, so what they do with a list hangs on its lexemes alone, and what they refuse is settled by
the lexemes up to that one. -/

namespace KeyspaceQuery

/-- Why a lexeme is refused. -/
inductive Refusal
  | expected (list : List Expectation)
  | notAllowed (capability : Capability)
  deriving DecidableEq, Repr

/-- The error of refusing the token `t`. -/
def Refusal.error (r : Refusal) (t : Token) : SyntaxError :=
  match r with
  | expected list => .unexpected t list
  | notAllowed capability => .notAllowed capability t

/-- The cause of an error, which is told by the refused lexeme. -/
def Refusal.cause (r : Refusal) (l : Lexeme) : SyntaxError.Cause :=
  (r.error ⟨l.kind, .start, l.literal⟩).cause

theorem Refusal.cause_error (r : Refusal) (t : Token) : (r.error t).cause = r.cause t.lexeme := by
  cases r <;> rfl

theorem Refusal.position_error (r : Refusal) (t : Token) : (r.error t).position = t.position := by
  cases r <;> rfl

/-- What a machine does with a lexeme. An answer or a refusal may leave the lexeme to others. -/
inductive Move (σ β : Type)
  | go (q : σ)
  | done (b : β) (taken : Bool)
  | refuse (r : Refusal) (taken : Bool)

/-- How a run ends, and what it leaves. -/
inductive Verdict (τ β : Type)
  | done (b : β) (rest : List τ)
  | refused (r : Refusal) (t : τ) (rest : List τ)

variable {σ β τ : Type}

def Move.carryOut (t : τ) (ts : List τ) (next : σ → Verdict τ β) : Move σ β → Verdict τ β
  | go q => next q
  | done b taken => .done b (if taken then ts else t :: ts)
  | refuse r taken => .refused r t (if taken then ts else t :: ts)

/-- The answer that a move comes to, if it comes to one. -/
def Move.answer (l : Lexeme) (ls : List Lexeme) (next : σ → Option (β × List Lexeme)) :
    Move σ β → Option (β × List Lexeme)
  | go q => next q
  | done b taken => some (b, if taken then ls else l :: ls)
  | refuse _ _ => none

def Verdict.rest : Verdict τ β → List τ
  | done _ rest => rest
  | refused _ _ rest => rest

theorem Move.rest_carryOut {t : τ} {ts : List τ} {next : σ → Verdict τ β} {v : Move σ β}
    (h : ∀ q, v = .go q → (next q).rest <:+ ts) : (v.carryOut t ts next).rest <:+ t :: ts := by
  cases v with
  | go q => exact (h q rfl).trans (List.suffix_cons _ _)
  | done b taken | refuse r taken =>
    cases taken with
    | true => exact List.suffix_cons _ _
    | false => exact List.suffix_refl _

abbrev Machine (σ β : Type) := σ → Lexeme → Move σ β

namespace Machine

variable (m : Machine σ β) (view : τ → Lexeme) (z : τ)

/-- Behind the list there is `z` for ever. A machine that would still go on there is stuck. -/
def run : σ → List τ → Verdict τ β
  | q, [] => (m q (view z)).carryOut z [] fun _ => .refused (.expected []) z []
  | q, t :: ts => (m q (view t)).carryOut t ts fun q' => run q' ts

/-- The state behind some lexemes that the machine goes through. -/
def walk : σ → List Lexeme → Option σ
  | q, [] => some q
  | q, l :: ls =>
    match m q l with
    | .go q' => walk q' ls
    | _ => none

/-- The answer found in a list, and what is left of the list. Behind it there is nothing. -/
def answer : σ → List Lexeme → Option (β × List Lexeme)
  | _, [] => none
  | q, l :: ls => (m q l).answer l ls fun q' => answer q' ls

/-- No machine goes on at the end of the input. -/
def Ends : Prop := ∀ q q', m q .eof ≠ .go q'

variable {m view z}

theorem run_nil (h : m.Ends) (hz : view z = .eof) (q : σ) :
    m.run view z q [] = m.run view z q [z] := by
  simp only [run, hz]
  cases hm : m q .eof with
  | go q' => exact absurd hm (h q q')
  | done b taken => rfl
  | refuse r taken => rfl

theorem walk_cons_iff {q q' : σ} {l : Lexeme} {ls : List Lexeme} :
    m.walk q (l :: ls) = some q' ↔ ∃ q₁, m q l = .go q₁ ∧ m.walk q₁ ls = some q' := by
  simp only [walk]
  cases m q l with
  | go q₁ => simp
  | done b taken => simp
  | refuse r taken => simp

theorem walk_concat_iff {q q' : σ} {pre : List Lexeme} {l : Lexeme} :
    m.walk q (pre ++ [l]) = some q' ↔ ∃ q₁, m.walk q pre = some q₁ ∧ m q₁ l = .go q' := by
  induction pre generalizing q with
  | nil =>
    rw [List.nil_append, walk_cons_iff]
    simp [walk]
  | cons k pre ih =>
    simp only [List.cons_append, walk_cons_iff, ih]
    refine ⟨?_, ?_⟩
    · rintro ⟨q₂, hk, q₁, hw, hl⟩
      exact ⟨q₁, ⟨q₂, hk, hw⟩, hl⟩
    · rintro ⟨q₁, ⟨q₂, hk, hw⟩, hl⟩
      exact ⟨q₂, hk, q₁, hw, hl⟩

theorem walk_append {q q' : σ} {pre : List Lexeme} (h : m.walk q pre = some q')
    (post : List Lexeme) : m.walk q (pre ++ post) = m.walk q' post := by
  induction pre generalizing q with
  | nil => cases h; rfl
  | cons l pre ih =>
    obtain ⟨q₁, hm, h⟩ := walk_cons_iff.1 h
    rw [List.cons_append, walk, hm]
    exact ih h

theorem answer_append {q q' : σ} {pre : List Lexeme} (h : m.walk q pre = some q')
    (post : List Lexeme) : m.answer q (pre ++ post) = m.answer q' post := by
  induction pre generalizing q with
  | nil => cases h; rfl
  | cons l pre ih =>
    obtain ⟨q₁, hm, h⟩ := walk_cons_iff.1 h
    rw [List.cons_append, answer, hm]
    exact ih h

theorem run_append {q q' : σ} {pre : List τ} (h : m.walk q (pre.map view) = some q')
    (post : List τ) : m.run view z q (pre ++ post) = m.run view z q' post := by
  induction pre generalizing q with
  | nil => cases h; rfl
  | cons t pre ih =>
    obtain ⟨q₁, hm, h⟩ := walk_cons_iff.1 h
    rw [List.cons_append, run, hm]
    exact ih h

end Machine

/-- The end of the input is the last lexeme and no other. -/
inductive Terminated : List Lexeme → Prop
  | eof : Terminated [.eof]
  | cons {l ls} : l.kind ≠ .endOfInput → Terminated ls → Terminated (l :: ls)

theorem terminated_cons_iff {l : Lexeme} {ls : List Lexeme} :
    Terminated (l :: ls) ↔ l = .eof ∧ ls = [] ∨ l.kind ≠ .endOfInput ∧ Terminated ls := by
  refine ⟨?_, ?_⟩
  · intro h
    cases h with
    | eof => exact .inl ⟨rfl, rfl⟩
    | cons hl h => exact .inr ⟨hl, h⟩
  · rintro (⟨rfl, rfl⟩ | ⟨hl, h⟩)
    · exact .eof
    · exact .cons hl h

theorem eq_nil_of_terminated {l : Lexeme} {ls : List Lexeme} (h : Terminated (l :: ls))
    (hl : l.kind = .endOfInput) : ls = [] := by
  cases h with
  | eof => rfl
  | cons hne _ => exact absurd hl hne

theorem Terminated.ne_nil {ls : List Lexeme} (h : Terminated ls) : ls ≠ [] := by
  cases h <;> exact List.cons_ne_nil _ _

theorem Terminated.eof_suffix {ls : List Lexeme} (h : Terminated ls) : [Lexeme.eof] <:+ ls := by
  induction h with
  | eof => exact List.suffix_refl _
  | cons _ _ ih => exact ih.trans (List.suffix_cons _ _)

theorem terminated_lexemes (cs : List Char) : Terminated (lexemes cs) := by
  fun_induction lexemes cs with
  | case1 => exact .eof
  | case2 c cs ih => exact .cons (Lexeme.kind_cut_ne_endOfInput c cs) ih

namespace Machine

variable {m : Machine σ β} {view : τ → Lexeme} {z : τ}

/-- A machine that goes on has not come to the end of the list. -/
theorem Ends.terminated (h : m.Ends) {q q' : σ} {l : Lexeme} {ls : List Lexeme}
    (hm : m q l = .go q') (hls : Terminated (l :: ls)) : Terminated ls := by
  rcases terminated_cons_iff.1 hls with ⟨rfl, -⟩ | ⟨-, hls⟩
  · exact absurd hm (h q q')
  · exact hls

/-- A run leaves the end of a list that ends where its input does. -/
theorem rest_run_suffix (h : m.Ends) {q : σ} {ts : List τ}
    (hts : Terminated (ts.map view)) : (m.run view z q ts).rest <:+ ts := by
  induction ts generalizing q with
  | nil => cases hts
  | cons t ts ih => exact Move.rest_carryOut fun q' hq => ih (h.terminated hq hts)

/-- A run on a list that ends where its input does answers what the list has in it. -/
theorem answer_map (h : m.Ends) {q : σ} {ts : List τ} (hts : Terminated (ts.map view)) :
    m.answer q (ts.map view) =
      match m.run view z q ts with
      | .done b rest => some (b, rest.map view)
      | .refused _ _ _ => none := by
  induction ts generalizing q with
  | nil => cases hts
  | cons t ts ih =>
    simp only [List.map_cons, answer, run]
    cases hm : m q (view t) with
    | go q' => exact ih (h.terminated hm hts)
    | done b taken => cases taken <;> rfl
    | refuse r taken => rfl

/-- A refusal happens at an item of the list, in a state that the items before it lead to. -/
theorem exists_refuse_of_run (h : m.Ends) {q : σ} {ts rest : List τ} {r : Refusal} {t : τ}
    (hts : Terminated (ts.map view)) (hr : m.run view z q ts = .refused r t rest) :
    ∃ pre post q' taken, ts = pre ++ t :: post ∧ m.walk q (pre.map view) = some q' ∧
      m q' (view t) = .refuse r taken := by
  induction ts generalizing q with
  | nil => cases hts
  | cons u ts ih =>
    rw [run] at hr
    cases hm : m q (view u) with
    | go q₁ =>
      rw [hm] at hr
      obtain ⟨pre, post, q', taken, rfl, hw, hq⟩ := ih (h.terminated hm hts) hr
      exact ⟨u :: pre, post, q', taken, rfl, walk_cons_iff.2 ⟨q₁, hm, hw⟩, hq⟩
    | done b taken => rw [hm] at hr; cases hr
    | refuse r' taken =>
      rw [hm] at hr
      cases hr
      exact ⟨[], ts, q, taken, rfl, rfl, hm⟩

end Machine

end KeyspaceQuery
