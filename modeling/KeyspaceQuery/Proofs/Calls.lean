import KeyspaceQuery.Fault

/-! Calls made one after the other on one object. What every single call keeps, a whole sequence of
them keeps. -/

namespace KeyspaceQuery

variable {κ ρ σ : Type}

/-- Each call is answered in the state that the one before it left. A fault ends the sequence. -/
def serve (reply : κ → σ → Except Fault (ρ × σ)) : List κ → σ → Except Fault (List ρ × σ)
  | [], s => .ok ([], s)
  | call :: calls, s => do
    let (answer, s₁) ← reply call s
    let (answers, s₂) ← serve reply calls s₁
    return (answer :: answers, s₂)

/-- What is answered, without the state that is left. -/
def replies (reply : κ → σ → Except Fault (ρ × σ)) (calls : List κ) (s : σ) :
    Except Fault (List ρ) :=
  (serve reply calls s).map Prod.fst

variable {reply : κ → σ → Except Fault (ρ × σ)}

theorem serve_cons {call : κ} {calls : List κ} {s s₁ s₂ : σ} {answer : ρ} {answers : List ρ}
    (h : reply call s = .ok (answer, s₁)) (h' : serve reply calls s₁ = .ok (answers, s₂)) :
    serve reply (call :: calls) s = .ok (answer :: answers, s₂) := by
  simp only [serve, h, bind, Except.bind, h']
  rfl

theorem replies_cons {call : κ} {s s₁ : σ} {answer : ρ} (h : reply call s = .ok (answer, s₁))
    (calls : List κ) :
    replies reply (call :: calls) s = (replies reply calls s₁).map (answer :: ·) := by
  simp only [replies, serve, h, bind, Except.bind]
  cases serve reply calls s₁ <;> rfl

/-- More calls are answered in the state that the first ones left. -/
theorem replies_append {calls : List κ} {s s₁ : σ} {answers : List ρ}
    (h : serve reply calls s = .ok (answers, s₁)) (calls' : List κ) :
    replies reply (calls ++ calls') s = (replies reply calls' s₁).map (answers ++ ·) := by
  induction calls generalizing s answers with
  | nil =>
    cases h
    cases hr : replies reply calls' s₁ <;> exact hr
  | cons call calls ih =>
    obtain ⟨⟨answer, s'⟩, hcall, h⟩ := bind_eq_ok_iff.1 h
    obtain ⟨⟨answers', s₂⟩, hcalls, h⟩ := bind_eq_ok_iff.1 h
    cases h
    rw [List.cons_append, replies_cons hcall, ih hcalls]
    cases replies reply calls' s₁ <;> rfl

theorem exists_serve_of_replies {calls : List κ} {s : σ} {answers : List ρ}
    (h : replies reply calls s = .ok answers) : ∃ s', serve reply calls s = .ok (answers, s') := by
  rw [replies] at h
  cases hserve : serve reply calls s with
  | error f =>
    rw [hserve] at h
    cases h
  | ok r =>
    rw [hserve] at h
    cases h
    exact ⟨r.2, rfl⟩

theorem replies_of_fault {call : κ} {s : σ} {f : Fault} (h : reply call s = .error f)
    (calls : List κ) : replies reply (call :: calls) s = .error f := by
  simp only [replies, serve, h]
  rfl

/-- Every call has its reply. -/
theorem length_of_serve {calls : List κ} {s s' : σ} {answers : List ρ}
    (h : serve reply calls s = .ok (answers, s')) : answers.length = calls.length := by
  induction calls generalizing s answers with
  | nil =>
    cases h
    rfl
  | cons call calls ih =>
    obtain ⟨⟨answer, s₁⟩, -, h⟩ := bind_eq_ok_iff.1 h
    obtain ⟨⟨answers', s₂⟩, h', h⟩ := bind_eq_ok_iff.1 h
    cases h
    exact congrArg Nat.succ (ih h')

/-- An invariant of single calls, under which each is answered with something in `P`, is one of all
sequences. -/
theorem exists_serve {I : σ → Prop} {P : ρ → Prop}
    (step : ∀ call s, I s → ∃ answer s₁, reply call s = .ok (answer, s₁) ∧ I s₁ ∧ P answer)
    (calls : List κ) {s : σ} (hs : I s) :
    ∃ answers s', serve reply calls s = .ok (answers, s') ∧ I s' ∧
      ∀ answer ∈ answers, P answer := by
  induction calls generalizing s with
  | nil => exact ⟨[], s, rfl, hs, List.forall_mem_nil _⟩
  | cons call calls ih =>
    obtain ⟨answer, s₁, h, hs₁, hP⟩ := step call s hs
    obtain ⟨answers, s₂, h', hs₂, hPs⟩ := ih hs₁
    exact ⟨answer :: answers, s₂, serve_cons h h', hs₂, List.forall_mem_cons.2 ⟨hP, hPs⟩⟩

section Agree

variable {τ : Type} {R : σ → τ → Prop}

/-- Two objects fault alike, or answer alike and are left in related states. -/
inductive Agree (R : σ → τ → Prop) : Except Fault (ρ × σ) → Except Fault (ρ × τ) → Prop
  | fault (f : Fault) : Agree R (.error f) (.error f)
  | answer (a : ρ) {s : σ} {t : τ} (h : R s t) : Agree R (.ok (a, s)) (.ok (a, t))

/-- Objects that agree on single calls, in all states that are related, agree on all sequences. -/
theorem agree_serve {reply' : κ → τ → Except Fault (ρ × τ)}
    (step : ∀ call s t, R s t → Agree R (reply call s) (reply' call t)) (calls : List κ) {s : σ}
    {t : τ} (h : R s t) : Agree R (serve reply calls s) (serve reply' calls t) := by
  induction calls generalizing s t with
  | nil => exact .answer [] h
  | cons call calls ih =>
    have hstep := step call s t h
    simp only [serve]
    generalize reply call s = x at hstep ⊢
    generalize reply' call t = y at hstep ⊢
    cases hstep with
    | fault f => exact .fault f
    | @answer a s₁ t₁ h₁ =>
      have hcalls := ih h₁
      simp only [bind, Except.bind]
      generalize serve reply calls s₁ = x at hcalls ⊢
      generalize serve reply' calls t₁ = y at hcalls ⊢
      cases hcalls with
      | fault f => exact .fault f
      | answer as h₂ => exact .answer (a :: as) h₂

theorem Agree.map_fst_eq {x : Except Fault (ρ × σ)} {y : Except Fault (ρ × τ)} (h : Agree R x y) :
    x.map Prod.fst = y.map Prod.fst := by
  cases h <;> rfl

end Agree

end KeyspaceQuery
