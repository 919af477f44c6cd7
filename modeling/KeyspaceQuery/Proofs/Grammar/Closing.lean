import KeyspaceQuery.Proofs.Grammar.Program

/-! What closes the last statement of a program: a semicolon, or the end of the input. It is the end
of the input if and only if some lexeme that is no filler has no semicolon behind it. -/

namespace KeyspaceQuery.Grammar

/-- The last statement of a program is closed by the end of the input. -/
inductive Unclosed : List Lexeme → Prop
  | last {s a b} : Body s a b → Mark .endOfInput b [] → Unclosed a
  | skip {a b} : Mark .semicolon a b → Unclosed b → Unclosed a
  | cons {s a b c} : Body s a b → Mark .semicolon b c → Unclosed c → Unclosed a

/-- A lexeme that is no filler has no semicolon behind it. -/
def Open : List Lexeme → Prop
  | [] => False
  | l :: ls => (¬ l.IsFiller ∧ ∀ k ∈ ls, k.kind ≠ .semicolon) ∨ Open ls

section Open

variable {l : Lexeme} {ls pre rest : List Lexeme}

theorem open_concat_iff :
    Open (ls ++ [l]) ↔ l.kind ≠ .semicolon ∧ (¬ l.IsFiller ∨ Open ls) := by
  induction ls with
  | nil =>
    simp only [List.nil_append, Open, or_false]
    refine ⟨fun h => ⟨fun hl => h.1 (.inr (.inl hl)), h.1⟩, fun h => ⟨h.2, by simp⟩⟩
  | cons k ls ih =>
    simp only [List.cons_append, Open, ih, List.forall_mem_append, List.forall_mem_singleton]
    tauto

theorem not_open_of_fillers (h : ∀ l ∈ ls, l.IsFiller) : ¬ Open ls := by
  induction ls with
  | nil => exact id
  | cons l ls ih =>
    obtain ⟨hl, hls⟩ := List.forall_mem_cons.1 h
    exact fun ho => ho.elim (fun h => h.1 hl) (ih hls)

theorem Open.append (h : Open ls) (pre : List Lexeme) : Open (pre ++ ls) := by
  induction pre with
  | nil => exact h
  | cons k pre ih => exact .inr ih

theorem Open.of_suffix (h : Open rest) (hrest : rest <:+ ls) : Open ls := by
  obtain ⟨pre, rfl⟩ := hrest
  exact h.append pre

/-- What stands before a semicolon is closed. -/
theorem open_of_append_semicolon (hl : l.kind = .semicolon) (h : Open (pre ++ l :: ls)) :
    Open ls := by
  induction pre with
  | nil => exact h.resolve_left fun h => h.1 (.inr (.inl hl))
  | cons k pre ih =>
    rcases h with ⟨-, h⟩ | h
    · exact absurd hl (h l (by simp))
    · exact ih h

end Open

section Last

variable {ls mid rest : List Lexeme}

/-- The last lexeme taken is no filler. -/
def EndsFirm (ls rest : List Lexeme) : Prop := ∃ l : Lexeme, ¬ l.IsFiller ∧ l :: rest <:+ ls

theorem EndsFirm.behind (h : EndsFirm mid rest) (hmid : mid <:+ ls) : EndsFirm ls rest := by
  obtain ⟨l, hl, hsuffix⟩ := h
  exact ⟨l, hl, hsuffix.trans hmid⟩

variable {kind : TokenKind} {w : String}

theorem Symbol.endsFirm (h : Symbol kind w ls rest)
    (hk : ¬ (⟨kind, w⟩ : Lexeme).IsFiller := by simp [Lexeme.IsFiller]) : EndsFirm ls rest :=
  ⟨_, hk, h.leaves_cons.suffix⟩

theorem Parts.endsFirm {ws : List String} (h : Parts ws ls rest) : EndsFirm ls rest := by
  induction h with
  | last _ => exact ⟨_, by simp [Lexeme.IsFiller], List.suffix_refl _⟩
  | dot _ ih => exact ih.behind ⟨[_, _], rfl⟩

theorem Keyspace.endsFirm {p : Path} (h : Keyspace p ls rest) : EndsFirm ls rest := by
  induction h with
  | parts h => exact h.endsFirm
  | blank _ _ ih => exact ih.behind (List.suffix_cons _ _)

theorem Joined.endsFirm {α : Type} {item : Phrase α} {xs : List α}
    (h : Joined kind item xs ls rest) (hitem : ∀ x a b, item x a b → EndsFirm a b)
    (hleaves : ∀ x a b, item x a b → Leaves a b) : EndsFirm ls rest := by
  induction h with
  | one hx => exact hitem _ _ _ hx
  | cons hx hm _ ih => exact ih.behind (hm.suffix.trans (hleaves _ _ _ hx).suffix)

theorem Equality.endsFirm {f : Filter} (h : Equality f ls rest) : EndsFirm ls rest := by
  cases h with
  | literal hk he hv => exact hv.endsFirm.behind (hk.leaves.trans he.leaves).suffix

theorem Condition.endsFirm {f : Filter} (h : Condition f ls rest) : EndsFirm ls rest := by
  cases h with
  | equality h => exact h.endsFirm
  | either hk he hv ho hu | between hk he hv ho hu =>
    exact hu.endsFirm.behind
      (hk.leaves.trans (he.leaves.trans (hv.leaves.trans ho.leaves))).suffix

theorem Keys.endsFirm {ks : List String} (h : Keys ks ls rest) : EndsFirm ls rest := by
  cases h with
  | one hw hk => exact hk.endsFirm.behind hw.suffix
  | several hw hks =>
    exact (hks.endsFirm (fun _ _ _ h => h.endsFirm) fun _ _ _ h => h.leaves).behind hw.suffix

theorem Body.endsFirm {s : Statement} (h : Body s ls rest) : EndsFirm ls rest := by
  cases h with
  | create hc hk hp hw hks =>
    exact hks.endsFirm.behind
      (hc.leaves.trans (hk.leaves.trans (hp.leaves.trans hw.leaves))).suffix
  | drop hd hk hp => exact hp.endsFirm.behind (hd.leaves.trans hk.leaves).suffix
  | select hs hf hp hw hfs | delete hs hf hp hw hfs =>
    exact (hfs.endsFirm (fun _ _ _ h => h.endsFirm) fun _ _ _ h => h.leaves).behind
      (hs.leaves.trans (hf.leaves.trans (hp.leaves.trans hw.leaves))).suffix
  | upsert hu hv hi hp hw hfs =>
    exact (hfs.endsFirm (fun _ _ _ h => h.endsFirm) fun _ _ _ h => h.leaves).behind
      (hu.leaves.trans (hv.leaves.trans (hi.leaves.trans (hp.leaves.trans hw.leaves)))).suffix

end Last

section Closing

variable {ls rest : List Lexeme}

/-- A semicolon closes what stands before it. -/
theorem Mark.open_of_open (h : Mark .semicolon rest ls) {all : List Lexeme} (hall : rest <:+ all)
    (ho : Open all) : Open ls := by
  obtain ⟨w, h⟩ := h
  obtain ⟨pre, rfl⟩ := h.leaves_cons.suffix.trans hall
  exact open_of_append_semicolon rfl ho

/-- Only blanks stand before the end of the input if a phrase ends with it. -/
theorem Mark.blank_or_end (h : Mark .endOfInput ls []) :
    ∀ l ∈ ls, l.kind = .whitespace ∨ l.kind = .endOfInput := by
  obtain ⟨w, h⟩ := h
  generalize hrest : ([] : List Lexeme) = rest at h
  induction h with
  | here =>
    subst hrest
    exact List.forall_mem_singleton.2 (.inr rfl)
  | blank hl _ ih => exact List.forall_mem_cons.2 ⟨.inl hl, ih hrest⟩

theorem Unclosed.isOpen (h : Unclosed ls) : Open ls := by
  induction h with
  | last hb hm =>
    obtain ⟨l, hl, hsuffix⟩ := hb.endsFirm
    refine Open.of_suffix ?_ hsuffix
    refine .inl ⟨hl, fun k hk hkind => ?_⟩
    rcases hm.blank_or_end k hk with h | h <;> simp [h] at hkind
  | skip hm _ ih => exact ih.of_suffix hm.suffix
  | cons hb hm _ ih => exact ih.of_suffix (hm.suffix.trans hb.leaves.suffix)

/-- In a program the end of the input closes a statement just if something is still open there. -/
theorem Sequence.unclosed_iff {ss : List Statement} (h : Sequence ss ls) :
    Unclosed ls ↔ Open ls := by
  refine ⟨Unclosed.isOpen, fun ho => ?_⟩
  induction h with
  | nil hm =>
    exact absurd ho (not_open_of_fillers (isFiller_of_mark hm (.inr rfl) (List.forall_mem_nil _)))
  | last hb hm => exact .last hb hm
  | skip hm _ ih => exact .skip hm (ih (hm.open_of_open (List.suffix_refl _) ho))
  | cons hb hm _ ih => exact .cons hb hm (ih (hm.open_of_open hb.leaves.suffix ho))

end Closing

end KeyspaceQuery.Grammar
