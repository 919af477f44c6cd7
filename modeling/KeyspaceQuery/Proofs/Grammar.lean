import KeyspaceQuery.Program
import KeyspaceQuery.Proofs.Machine

/-! The grammar of the query language, over lexemes. A phrase stands at the front of a list, where
some of the list is left behind it. Blanks may stand before any symbol, except inside the name of a
keyspace, where what stands behind the name counts as well: it must not be a dot. -/

namespace KeyspaceQuery.Grammar

/-- A kind of phrase: the tree, the list it stands at the front of, and what is left of the list. -/
abbrev Phrase (α : Type) := α → List Lexeme → List Lexeme → Prop

inductive Symbol (kind : TokenKind) : Phrase String
  | here {w rest} : Symbol kind w (⟨kind, w⟩ :: rest) rest
  | blank {l w ls rest} : l.kind = .whitespace → Symbol kind w ls rest →
    Symbol kind w (l :: ls) rest

/-- A symbol whose literal says nothing. -/
def Mark (kind : TokenKind) (ls rest : List Lexeme) : Prop := ∃ w, Symbol kind w ls rest

abbrev Word (k : Keyword) := Mark (.keyword k)

abbrev Identifier := Symbol .identifier

def Terminator (ls rest : List Lexeme) : Prop := Mark .endOfInput ls rest ∨ Mark .semicolon ls rest

inductive Parts : Phrase (List String)
  | last {w rest} : (∀ l ∈ rest.head?, l.kind ≠ .dot) → Parts [w] (⟨.identifier, w⟩ :: rest) rest
  | dot {w d ws ls rest} : Parts ws ls rest →
    Parts (w :: ws) (⟨.identifier, w⟩ :: ⟨.dot, d⟩ :: ls) rest

inductive Keyspace : Phrase Path
  | parts {ws ls rest} : Parts ws ls rest → Keyspace ⟨".".intercalate ws⟩ ls rest
  | blank {l p ls rest} : l.kind = .whitespace → Keyspace p ls rest → Keyspace p (l :: ls) rest

/-- One or more phrases with a symbol between each two. -/
inductive Joined {α : Type} (kind : TokenKind) (item : Phrase α) : Phrase (List α)
  | one {x a b} : item x a b → Joined kind item [x] a b
  | cons {x xs a b c d} : item x a b → Mark kind b c → Joined kind item xs c d →
    Joined kind item (x :: xs) a d

/-- The only filters of an `UPSERT`. -/
inductive Equality : Phrase Filter
  | literal {k v a b c d} : Identifier k a b → Mark .equal b c → Symbol .str v c d →
    Equality (.equality k (.literal v)) a d

/-- The filters of `SELECT` and `DELETE`. -/
inductive Condition : Phrase Filter
  | equality {f a b} : Equality f a b → Condition f a b
  | either {k v u a b c d e f} : Identifier k a b → Mark .equal b c → Symbol .str v c d →
    Mark .or d e → Symbol .str u e f → Condition (.equality k (.group ⟨.or, [v, u]⟩)) a f
  | between {k v u a b c d e f} : Identifier k a b → Word .between b c → Symbol .str v c d →
    Mark .and d e → Symbol .str u e f → Condition (.between k ⟨.and, [v, u]⟩) a f

inductive Keys : Phrase (List String)
  | one {k a b c} : Word .key a b → Identifier k b c → Keys [k] a c
  | several {ks a b c} : Word .keys a b → Joined .comma Identifier ks b c → Keys ks a c

/-- A statement without what closes it. -/
inductive Body : Phrase Statement
  | create {p ks a b c d e f} : Word .create a b → Word .keyspace b c → Keyspace p c d →
    Word .withWord d e → Keys ks e f → Body (.create p ks) a f
  | drop {p a b c d} : Word .drop a b → Word .keyspace b c → Keyspace p c d → Body (.drop p) a d
  | select {p fs a b c d e f} : Word .select a b → Word .fromWord b c → Keyspace p c d →
    Word .whereWord d e → Joined .and Condition fs e f → Body (.select p fs) a f
  | delete {p fs a b c d e f} : Word .delete a b → Word .fromWord b c → Keyspace p c d →
    Word .whereWord d e → Joined .and Condition fs e f → Body (.delete p fs) a f
  | upsert {v p fs a b c d e f g} : Word .upsert a b → Symbol .str v b c → Word .into c d →
    Keyspace p d e → Word .whereWord e f → Joined .and Equality fs f g → Body (.upsert v p fs) a g

/-- A statement as a parser of statements takes it. A `DROP` ends with its keyspace. -/
inductive Sentence : Phrase Statement
  | closed {s a b c} : (∀ p, s ≠ .drop p) → Body s a b → Terminator b c → Sentence s a c
  | drop {p a b} : Body (.drop p) a b → Sentence (.drop p) a b

/-- The first lexemes `pre` of a list are a sentence there. -/
def Begins (s : Statement) (pre ls : List Lexeme) : Prop :=
  ∃ rest, ls = pre ++ rest ∧ Sentence s ls rest

/-- The statements of a list that is a program from its front to its end. -/
inductive Sequence : List Statement → List Lexeme → Prop
  | nil {a} : Mark .endOfInput a [] → Sequence [] a
  | last {s a b} : Body s a b → Mark .endOfInput b [] → Sequence [s] a
  | skip {ss a b} : Mark .semicolon a b → Sequence ss b → Sequence ss a
  | cons {s ss a b c} : Body s a b → Mark .semicolon b c → Sequence ss c → Sequence (s :: ss) a

section Rest

variable {ls mid rest : List Lexeme}

/-- What is left behind some lexemes that do not reach the end of the input. -/
def Leaves (ls rest : List Lexeme) : Prop :=
  ∃ pre, ls = pre ++ rest ∧ ∀ l ∈ pre, l.kind ≠ .endOfInput

theorem Leaves.refl (ls : List Lexeme) : Leaves ls ls := ⟨[], rfl, by simp⟩

theorem Leaves.trans (h : Leaves ls mid) (h' : Leaves mid rest) : Leaves ls rest := by
  obtain ⟨pre, rfl, hpre⟩ := h
  obtain ⟨post, rfl, hpost⟩ := h'
  refine ⟨pre ++ post, (List.append_assoc ..).symm, fun l hl => ?_⟩
  exact (List.mem_append.1 hl).elim (hpre l) (hpost l)

theorem Leaves.cons {l : Lexeme} (hl : l.kind ≠ .endOfInput) (h : Leaves ls rest) :
    Leaves (l :: ls) rest := by
  obtain ⟨pre, rfl, hpre⟩ := h
  exact ⟨l :: pre, rfl, by simpa [hl] using hpre⟩

theorem Leaves.suffix (h : Leaves ls rest) : rest <:+ ls := by
  obtain ⟨pre, rfl, -⟩ := h
  exact List.suffix_append pre rest

theorem Leaves.terminated (h : Leaves ls rest) (hls : Terminated ls) : Terminated rest := by
  obtain ⟨pre, rfl, hpre⟩ := h
  induction pre with
  | nil => exact hls
  | cons l pre ih =>
    have hl := hpre l (by simp)
    rcases terminated_cons_iff.1 hls with ⟨rfl, -⟩ | ⟨-, hls⟩
    · exact absurd rfl hl
    · exact ih (fun m hm => hpre m (by simp [hm])) hls

variable {kind : TokenKind} {w : String}

/-- The blanks before a symbol, and the symbol. -/
theorem Symbol.leaves_cons (h : Symbol kind w ls rest) : Leaves ls (⟨kind, w⟩ :: rest) := by
  induction h with
  | here => exact .refl _
  | blank hl _ ih => exact .cons (by simp [hl]) ih

theorem Symbol.leaves (h : Symbol kind w ls rest) (hk : kind ≠ .endOfInput := by decide) :
    Leaves ls rest :=
  h.leaves_cons.trans (.cons hk (.refl _))

theorem Mark.blank {l : Lexeme} (hl : l.kind = .whitespace) (h : Mark kind ls rest) :
    Mark kind (l :: ls) rest :=
  h.imp fun _ => Symbol.blank hl

theorem Mark.leaves (h : Mark kind ls rest) (hk : kind ≠ .endOfInput := by decide) :
    Leaves ls rest := by
  obtain ⟨w, h⟩ := h
  exact h.leaves hk

theorem Parts.leaves {ws : List String} (h : Parts ws ls rest) : Leaves ls rest := by
  induction h with
  | last _ => exact .cons nofun (.refl _)
  | dot _ ih => exact .cons nofun (.cons nofun ih)

theorem Keyspace.leaves {p : Path} (h : Keyspace p ls rest) : Leaves ls rest := by
  induction h with
  | parts h => exact h.leaves
  | blank hl _ ih => exact .cons (by simp [hl]) ih

theorem Joined.leaves {α : Type} {item : Phrase α} {xs : List α} (h : Joined kind item xs ls rest)
    (hitem : ∀ x a b, item x a b → Leaves a b) (hk : kind ≠ .endOfInput := by decide) :
    Leaves ls rest := by
  induction h with
  | one hx => exact hitem _ _ _ hx
  | cons hx hm _ ih => exact (hitem _ _ _ hx).trans ((hm.leaves hk).trans ih)

theorem Equality.leaves {f : Filter} (h : Equality f ls rest) : Leaves ls rest := by
  cases h with
  | literal hk he hv => exact hk.leaves.trans (he.leaves.trans hv.leaves)

theorem Condition.leaves {f : Filter} (h : Condition f ls rest) : Leaves ls rest := by
  cases h with
  | equality h => exact h.leaves
  | either hk he hv ho hu | between hk he hv ho hu =>
    exact hk.leaves.trans (he.leaves.trans (hv.leaves.trans (ho.leaves.trans hu.leaves)))

theorem Keys.leaves {ks : List String} (h : Keys ks ls rest) : Leaves ls rest := by
  cases h with
  | one hw hk => exact hw.leaves.trans hk.leaves
  | several hw hks => exact hw.leaves.trans (hks.leaves fun _ _ _ h => h.leaves)

theorem Body.leaves {s : Statement} (h : Body s ls rest) : Leaves ls rest := by
  cases h with
  | create hc hk hp hw hks =>
    exact hc.leaves.trans (hk.leaves.trans (hp.leaves.trans (hw.leaves.trans hks.leaves)))
  | drop hd hk hp => exact hd.leaves.trans (hk.leaves.trans hp.leaves)
  | select hs hf hp hw hfs | delete hs hf hp hw hfs =>
    exact hs.leaves.trans (hf.leaves.trans (hp.leaves.trans
      (hw.leaves.trans (hfs.leaves fun _ _ _ h => h.leaves))))
  | upsert hu hv hi hp hw hfs =>
    exact hu.leaves.trans (hv.leaves.trans (hi.leaves.trans
      (hp.leaves.trans (hw.leaves.trans (hfs.leaves fun _ _ _ h => h.leaves)))))

theorem Mark.suffix (h : Mark kind ls rest) : rest <:+ ls := by
  obtain ⟨w, h⟩ := h
  exact (List.suffix_cons _ _).trans h.leaves_cons.suffix

theorem Sentence.suffix {s : Statement} (h : Sentence s ls rest) : rest <:+ ls := by
  rcases h with ⟨-, hb, ht | ht⟩ | hb
  · exact ht.suffix.trans hb.leaves.suffix
  · exact ht.suffix.trans hb.leaves.suffix
  · exact hb.leaves.suffix

end Rest

end KeyspaceQuery.Grammar
