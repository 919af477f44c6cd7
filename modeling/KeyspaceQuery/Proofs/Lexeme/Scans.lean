import KeyspaceQuery.Proofs.Lexeme.Places
import Mathlib.Logic.Function.Iterate

/-! The lexer gives the tokens of its text in an endless sequence. Up to the first end of the input
they are the tokens of the text, and from there on the sequence stays at its end. -/

namespace KeyspaceQuery

/-- From number `last` on all tokens are the end of the input. -/
structure EndsAt (T : Nat → Token) (last : Nat) : Prop where
  before : ∀ i, i < last → (T i).kind ≠ .endOfInput
  behind : ∀ i, last ≤ i → (T i).kind = .endOfInput

namespace Source

/-- From `r` the tokens `T` are scanned one after the other for ever, and `S n` is the source behind
the first `n` of them. -/
structure Scans (r : Source) (T : Nat → Token) (S : Nat → Source) : Prop where
  zero : S 0 = r
  succ : ∀ n, (S n).nextToken = .ok (T n, S (n + 1))
  ready : ∀ n, (S n).Ready

theorem exists_nextToken_of_ready {r : Source} (h : r.Ready) :
    ∃ t s, r.nextToken = .ok (t, s) ∧ s.Ready := by
  cases hcs : r.remaining with
  | nil =>
    obtain ⟨t, s, hs, -, hspent⟩ := nextToken_of_remaining_nil h hcs
    exact ⟨t, s, hs, .none hspent.undone⟩
  | cons c cs =>
    obtain ⟨t, s, hs, -, hready, -⟩ := nextToken_of_remaining_cons h hcs
    exact ⟨t, s, hs, hready⟩

theorem exists_scans {r : Source} (h : r.Ready) : ∃ T S, r.Scans T S := by
  have step : ∀ s : { s : Source // s.Ready }, ∃ t, ∃ s' : { s : Source // s.Ready },
      s.1.nextToken = .ok (t, s'.1) := fun s =>
    have ⟨t, s', hs, hready⟩ := exists_nextToken_of_ready s.2
    ⟨t, ⟨s', hready⟩, hs⟩
  choose token after hstep using step
  refine ⟨fun n => token (after^[n] ⟨r, h⟩), fun n => (after^[n] ⟨r, h⟩).1, rfl, fun n => ?_,
    fun n => (after^[n] ⟨r, h⟩).2⟩
  rw [Function.iterate_succ_apply']
  exact hstep _

variable {T : Nat → Token} {S : Nat → Source} {r : Source} {m : Nat}

/-- Any number of scans from a place in the sequence. -/
theorem Scans.serve (h : r.Scans T S) (m n : Nat) :
    serve reply (List.replicate n .scan) (S m) =
      .ok ((List.range' m n).map (.token ∘ T), S (m + n)) := by
  induction n generalizing m with
  | zero => rfl
  | succ n ih =>
    rw [List.replicate_succ, List.range'_succ, Nat.add_comm n 1, ← Nat.add_assoc]
    exact serve_cons (reply_scan (h.succ m)) (ih (m + 1))

/-- The tokens that the lexer collects are those up to the first end of the input. -/
theorem Scans.exists_of_tokens (hS : r.Scans T S) {ts : List Token} (h : (S m).tokens = .ok ts) :
    ∃ n, ts = (List.range' m (n + 1)).map T ∧ (T (m + n)).kind = .endOfInput ∧
      ∀ i, m ≤ i → i < m + n → (T i).kind ≠ .endOfInput := by
  induction ts generalizing m with
  | nil =>
    unfold tokens at h
    split at h
    · cases h
    · split at h
      · cases h
      · obtain ⟨ts, -, h⟩ := bind_eq_ok_iff.1 h
        cases h
  | cons t ts ih =>
    unfold tokens at h
    split at h
    · cases h
    · rename_i u s hnext
      cases (hS.succ m).symm.trans hnext
      split at h
      · cases h
        exact ⟨0, rfl, ‹_›, fun i hi hlt => absurd hi (Nat.not_le.2 hlt)⟩
      · obtain ⟨us, hus, h⟩ := bind_eq_ok_iff.1 h
        cases h
        obtain ⟨n, rfl, hend, hbefore⟩ := ih hus
        refine ⟨n + 1, rfl, by rwa [Nat.add_comm n 1, ← Nat.add_assoc], fun i hi hlt => ?_⟩
        rcases Nat.eq_or_lt_of_le hi with rfl | hi
        · assumption
        · exact hbefore i hi (by omega)

theorem spent_of_nextToken {s : Source} {t : Token} (h : r.Ready)
    (hnext : r.nextToken = .ok (t, s)) (ht : t.kind = .endOfInput) : ∃ z, s.Spent z := by
  cases hcs : r.remaining with
  | nil =>
    obtain ⟨t', s', hnext', -, hspent⟩ := nextToken_of_remaining_nil h hcs
    cases hnext.symm.trans hnext'
    exact ⟨_, hspent⟩
  | cons c cs =>
    obtain ⟨t', s', hnext', hlexeme, -⟩ := nextToken_of_remaining_cons h hcs
    cases hnext.symm.trans hnext'
    rw [← Token.kind_lexeme, hlexeme] at ht
    exact absurd ht (Lexeme.kind_cut_ne_endOfInput c cs)

theorem Scans.step_of_spent (hS : r.Scans T S) {z : Token} (h : (S m).Spent z) :
    T m = z ∧ (S (m + 1)).Spent z := by
  obtain ⟨s, hnext, hs⟩ := nextToken_of_spent h
  obtain ⟨ht, hsource⟩ := Prod.mk.inj (Except.ok.inj ((hS.succ m).symm.trans hnext))
  exact ⟨ht, hsource ▸ hs⟩

theorem Scans.eq_of_spent (hS : r.Scans T S) {z : Token} (h : (S m).Spent z) {i : Nat}
    (hi : m ≤ i) : T i = z := by
  have hspent : (S i).Spent z := by
    induction i, hi using Nat.le_induction with
    | base => exact h
    | succ i hi ih => exact (hS.step_of_spent ih).2
  exact (hS.step_of_spent hspent).1

theorem Scans.onTape (hS : r.Scans T S) {text : List Char} (h : r.OnTape text) (n : Nat) :
    (S n).OnTape text := by
  induction n with
  | zero => rwa [hS.zero]
  | succ n ih => exact onTape_of_nextToken ih (hS.succ n)

/-- The tokens of a text, and one column behind its end the token that comes for ever after. -/
theorem Scans.exists_endsAt {text : String} (hS : (ofString text).Scans T S) :
    ∃ last, EndsAt T last ∧ lex text = .ok ((List.range (last + 1)).map T) ∧
      T (last + 1) = ⟨.endOfInput, (Position.start.past text.toList).right, ""⟩ := by
  obtain ⟨-, ts, hlex, -⟩ := emits_of_ready (ready_ofString text)
  obtain ⟨last, rfl, hlast, hbefore⟩ := hS.exists_of_tokens (m := 0) (hS.zero.symm ▸ hlex)
  rw [Nat.zero_add] at hlast hbefore
  obtain ⟨z, hspent⟩ := spent_of_nextToken (hS.ready last) (hS.succ last) hlast
  refine ⟨last, ⟨fun i => hbefore i (Nat.zero_le i), fun i hi => ?_⟩, ?_, ?_⟩
  · rcases Nat.eq_or_lt_of_le hi with rfl | hi
    · exact hlast
    · rw [hS.eq_of_spent hspent hi, hspent.eq]
  · rw [List.range_eq_range']
    exact hlex
  · obtain ⟨s, hnext⟩ := nextToken_of_end (hS.ready (last + 1))
      (hS.onTape ⟨3, at_ofString text⟩ (last + 1)) (remaining_of_spent hspent)
    have ht := congrArg Prod.fst (Except.ok.inj ((hS.succ (last + 1)).symm.trans hnext))
    rwa [hspent.ended, if_pos rfl] at ht

end Source

end KeyspaceQuery
