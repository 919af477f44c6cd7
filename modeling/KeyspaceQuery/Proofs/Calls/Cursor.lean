import KeyspaceQuery.Proofs.Lexeme.Scans
import KeyspaceQuery.Token.Stream

/-! A token stream beside a cursor. The lexer gives the tokens of its text in an endless sequence,
and a cursor on that sequence goes forward and may step back once. The stream keeps one token and
whether it was put back, and that is enough: calls on it, in whatever order, are answered as the
cursor answers them. -/

namespace KeyspaceQuery

namespace TokenStream

/-- What may be asked of a token stream, and what it answers. -/
inductive Call
  | next | nextPastBlanks | putBack | peek
  deriving DecidableEq, Repr

inductive Reply
  | token (t : Token)
  | done
  | char (c : Option Char)
  deriving DecidableEq, Repr

def reply : Call → TokenStream → Except Fault (Reply × TokenStream)
  | .next, b => do
    let (t, c) ← b.next
    return (.token t, c)
  | .nextPastBlanks, b => do
    let (t, c) ← b.nextPastBlanks
    return (.token t, c)
  | .putBack, b => do return (.done, ← b.putBack)
  | .peek, b => .ok (.char b.peek, b)

end TokenStream

open TokenStream (Call Reply)

/-- A place in a sequence of tokens, with how many of them were ever gone over and the latest call,
those to peek left out. -/
structure Cursor where
  place : Nat := 0
  furthest : Nat := 0
  latest : Option Call := none
  deriving DecidableEq, Repr

namespace Cursor

/-- Goes to a place on account of a call. -/
def goTo (k : Cursor) (call : Call) (n : Nat) : Cursor := ⟨n, max k.furthest n, some call⟩

theorem goTo_goTo {m n : Nat} (h : m ≤ n) (k : Cursor) (call call' : Call) :
    (k.goTo call m).goTo call' n = k.goTo call' n := by
  simp only [goTo, Nat.max_assoc, Nat.max_eq_right h]

/-- Calls and the replies to them, if `T` are the tokens and `rest n` is what the first `n` of them
leave of the text. Only a step back can fault, and then no reply is given at all. -/
inductive Answers (T : Nat → Token) (rest : Nat → List Char) :
    Cursor → List Call → Except Fault (List Reply) → Prop
  | nil {k} : Answers T rest k [] (.ok [])
  | next {k calls o} : Answers T rest (k.goTo .next (k.place + 1)) calls o →
    Answers T rest k (.next :: calls) (o.map (.token (T k.place) :: ·))
  | nextPastBlanks {k j calls o} : k.place ≤ j →
    (∀ i, k.place ≤ i → i < j → (T i).kind = .whitespace) → (T j).kind ≠ .whitespace →
    Answers T rest (k.goTo .nextPastBlanks (j + 1)) calls o →
    Answers T rest k (.nextPastBlanks :: calls) (o.map (.token (T j) :: ·))
  | putBack {k n call calls o} : k.latest = some call → call ≠ .putBack → k.place = n + 1 →
    Answers T rest (k.goTo .putBack n) calls o →
    Answers T rest k (.putBack :: calls) (o.map (.done :: ·))
  | nothingTaken {k calls} : k.latest = none →
    Answers T rest k (.putBack :: calls) (.error .nothingTaken)
  | alreadyPutBack {k calls} : k.latest = some .putBack →
    Answers T rest k (.putBack :: calls) (.error .alreadyPutBack)
  | peek {k calls o} : Answers T rest k calls o →
    Answers T rest k (.peek :: calls) (o.map (.char (rest k.furthest).head? :: ·))

variable {T : Nat → Token} {rest : Nat → List Char}

theorem eq_of_first_nonblank {m i j : Nat} (hi : m ≤ i) (hj : m ≤ j)
    (hblank : ∀ n, m ≤ n → n < i → (T n).kind = .whitespace) (hne : (T i).kind ≠ .whitespace)
    (hblank' : ∀ n, m ≤ n → n < j → (T n).kind = .whitespace) (hne' : (T j).kind ≠ .whitespace) :
    i = j := by
  rcases Nat.lt_trichotomy i j with hlt | heq | hlt
  · exact absurd (hblank' i hi hlt) hne
  · exact heq
  · exact absurd (hblank j hj hlt) hne'

/-- A cursor has one answer to any calls. -/
theorem Answers.unique {k : Cursor} {calls : List Call} {o o' : Except Fault (List Reply)}
    (h : Answers T rest k calls o) (h' : Answers T rest k calls o') : o = o' := by
  induction h generalizing o' with
  | nil =>
    cases h'
    rfl
  | next _ ih =>
    cases h' with
    | next h' => rw [ih h']
  | nextPastBlanks hj hblank hne _ ih =>
    cases h' with
    | nextPastBlanks hj' hblank' hne' h' =>
      obtain rfl := eq_of_first_nonblank hj hj' hblank hne hblank' hne'
      rw [ih h']
  | putBack hk hcall hn _ ih =>
    cases h' with
    | putBack _ _ hn' h' =>
      obtain rfl := Nat.succ.inj (hn.symm.trans hn')
      rw [ih h']
    | nothingTaken hk' => cases hk.symm.trans hk'
    | alreadyPutBack hk' =>
      cases hk.symm.trans hk'
      exact absurd rfl hcall
  | nothingTaken hk =>
    cases h' with
    | putBack hk' => cases hk.symm.trans hk'
    | nothingTaken => rfl
    | alreadyPutBack hk' => cases hk.symm.trans hk'
  | alreadyPutBack hk =>
    cases h' with
    | putBack hk' hcall =>
      cases hk.symm.trans hk'
      exact absurd rfl hcall
    | nothingTaken hk' => cases hk.symm.trans hk'
    | alreadyPutBack => rfl
  | peek _ ih =>
    cases h' with
    | peek h' => rw [ih h']

end Cursor

namespace TokenStream

variable {T : Nat → Token} {S : Nat → Source} {r : Source}

/-- The slot remembers the token before the cursor, or at it if that token was put back. -/
inductive Fits (T : Nat → Token) : Cursor → Slot → Prop
  | fresh : Fits T {} .fresh
  | taken {n call} : call ≠ .putBack → Fits T ⟨n + 1, n + 1, some call⟩ (.taken (T n))
  | putBack {n} : Fits T ⟨n, n + 1, some .putBack⟩ (.putBack (T n))

theorem Fits.furthest_le {k : Cursor} {slot : Slot} (h : Fits T k slot) :
    k.furthest ≤ k.place + 1 := by
  cases h <;> simp

/-- What was noted about tokens. -/
def traces (b : TokenStream) : List Event := b.journal.toList.filter (·.level = "TRACE")

theorem traces_note {e : Event} (he : e.level ≠ "TRACE") (b : TokenStream) :
    (b.note e).traces = b.traces := by
  simp [traces, TokenStream.note, he]

theorem traces_push {b c : TokenStream} {t : Token}
    (h : c.journal = b.journal.push (.scanned t)) : c.traces = b.traces ++ [.scanned t] := by
  rw [traces, h, Array.toList_push, List.filter_append]
  rfl

/-- The stream stands where the cursor does. Its source is behind all tokens ever gone over, and
each of them was noted once. -/
structure On (T : Nat → Token) (S : Nat → Source) (k : Cursor) (b : TokenStream) : Prop where
  slot : Fits T k b.slot
  source : b.source = S k.furthest
  traces : b.traces = (List.range k.furthest).map (.scanned ∘ T)

theorem on_ofString {text : String} (hS : (Source.ofString text).Scans T S) :
    On T S {} (ofString text) where
  slot := .fresh
  source := hS.zero.symm
  traces := rfl

theorem On.note {k : Cursor} {b : TokenStream} (h : On T S k b) {e : Event}
    (he : e.level ≠ "TRACE") : On T S k (b.note e) where
  slot := h.slot
  source := h.source
  traces := (traces_note he b).trans h.traces

theorem On.goTo_eq {k : Cursor} {b : TokenStream} (h : On T S k b) {n : Nat} (hn : k.place ≤ n)
    (call : Call) : k.goTo call (n + 1) = ⟨n + 1, n + 1, some call⟩ := by
  have hfurthest := h.slot.furthest_le
  rw [Cursor.goTo, Nat.max_eq_right (by omega)]

/-- A stream that nothing was put back to takes the next token from its source. -/
theorem On.pull (hS : r.Scans T S) {k : Cursor} {b : TokenStream} (h : On T S k b)
    (hk : k.place = k.furthest) (hslot : ∀ t, b.slot ≠ .putBack t) :
    ∃ c, b.next = .ok (T k.place, c) ∧
      ∀ call, call ≠ .putBack → On T S ⟨k.place + 1, k.place + 1, some call⟩ c := by
  refine ⟨⟨S (k.furthest + 1), .taken (T k.furthest), b.journal.push (.scanned (T k.furthest))⟩,
    ?_, fun call hcall => ⟨hk ▸ .taken hcall, hk ▸ rfl, ?_⟩⟩
  · unfold TokenStream.next
    split
    · exact absurd ‹_› (hslot _)
    · rw [h.source, hS.succ, hk]
      rfl
  · rw [traces_push rfl, h.traces, hk, List.range_succ, List.map_append]
    rfl

theorem On.next (hS : r.Scans T S) {k : Cursor} {b : TokenStream} (h : On T S k b) :
    ∃ c, b.next = .ok (T k.place, c) ∧
      ∀ call, call ≠ .putBack → On T S (k.goTo call (k.place + 1)) c := by
  simp only [h.goTo_eq (Nat.le_refl k.place)]
  obtain ⟨slot, source, traces⟩ := h
  cases hs : b.slot with
  | fresh | taken =>
    rw [hs] at slot
    refine On.pull hS ⟨hs ▸ slot, source, traces⟩ ?_ (by simp [hs])
    cases slot
    rfl
  | putBack t =>
    rw [hs] at slot
    cases slot with
    | @putBack n =>
      exact ⟨{ b with slot := .taken (T n) }, by rw [TokenStream.next, hs],
        fun call hcall => ⟨.taken hcall, source, traces⟩⟩

theorem On.nextPastBlanks (hS : r.Scans T S) {k : Cursor} {b : TokenStream} (h : On T S k b) :
    ∃ j c, b.nextPastBlanks = .ok (T j, c) ∧ k.place ≤ j ∧
      (∀ i, k.place ≤ i → i < j → (T i).kind = .whitespace) ∧ (T j).kind ≠ .whitespace ∧
      On T S (k.goTo .nextPastBlanks (j + 1)) c := by
  fun_induction TokenStream.nextPastBlanks b generalizing k with
  | case1 b f hn =>
    obtain ⟨c, hn', -⟩ := h.next hS
    cases hn.symm.trans hn'
  | case2 b t c hn ht ih =>
    obtain ⟨c, hn', hon⟩ := h.next hS
    cases hn.symm.trans hn'
    obtain ⟨j, d, hd, hj, hblank, hne, hond⟩ := ih (hon .next (by decide))
    have hj : k.place + 1 ≤ j := hj
    refine ⟨j, d, hd, Nat.le_of_succ_le hj, fun i hi hij => ?_, hne, ?_⟩
    · rcases Nat.eq_or_lt_of_le hi with rfl | hi
      · exact ht
      · exact hblank i hi hij
    · rwa [Cursor.goTo_goTo (Nat.le_succ_of_le hj)] at hond
  | case3 b t c hn ht =>
    obtain ⟨c, hn', hon⟩ := h.next hS
    cases hn.symm.trans hn'
    exact ⟨k.place, c, rfl, Nat.le_refl _, fun i hi hij => absurd hi (Nat.not_le.2 hij), ht,
      hon .nextPastBlanks (by decide)⟩

/-- A step back, or the fault in its place, is told by the latest call alone. -/
theorem On.back {k : Cursor} {b : TokenStream} (h : On T S k b) :
    (k.latest = none ∧ b.putBack = .error .nothingTaken) ∨
    (k.latest = some .putBack ∧ b.putBack = .error .alreadyPutBack) ∨
    ∃ call n c, k.latest = some call ∧ call ≠ .putBack ∧ k.place = n + 1 ∧
      b.putBack = .ok c ∧ On T S (k.goTo .putBack n) c := by
  obtain ⟨slot, source, traces⟩ := h
  unfold TokenStream.putBack
  cases hs : b.slot with
  | fresh =>
    rw [hs] at slot
    cases slot
    exact .inl ⟨rfl, rfl⟩
  | putBack t =>
    rw [hs] at slot
    cases slot
    exact .inr (.inl ⟨rfl, rfl⟩)
  | taken t =>
    rw [hs] at slot
    cases slot with
    | @taken n call hcall =>
      refine .inr (.inr ⟨call, n, _, rfl, hcall, rfl, rfl, ?_⟩)
      rw [Cursor.goTo, Nat.max_eq_left (Nat.le_succ n)]
      exact ⟨.putBack, source, traces⟩

theorem On.peek (hS : r.Scans T S) {k : Cursor} {b : TokenStream} (h : On T S k b) :
    b.peek = (S k.furthest).remaining.head? := by
  rw [TokenStream.peek, h.source]
  exact Source.peek_of_ready (hS.ready _)

/-- From where the cursor stands all calls are answered as it answers them. -/
theorem On.answers (hS : r.Scans T S) (calls : List Call) {k : Cursor} {b : TokenStream}
    (h : On T S k b) :
    k.Answers T (fun n => (S n).remaining) calls (replies reply calls b) := by
  induction calls generalizing k b with
  | nil => exact .nil
  | cons call calls ih =>
    cases call with
    | next =>
      obtain ⟨c, hc, hon⟩ := h.next hS
      have hreply : reply .next b = .ok (.token (T k.place), c) := by
        simp only [reply, hc]
        rfl
      rw [replies_cons hreply]
      exact .next (ih (hon .next (by decide)))
    | nextPastBlanks =>
      obtain ⟨j, c, hc, hj, hblank, hne, hon⟩ := h.nextPastBlanks hS
      have hreply : reply .nextPastBlanks b = .ok (.token (T j), c) := by
        simp only [reply, hc]
        rfl
      rw [replies_cons hreply]
      exact .nextPastBlanks hj hblank hne (ih hon)
    | putBack =>
      rcases h.back with ⟨hk, hb⟩ | ⟨hk, hb⟩ | ⟨call, n, c, hk, hcall, hn, hb, hon⟩
      · rw [replies_of_fault (f := .nothingTaken) (by simp only [reply, hb]; rfl)]
        exact .nothingTaken hk
      · rw [replies_of_fault (f := .alreadyPutBack) (by simp only [reply, hb]; rfl)]
        exact .alreadyPutBack hk
      · have hreply : reply .putBack b = .ok (.done, c) := by
          simp only [reply, hb]
          rfl
        rw [replies_cons hreply]
        exact .putBack hk hcall hn (ih hon)
    | peek =>
      have hreply : reply .peek b = .ok (.char (S k.furthest).remaining.head?, b) := by
        rw [← h.peek hS]
        rfl
      rw [replies_cons hreply]
      exact .peek (ih h)

end TokenStream

/-- The lexer gives the tokens of a text in an endless sequence `T`, and the first `n` of them leave
`rest n` of it. A stream on the text answers any calls as a cursor on that sequence does: what is
put back moves it one token back, which can be done just behind a token that was taken, and a peek
looks behind all tokens ever gone over. -/
theorem stream_answers_as_cursor (text : String) : ∃ (T : Nat → Token) (rest : Nat → List Char),
    (∀ n, replies Source.reply (List.replicate n .scan) (.ofString text) =
        .ok ((List.range n).map (.token ∘ T)) ∧
      Source.Answers text.toList (List.replicate n .scan) ((List.range n).map (.token ∘ T))
        (rest n)) ∧
    ∀ calls o, replies TokenStream.reply calls (.ofString text) = o ↔
      Cursor.Answers T rest {} calls o := by
  have hready := Source.ready_ofString text
  obtain ⟨T, S, hS⟩ := Source.exists_scans hready
  refine ⟨T, fun n => (S n).remaining, fun n => ?_, fun calls o => ?_⟩
  · have hserve := hS.serve 0 n
    rw [hS.zero, Nat.zero_add, ← List.range_eq_range'] at hserve
    obtain ⟨tokens, s, hs, -, hanswers⟩ := Source.serve_of_ready (List.replicate n .scan) hready
    cases hserve.symm.trans hs
    exact ⟨by rw [replies, hserve]; rfl, hanswers⟩
  · have hanswers := (TokenStream.on_ofString hS).answers hS calls
    exact ⟨fun ho => ho ▸ hanswers, hanswers.unique⟩

end KeyspaceQuery
