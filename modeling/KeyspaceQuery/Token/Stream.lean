import KeyspaceQuery.Journal
import KeyspaceQuery.Token.Lexer

/-! A stream of tokens in which the latest one can be put back. Only one token is kept, so it can be
put back once before it is taken again. -/

namespace KeyspaceQuery

/-- The latest token: none yet, taken, or put back. -/
inductive Slot
  | fresh
  | taken (t : Token)
  | putBack (t : Token)
  deriving DecidableEq, Repr

/-- What the slot adds to the tokens still to come. -/
def Slot.pending : Slot → Nat
  | putBack t => t.weight
  | _ => 0

structure TokenStream where
  source : Source
  slot : Slot := .fresh
  journal : Journal := #[]
  deriving DecidableEq, Repr

namespace TokenStream

def ofString (text : String) : TokenStream := { source := .ofString text }

def note (e : Event) (b : TokenStream) : TokenStream := { b with journal := b.journal.push e }

/-- The token that was put back, or else the next one of the text. -/
def next (b : TokenStream) : Except Fault (Token × TokenStream) :=
  match b.slot with
  | .putBack t => .ok (t, { b with slot := .taken t })
  | _ => do
    let (t, source) ← b.source.nextToken
    return (t, { source, slot := .taken t, journal := b.journal.push (.scanned t) })

def putBack (b : TokenStream) : Except Fault TokenStream :=
  match b.slot with
  | .fresh => .error .nothingTaken
  | .taken t => .ok { b with slot := .putBack t }
  | .putBack _ => .error .alreadyPutBack

/-- The next character of the text, whether or not a token is put back. -/
def peek (b : TokenStream) : Option Char := b.source.peek

/-- A bound on the tokens that are still to come before the end of the input. -/
def pending (b : TokenStream) : Nat := b.source.pending + b.slot.pending

theorem slot_of_next {b c : TokenStream} {t : Token} (h : b.next = .ok (t, c)) :
    c.slot = .taken t := by
  unfold next at h
  split at h
  · cases h; rfl
  · obtain ⟨⟨_, _⟩, _, h⟩ := bind_eq_ok_iff.1 h
    cases h; rfl

theorem pending_next {b c : TokenStream} {t : Token} (h : b.next = .ok (t, c)) :
    c.pending + t.weight ≤ b.pending := by
  unfold next at h
  split at h
  · cases h
    simp [pending, Slot.pending, *]
  · obtain ⟨⟨_, _⟩, h₁, h⟩ := bind_eq_ok_iff.1 h
    cases h
    exact Nat.le_trans (Source.pending_nextToken h₁) (Nat.le_add_right _ _)

theorem pending_putBack {b c : TokenStream} {t : Token} (ht : b.slot = .taken t)
    (h : b.putBack = .ok c) : c.pending = b.pending + t.weight := by
  unfold putBack at h
  rw [ht] at h
  cases h
  simp [pending, Slot.pending, ht]

/-- The next token that is not blank. -/
def nextPastBlanks (b : TokenStream) : Except Fault (Token × TokenStream) :=
  match _h : b.next with
  | .error f => .error f
  | .ok (t, c) => if t.kind = .whitespace then nextPastBlanks c else .ok (t, c)
termination_by b.pending
decreasing_by
  have := pending_next _h
  have := Token.weight_pos (t := t) (by simp [*])
  omega

theorem slot_of_nextPastBlanks {b c : TokenStream} {t : Token}
    (h : b.nextPastBlanks = .ok (t, c)) : c.slot = .taken t := by
  fun_induction nextPastBlanks b with
  | case1 => cases h
  | case2 _ _ _ _ _ ih => exact ih h
  | case3 _ _ _ hs => cases h; exact slot_of_next hs

theorem pending_nextPastBlanks {b c : TokenStream} {t : Token}
    (h : b.nextPastBlanks = .ok (t, c)) : c.pending + t.weight ≤ b.pending := by
  fun_induction nextPastBlanks b with
  | case1 => cases h
  | case2 _ _ _ hs _ ih =>
    have := ih h
    have := pending_next hs
    omega
  | case3 _ _ _ hs => cases h; exact pending_next hs

end TokenStream

end KeyspaceQuery
