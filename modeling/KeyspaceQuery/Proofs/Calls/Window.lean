import KeyspaceQuery.Proofs.Calls
import KeyspaceQuery.Proofs.Lexeme.Offsets

/-! A source beside the head of a tape. The tape holds the readings of the text, and the head goes
forward on it and, as long as it is fewer than two places behind the furthest it ever was, a place
back. The source keeps the three latest readings in a ring and how many of them are undone, and that
is enough: calls on it, in whatever order, are answered as the head answers them. -/

namespace KeyspaceQuery

namespace Source

/-- What may be asked of a source, and what it answers. -/
inductive Request
  | read | undo | latest | peek
  deriving DecidableEq, Repr

inductive Response
  | reading (g : Reading)
  | done
  | char (c : Option Char)
  deriving DecidableEq, Repr

def respond : Request → Source → Except Fault (Response × Source)
  | .read, r => .ok (.reading r.read.1, r.read.2)
  | .undo, r => do return (.done, ← r.undo)
  | .latest, r => .ok (.reading r.latest, r)
  | .peek, r => .ok (.char r.peek, r)

end Source

open Source (Request Response)

/-- A place on a tape, and the furthest one so far. At the start three readings are behind it. -/
structure TapeHead where
  place : Nat := 3
  furthest : Nat := 3
  deriving DecidableEq, Repr

namespace TapeHead

/-- The reading at the head is the one that is read, and the latest is the one just before it. -/
def respond (T : Nat → Reading) : Request → TapeHead → Except Fault (Response × TapeHead)
  | .read, q => .ok (.reading (T q.place), ⟨q.place + 1, max q.furthest (q.place + 1)⟩)
  | .undo, q =>
    if q.furthest < q.place + 2 then .ok (.done, { q with place := q.place - 1 })
    else .error .readingsExhausted
  | .latest, q => .ok (.reading (T (q.place - 1)), q)
  | .peek, q => .ok (.char (T q.place).char, q)

/-- The places that a head can come to. Something is behind it at all of them. -/
structure InReach (q : TapeHead) : Prop where
  start : 3 ≤ q.furthest
  reach : q.furthest ≤ q.place + 2

variable {T : Nat → Reading} {q q' : TapeHead}

/-- A reading takes the head one place forward and a step back takes it one back. -/
theorem InReach.respond (hq : q.InReach) {call : Request} {answer : Response}
    (h : TapeHead.respond T call q = .ok (answer, q')) :
    q'.InReach ∧ q'.place + [call].count .undo = q.place + [call].count .read := by
  obtain ⟨hstart, hreach⟩ := hq
  cases call with
  | read =>
    cases h
    exact ⟨⟨hstart.trans (Nat.le_max_left _ _), by simp only; omega⟩, rfl⟩
  | undo =>
    rw [TapeHead.respond] at h
    split at h
    · cases h
      exact ⟨⟨hstart, by simp only; omega⟩, Nat.sub_add_cancel (by omega)⟩
    · cases h
  | latest | peek =>
    cases h
    exact ⟨⟨hstart, hreach⟩, rfl⟩

/-- The head is as many places forward as there were more readings than steps back. -/
theorem InReach.place_of_serve (hq : q.InReach) {calls : List Request} {answers : List Response}
    (h : serve (TapeHead.respond T) calls q = .ok (answers, q')) :
    q'.place + calls.count .undo = q.place + calls.count .read := by
  induction calls generalizing q answers with
  | nil =>
    cases h
    rfl
  | cons call calls ih =>
    obtain ⟨⟨answer, q₁⟩, hcall, h⟩ := bind_eq_ok_iff.1 h
    obtain ⟨⟨answers', q₂⟩, hcalls, h⟩ := bind_eq_ok_iff.1 h
    cases h
    obtain ⟨hq₁, hplace⟩ := hq.respond hcall
    have hrest := ih hq₁ hcalls
    rw [← List.singleton_append, List.count_append, List.count_append]
    omega

/-- Reading on gives what the tape holds from the head on. -/
theorem replies_read (n : Nat) (q : TapeHead) :
    replies (respond T) (List.replicate n .read) q =
      .ok ((List.range' q.place n).map (.reading ∘ T)) := by
  induction n generalizing q with
  | zero => rfl
  | succ n ih =>
    have hread : respond T .read q =
      .ok (.reading (T q.place), ⟨q.place + 1, max q.furthest (q.place + 1)⟩) := rfl
    rw [List.replicate_succ, replies_cons hread, ih, List.range'_succ]
    rfl

end TapeHead

namespace Source

variable {text : List Char} {q : TapeHead} {r : Source}

/-- The source is at the place of the head, and has undone the readings from there on. -/
structure Follows (text : List Char) (r : Source) (q : TapeHead) : Prop where
  place : r.At text q.place
  furthest : q.furthest = q.place + r.undone

theorem follows_ofString (text : String) : (ofString text).Follows text.toList {} :=
  ⟨at_ofString text, rfl⟩

/-- A single call is answered alike, and the source follows on. -/
theorem Follows.agree (h : r.Follows text q) (call : Request) :
    Agree (Follows text) (respond call r) (TapeHead.respond (tape text) call q) := by
  obtain ⟨place, furthest⟩ := q
  obtain ⟨hat, hfurthest⟩ := h
  -- at least one reading is behind the head, the one that is the latest or is undone
  obtain ⟨k, rfl⟩ := Nat.exists_eq_succ_of_ne_zero (Nat.ne_of_gt hat.pos)
  simp only at hat hfurthest
  cases call with
  | read =>
    obtain ⟨hread, hnext⟩ := at_read hat
    rw [respond, hread]
    refine .answer _ ⟨hnext, ?_⟩
    simp only [val_undone_read]
    omega
  | undo =>
    by_cases hlt : (r.undone : Nat) < 2
    · obtain ⟨s, hs, hundone⟩ := exists_undo_of_lt hlt
      rw [respond, hs, TapeHead.respond, if_pos (by simp only; omega)]
      exact .answer _ ⟨at_undo hat hs, by simp only; omega⟩
    · rw [respond, undo_of_le (Nat.le_of_not_lt hlt), TapeHead.respond,
        if_neg (by simp only; omega)]
      exact .fault _
  | latest =>
    rw [respond, latest_of_at hat]
    exact .answer _ ⟨hat, hfurthest⟩
  | peek =>
    rw [respond, ← char_read, (at_read hat).1]
    exact .answer _ ⟨hat, hfurthest⟩

end Source

section Tape

variable (text : List Char)

theorem tape_of_getElem? {i : Nat} {c : Char} (h : text[i]? = some c) :
    tape text (i + 3) = ⟨some c, .ofOffset text i⟩ := by
  have hi := (List.getElem?_eq_some_iff.1 h).1
  rw [tape, Reading.nth_of_le (Nat.le_of_lt hi), List.head?_drop, h, Position.past_take]

theorem tape_length : tape text (text.length + 3) = ⟨none, .ofOffset text text.length⟩ := by
  rw [tape, Reading.nth_of_le (Nat.le_refl _), List.drop_length, Position.past_take]
  rfl

theorem tape_of_lt {i : Nat} (h : text.length < i) :
    tape text (i + 3) = ⟨none, (Position.ofOffset text text.length).right⟩ := by
  rw [tape, Reading.nth_of_lt h, ← Position.past_take, List.take_length]

end Tape

/-- The tape of a text holds three blank readings, then each character where those before it put it,
then the end of the text where the text ends, and from there on the end one column further right.
Whatever is called on a source is answered as the head of this tape answers it, and where the head
may not go back the source faults. Nothing is lost, repeated or out of order: after any calls,
reading on gives the tape from the place on that is as far from the first character as there were
more readings than steps back. -/
theorem source_is_window_on_tape (text : String) : ∃ T : Nat → Reading,
    (∀ i, i < 3 → T i = ⟨none, ⟨0, 0⟩⟩) ∧
    (∀ i c, text.toList[i]? = some c → T (i + 3) = ⟨some c, .ofOffset text.toList i⟩) ∧
    T (text.toList.length + 3) = ⟨none, .ofOffset text.toList text.toList.length⟩ ∧
    (∀ i, text.toList.length < i →
      T (i + 3) = ⟨none, (Position.ofOffset text.toList text.toList.length).right⟩) ∧
    (∀ calls, replies Source.respond calls (.ofString text) =
      replies (TapeHead.respond T) calls {}) ∧
    ∀ calls answers, replies Source.respond calls (.ofString text) = .ok answers →
      ∀ n, replies Source.respond (calls ++ List.replicate n .read) (.ofString text) =
        .ok (answers ++ (List.range' (3 + calls.count .read - calls.count .undo) n).map
          (.reading ∘ T)) := by
  have hsame : ∀ calls, replies Source.respond calls (.ofString text) =
      replies (TapeHead.respond (tape text.toList)) calls {} := fun calls =>
    (agree_serve (fun call r q h => h.agree call) calls (Source.follows_ofString text)).map_fst_eq
  refine ⟨tape text.toList, fun i hi => ?_, fun i c => tape_of_getElem? _, tape_length _,
    fun i => tape_of_lt _, hsame, fun calls answers h n => ?_⟩
  · match i with
    | 0 | 1 | 2 => rfl
  · obtain ⟨q, hq⟩ := exists_serve_of_replies (hsame calls ▸ h)
    have hplace := TapeHead.InReach.place_of_serve ⟨Nat.le_refl 3, Nat.le_add_right 3 2⟩ hq
    rw [hsame, replies_append hq, TapeHead.replies_read, ← hplace, Nat.add_sub_cancel]
    rfl

end KeyspaceQuery
