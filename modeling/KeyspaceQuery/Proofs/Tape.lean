import KeyspaceQuery.Source
import Mathlib.Data.List.Basic

/-! The readings of a text one after the other are a tape: its characters, and behind them the end
for ever. A source keeps a window of three of them. To read is to go one further on the tape, and to
undo is to go one back. -/

namespace KeyspaceQuery

/-- The place behind some characters that begin at `p`. -/
def Position.past (p : Position) (cs : List Char) : Position := cs.foldl Position.after p

theorem Position.past_append (p : Position) (cs ds : List Char) :
    p.past (cs ++ ds) = (p.past cs).past ds :=
  List.foldl_append

/-- The reading that comes after `n` others of a text that begins at `p`. -/
def Reading.nth (p : Position) : List Char → Nat → Reading
  | [], 0 => ⟨none, p⟩
  | [], _ + 1 => ⟨none, p.right⟩
  | c :: _, 0 => ⟨some c, p⟩
  | c :: cs, n + 1 => nth (p.after c) cs n

theorem Reading.nth_of_le {cs : List Char} {n : Nat} (h : n ≤ cs.length) (p : Position) :
    nth p cs n = ⟨(cs.drop n).head?, p.past (cs.take n)⟩ := by
  induction cs generalizing p n with
  | nil =>
    obtain rfl := Nat.le_zero.1 h
    rfl
  | cons c cs ih =>
    cases n with
    | zero => rfl
    | succ n => exact ih (Nat.le_of_succ_le_succ h) (p.after c)

theorem Reading.nth_of_lt {cs : List Char} {n : Nat} (h : cs.length < n) (p : Position) :
    nth p cs n = ⟨none, (p.past cs).right⟩ := by
  induction cs generalizing p n with
  | nil =>
    obtain ⟨n, rfl⟩ := Nat.exists_eq_succ_of_ne_zero (Nat.ne_of_gt h)
    rfl
  | cons c cs ih =>
    obtain ⟨n, rfl⟩ := Nat.exists_eq_succ_of_ne_zero (Nat.ne_of_gt (Nat.zero_lt_of_lt h))
    exact ih (Nat.lt_of_succ_lt_succ h) (p.after c)

/-- The readings of a text behind three that are not of it: a source shows those before it has read
enough. -/
def tape (text : List Char) : Nat → Reading
  | n + 3 => .nth .start text n
  | _ => ⟨none, .start⟩

/-- The look-behind is a window on the readings `T` that begins at number `n`. -/
structure LookBehind.Shows (T : Nat → Reading) (n : Nat) (w : LookBehind) : Prop where
  newest : w.newest = T (n + 2)
  middle : w.middle = T (n + 1)
  oldest : w.oldest = T n

/-- The window moves on by one. -/
theorem LookBehind.Shows.push {T : Nat → Reading} {n : Nat} {w : LookBehind} (h : w.Shows T n) :
    (w.push (T (n + 3))).Shows T (n + 1) where
  newest := newest_push w _
  middle := (middle_push w _).trans h.newest
  oldest := (oldest_push w _).trans h.middle

namespace Source

variable {text : List Char} {n k : Nat} {r : Source}

/-- The source has taken `n` readings of the text, some of which may be undone. -/
structure Took (text : List Char) (n : Nat) (r : Source) : Prop where
  rest : r.rest = text.drop n
  position : r.position = (Reading.nth .start text n).position
  ended : r.ended = decide (text.length < n)
  behind : r.behind.Shows (tape text) n

/-- The next reading is number `k` on the tape. -/
def At (text : List Char) (k : Nat) (r : Source) : Prop :=
  ∃ n, Took text n r ∧ n + 3 = k + r.undone

theorem At.pos (h : r.At text k) : 0 < k := by
  obtain ⟨n, -, hk⟩ := h
  have := r.undone.isLt
  omega

theorem at_ofString (text : String) : (ofString text).At text.toList 3 := by
  refine ⟨0, ⟨rfl, ?_, rfl, ⟨rfl, rfl, rfl⟩⟩, rfl⟩
  rw [Reading.nth_of_le (Nat.zero_le _)]
  rfl

/-- As long as there are characters, the next one is read where the tape has it. -/
theorem took_advance_of_lt (h : Took text n r) (hn : n < text.length) :
    r.advance.1 = tape text (n + 3) ∧ Took text (n + 1) r.advance.2 := by
  obtain ⟨rest, position, ended, behind, undone⟩ := r
  obtain ⟨rfl, rfl, rfl, hbehind⟩ := h
  obtain ⟨c, cs, hcs⟩ := List.exists_cons_of_ne_nil (mt List.drop_eq_nil_iff.1 (Nat.not_le.2 hn))
  have hnext : text.drop (n + 1) = cs := by
    rw [← List.tail_drop, hcs]
    rfl
  have htake : text.take (n + 1) = text.take n ++ [c] := by
    rw [List.take_add_one, ← List.head?_drop, hcs]
    rfl
  have hread : Reading.nth .start text n = ⟨some c, Position.start.past (text.take n)⟩ := by
    rw [Reading.nth_of_le (Nat.le_of_lt hn), hcs]
    rfl
  simp only [advance, hcs, hread]
  refine ⟨hread.symm, ⟨hnext.symm, ?_, ?_, ?_⟩⟩
  · rw [Reading.nth_of_le hn, htake, Position.past_append]
    rfl
  · simp only [decide_eq_decide]
    omega
  · exact hread ▸ hbehind.push

/-- Behind the characters the end is read, at its first reading where the text ends. -/
theorem took_advance_of_le (h : Took text n r) (hn : text.length ≤ n) :
    r.advance.1 = tape text (n + 3) ∧ Took text (n + 1) r.advance.2 := by
  obtain ⟨rest, position, ended, behind, undone⟩ := r
  obtain ⟨rfl, rfl, rfl, hbehind⟩ := h
  have hread : Reading.nth .start text n = ⟨none, (Reading.nth .start text n).position⟩ := by
    rcases Nat.lt_or_eq_of_le hn with hn | rfl
    · rw [Reading.nth_of_lt hn]
    · rw [Reading.nth_of_le (Nat.le_refl _), List.drop_length]
      rfl
  simp only [advance, List.drop_eq_nil_iff.2 hn]
  refine ⟨hread.symm, ⟨(List.drop_eq_nil_iff.2 (Nat.le_succ_of_le hn)).symm, ?_, ?_, ?_⟩⟩
  · rw [Reading.nth_of_lt (Nat.lt_succ_of_le hn)]
    rcases Nat.lt_or_eq_of_le hn with hn | rfl
    · rw [if_pos (decide_eq_true hn), Reading.nth_of_lt hn]
    · rw [if_neg (by simp), Reading.nth_of_le (Nat.le_refl _), List.take_length]
  · exact (decide_eq_true (Nat.lt_succ_of_le hn)).symm
  · exact hread ▸ hbehind.push

theorem undone_advance (r : Source) : r.advance.2.undone = 0 := by
  unfold advance
  split <;> rfl

theorem took_advance (h : Took text n r) :
    r.advance.1 = tape text (n + 3) ∧ Took text (n + 1) r.advance.2 := by
  rcases Nat.lt_or_ge n text.length with hn | hn
  · exact took_advance_of_lt h hn
  · exact took_advance_of_le h hn

/-- A reading is the one on the tape, whether it is taken or had again. -/
theorem at_read (h : r.At text k) : r.read.1 = tape text k ∧ r.read.2.At text (k + 1) := by
  obtain ⟨n, htook, hk⟩ := h
  obtain ⟨rest, position, ended, behind, undone⟩ := r
  have hbehind := htook.behind
  simp only at hbehind hk
  match undone with
  | 0 =>
    obtain ⟨hread, hnext⟩ := took_advance htook
    obtain rfl : n + 3 = k := hk
    exact ⟨hread, n + 1, hnext, by rw [read, undone_advance]; rfl⟩
  | 1 =>
    obtain rfl : n + 2 = k := Nat.succ.inj hk
    exact ⟨hbehind.newest, n,
      ⟨htook.rest, htook.position, htook.ended, htook.behind⟩, rfl⟩
  | 2 =>
    obtain rfl : n + 1 = k := Nat.succ.inj (Nat.succ.inj hk)
    exact ⟨hbehind.middle, n,
      ⟨htook.rest, htook.position, htook.ended, htook.behind⟩, rfl⟩

theorem latest_of_at (h : r.At text (k + 1)) : r.latest = tape text k := by
  obtain ⟨n, htook, hk⟩ := h
  obtain ⟨rest, position, ended, behind, undone⟩ := r
  have hbehind := htook.behind
  simp only at hbehind hk
  match undone with
  | 0 =>
    obtain rfl : n + 2 = k := Nat.succ.inj hk
    exact hbehind.newest
  | 1 =>
    obtain rfl : n + 1 = k := Nat.succ.inj (Nat.succ.inj hk)
    exact hbehind.middle
  | 2 =>
    obtain rfl : n = k := Nat.succ.inj (Nat.succ.inj (Nat.succ.inj hk))
    exact hbehind.oldest

theorem at_undo {s : Source} (h : r.At text (k + 1)) (hs : r.undo = .ok s) : s.At text k := by
  obtain ⟨n, htook, hk⟩ := h
  obtain ⟨rest, position, ended, behind, undone⟩ := r
  simp only at hk
  match undone with
  | 0 =>
    cases hs
    exact ⟨n, ⟨htook.rest, htook.position, htook.ended, htook.behind⟩, hk⟩
  | 1 =>
    cases hs
    exact ⟨n, ⟨htook.rest, htook.position, htook.ended, htook.behind⟩, hk⟩
  | 2 => cases hs

end Source

end KeyspaceQuery
