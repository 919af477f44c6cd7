import KeyspaceQuery.Fault
import KeyspaceQuery.Position

/-! Characters of a text read one at a time, each with its position, with room to go back over the
last two readings. Reading goes on past the end of the text: the first reading there stands where
the text ends, all later ones one column to the right of it. -/

namespace KeyspaceQuery

structure Reading where
  char : Option Char
  position : Position
  deriving DecidableEq, Repr

/-- The three latest readings, in a ring. The newest is at `head`, the older ones are in the slots
before it, and the next one will take the slot of the oldest. Before anything is read they are blank
and stand at the start. -/
structure LookBehind where
  slots : Vector Reading 3 := .replicate 3 ⟨none, .start⟩
  head : Fin 3 := 0
  deriving DecidableEq, Repr

namespace LookBehind

/-- The reading that came `n` before the newest. -/
def back (w : LookBehind) (n : Fin 3) : Reading := w.slots[w.head - n]

def newest (w : LookBehind) : Reading := w.back 0

def middle (w : LookBehind) : Reading := w.back 1

def oldest (w : LookBehind) : Reading := w.back 2

def push (w : LookBehind) (r : Reading) : LookBehind :=
  let head := w.head + 1
  ⟨w.slots.set head r, head⟩

@[simp] theorem newest_push (w : LookBehind) (r : Reading) : (w.push r).newest = r := by
  have hslot : ∀ head : Fin 3, head - 0 = head := by decide
  simp [newest, back, push, hslot]

/-- All readings but the oldest are kept, each one further back. -/
theorem back_push (w : LookBehind) (r : Reading) (n : Fin 3) (hn : n ≠ 2) :
    (w.push r).back (n + 1) = w.back n := by
  have hslot : ∀ head n : Fin 3, head + 1 - (n + 1) = head - n := by decide
  have hother : ∀ head n : Fin 3, n ≠ 2 → head + 1 ≠ head - n := by decide
  simp only [back, push, hslot, Fin.getElem_fin]
  exact Vector.getElem_set_ne _ _ (Fin.val_ne_of_ne (hother w.head n hn))

@[simp] theorem middle_push (w : LookBehind) (r : Reading) : (w.push r).middle = w.newest :=
  back_push w r 0 (by decide)

@[simp] theorem oldest_push (w : LookBehind) (r : Reading) : (w.push r).oldest = w.middle :=
  back_push w r 1 (by decide)

end LookBehind

structure Source where
  rest : List Char
  position : Position := .start
  /-- The end of the text has been read. -/
  ended : Bool := false
  behind : LookBehind := {}
  /-- How many of the latest readings are to be read again. -/
  undone : Fin 3 := 0
  deriving DecidableEq, Repr

namespace Source

def ofString (text : String) : Source := { rest := text.toList }

/-- Takes a reading that was not taken before. -/
def advance (r : Source) : Reading × Source :=
  match r.rest with
  | [] =>
    let reading := ⟨none, r.position⟩
    (reading, { rest := [], ended := true, behind := r.behind.push reading,
                position := if r.ended then r.position else r.position.right })
  | c :: rest =>
    let reading := ⟨some c, r.position⟩
    (reading, { rest, ended := r.ended, behind := r.behind.push reading,
                position := r.position.after c })

def read (r : Source) : Reading × Source :=
  match r.undone with
  | 0 => r.advance
  | 1 => (r.behind.newest, { r with undone := 0 })
  | 2 => (r.behind.middle, { r with undone := 1 })

/-- Makes `read` give the latest reading again. Two readings can be undone at a time. -/
def undo (r : Source) : Except Fault Source :=
  match r.undone with
  | 0 => .ok { r with undone := 1 }
  | 1 => .ok { r with undone := 2 }
  | 2 => .error .readingsExhausted

/-- The latest reading that is not undone. -/
def latest (r : Source) : Reading :=
  match r.undone with
  | 0 => r.behind.newest
  | 1 => r.behind.middle
  | 2 => r.behind.oldest

/-- The character that `read` would give. -/
def peek (r : Source) : Option Char :=
  match r.undone with
  | 0 => r.rest.head?
  | 1 => r.behind.newest.char
  | 2 => r.behind.middle.char

/-- Undoing a reading and reading again changes nothing. -/
theorem read_of_undo {r s : Source} (h : r.undo = .ok s) : s.read = (r.latest, r) := by
  obtain ⟨rest, position, ended, behind, undone⟩ := r
  match undone with
  | 0 => cases h; rfl
  | 1 => cases h; rfl
  | 2 => cases h

theorem latest_read (r : Source) : r.read.2.latest = r.read.1 := by
  obtain ⟨rest, position, ended, behind, undone⟩ := r
  match undone with
  | 0 => cases rest <;> exact LookBehind.newest_push _ _
  | 1 => rfl
  | 2 => rfl

theorem char_read (r : Source) : r.read.1.char = r.peek := by
  obtain ⟨rest, position, ended, behind, undone⟩ := r
  match undone with
  | 0 => cases rest <;> rfl
  | 1 => rfl
  | 2 => rfl

theorem val_undone_read (r : Source) : (r.read.2.undone : Nat) = r.undone - 1 := by
  obtain ⟨rest, position, ended, behind, undone⟩ := r
  match undone with
  | 0 => cases rest <;> rfl
  | 1 => rfl
  | 2 => rfl

theorem exists_undo_of_lt {r : Source} (h : (r.undone : Nat) < 2) :
    ∃ s, r.undo = .ok s ∧ (s.undone : Nat) = r.undone + 1 := by
  obtain ⟨rest, position, ended, behind, undone⟩ := r
  match undone with
  | 0 => exact ⟨_, rfl, rfl⟩
  | 1 => exact ⟨_, rfl, rfl⟩
  | 2 => exact absurd h (Nat.lt_irrefl 2)

theorem undo_of_le {r : Source} (h : 2 ≤ (r.undone : Nat)) :
    r.undo = .error .readingsExhausted := by
  obtain ⟨rest, position, ended, behind, undone⟩ := r
  match undone with
  | 0 => exact absurd h (Nat.not_succ_le_zero 1)
  | 1 => exact absurd h (Nat.not_succ_le_self 1)
  | 2 => rfl

/-- A bound on the characters that are still to come. Each one read lowers it. -/
def pending (r : Source) : Nat := r.rest.length + r.undone

theorem pending_read_le (r : Source) : r.read.2.pending ≤ r.pending := by
  obtain ⟨rest, position, ended, behind, undone⟩ := r
  match undone with
  | 0 => cases rest <;> simp [read, advance, pending]
  | 1 => simp [read, pending]
  | 2 => simp [read, pending]

theorem pending_lt_of_read {r s : Source} {c : Char} {p : Position}
    (h : r.read = (⟨some c, p⟩, s)) : s.pending < r.pending := by
  obtain ⟨rest, position, ended, behind, undone⟩ := r
  match undone with
  | 0 => cases rest <;> simp [read, advance] at h; simp [← h.2, pending]
  | 1 => simp [read] at h; simp [← h.2, pending]
  | 2 => simp [read] at h; simp [← h.2, pending]

theorem pending_of_undo {r s : Source} (h : r.undo = .ok s) : s.pending = r.pending + 1 := by
  obtain ⟨rest, position, ended, behind, undone⟩ := r
  match undone with
  | 0 => cases h; simp [pending]
  | 1 => cases h; simp [pending]
  | 2 => cases h

end Source

end KeyspaceQuery
