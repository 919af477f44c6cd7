/-! Misuse of the look-behind: a step back that is asked for when there is nothing to step back to.
The lexer and the parser never ask for one; a caller that works on a source or a token stream
itself can. -/

namespace KeyspaceQuery

inductive Fault
  /-- The source has already undone as many readings as it may. -/
  | readingsExhausted
  | nothingTaken
  | alreadyPutBack
  deriving DecidableEq, Repr

def Fault.message : Fault → String
  | .readingsExhausted => "no reading is left to undo"
  | .nothingTaken => "unscan before any scan"
  | .alreadyPutBack => "unscan called twice in a row"

instance (priority := high) decEqExcept {ε : Type u} {α : Type v} [DecidableEq ε] [DecidableEq α] :
    DecidableEq (Except ε α)
  | .error e, .error f => decidable_of_iff (e = f) ⟨congrArg Except.error, Except.error.inj⟩
  | .ok a, .ok b => decidable_of_iff (a = b) ⟨congrArg Except.ok, Except.ok.inj⟩
  | .error _, .ok _ => isFalse nofun
  | .ok _, .error _ => isFalse nofun

/-- A step that may fail is followed only if it did not. -/
theorem bind_eq_ok_iff {ε α β : Type} {x : Except ε α} {f : α → Except ε β} {b : β} :
    x >>= f = .ok b ↔ ∃ a, x = .ok a ∧ f a = .ok b := by
  cases x with
  | error e => exact ⟨nofun, nofun⟩
  | ok a => exact ⟨fun h => ⟨a, rfl, h⟩, fun | ⟨_, rfl, h⟩ => h⟩

end KeyspaceQuery
