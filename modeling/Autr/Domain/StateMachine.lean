import Mathlib.Logic.Basic

namespace Autr.Domain

inductive PositionState
  | none
  | entering
  | open
  | exiting
  deriving DecidableEq

namespace PositionState

/-- A member as an error message shows it. -/
def text : PositionState → String
  | .none => "PositionState.NONE"
  | .entering => "PositionState.ENTERING"
  | .open => "PositionState.OPEN"
  | .exiting => "PositionState.EXITING"

def allowedTransitions : PositionState → List PositionState
  | .none => [.entering]
  | .entering => [.open, .none]
  | .open => [.exiting]
  | .exiting => [.none, .open]

def canTransition (current nxt : PositionState) : Bool := decide (nxt ∈ allowedTransitions current)

def transition (current nxt : PositionState) : Except String PositionState :=
  if !canTransition current nxt then
    .error ("invalid transition: " ++ current.text ++ " -> " ++ nxt.text)
  else .ok nxt

/-- A reading that has not changed asks for no transition. -/
def track (current nxt : PositionState) : Except String PositionState :=
  if nxt = current then .ok current else transition current nxt

theorem track_eq_ok {current nxt : PositionState} (h : nxt = current ∨ canTransition current nxt = true) :
    track current nxt = .ok nxt := by
  rw [track]
  split
  · next heq => rw [heq]
  · next hne => simp [transition, h.resolve_left hne]

end PositionState

end Autr.Domain
