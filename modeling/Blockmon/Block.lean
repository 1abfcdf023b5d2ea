import Mathlib.Data.List.Basic
import Mathlib.Algebra.Order.Ring.Int

/-!
# Running a block (`core/block/Block.cpp`)

The handlers `_handle_timer`, `_receive_msg` and `_do_async` are code of the derived class. What `Block::run` sees of a handler
call is whether it returns or throws, so a run is described by the outcomes that the handlers have on what is queued.
-/

namespace Blockmon

/-- How a call of a handler ends: it returns, or it throws with a text. -/
abbrev Outcome := Except String Unit

/-- What one call of `Block::run` finds: for every queued timer, in order, the outcome of `_handle_timer` on it; for every input
gate and every message queued there, in order, the outcome of `_receive_msg`; and the outcome of `_do_async`. -/
structure RunInput where
  timers : List Outcome
  ingates : List (List Outcome)
  async : Outcome

/-- Maximum number of messages to dequeue at once from one gate. -/
def MAX_MSG_DEQUEUE : Nat := 10

namespace Block

/-- The handler calls of the loops, one after the other, until one throws. -/
def handleAll : List Outcome → Outcome
  | [] => .ok ()
  | .ok () :: rest => handleAll rest
  | .error e :: _ => .error e

/-- The calls `Block::run` makes when none throws: every queued timer, at most `MAX_MSG_DEQUEUE` messages of every gate, then
the asynchronous work. -/
def calls (inp : RunInput) : List Outcome :=
  inp.timers ++ inp.ingates.flatMap (fun g => g.take MAX_MSG_DEQUEUE) ++ [inp.async]

/-- `Block::run`: an exception of a handler leaves the loops and is not caught. -/
def run (inp : RunInput) : Outcome := handleAll (calls inp)

/-- All messages are handled just when no handler throws. -/
theorem handleAll_eq_ok {os : List Outcome} : handleAll os = .ok () ↔ ∀ o ∈ os, o = .ok () := by
  induction os with
  | nil => simp [handleAll]
  | cons o os ih =>
    cases o with
    | ok u => simp [handleAll, ih]
    | error e => simp [handleAll]

/-- `Block::run` returns exactly when no handler it calls throws. -/
theorem run_eq_ok {inp : RunInput} : run inp = .ok () ↔
    (∀ o ∈ inp.timers, o = .ok ()) ∧ (∀ g ∈ inp.ingates, ∀ o ∈ g.take MAX_MSG_DEQUEUE, o = .ok ()) ∧ inp.async = .ok () := by
  rw [run, handleAll_eq_ok]
  simp only [calls, List.mem_append, List.mem_flatMap, List.mem_singleton]
  constructor
  · intro h
    exact ⟨fun o ho => h o (Or.inl (Or.inl ho)), fun g hg o ho => h o (Or.inl (Or.inr ⟨g, hg, ho⟩)), h _ (Or.inr rfl)⟩
  · rintro ⟨h1, h2, h3⟩ o ((ho | ⟨g, hg, ho⟩) | rfl)
    · exact h1 o ho
    · exact h2 g hg o ho
    · exact h3

end Block

end Blockmon
