import Mathlib.Data.List.Basic
import PaymentsNotifications.Lib.Transition

/-! A work queue. Messages come in at the end; the first message that is not done is
tried, over and over, until a try of it succeeds. This is what a queue with one
worker is for, whatever stands between the two. -/

namespace WorkQueue
variable {α ι : Type}

/-- The messages, how many of them are done, and the tries so far with their message. -/
structure State (α ι : Type) where
  published : List α
  done : Nat
  tried : List (Nat × ι)

inductive Action (α ι : Type) where
  | publish (a : α)
  | attempt (met : ι)
  | advance

namespace State

def start (contents : List α) : State α ι := ⟨contents, 0, []⟩

/-- Some try of the message succeeded. -/
def succeeded (ok : α → ι → Bool) (self : State α ι) (i : Nat) : Bool :=
  self.published[i]?.any fun a => self.tried.any fun t => t.1 == i && ok a t.2

def step (ok : α → ι → Bool) (self : State α ι) : Action α ι → Option (State α ι)
  | .publish a => some { self with published := self.published ++ [a] }
  | .attempt met =>
    if self.done < self.published.length then
      some { self with tried := self.tried ++ [(self.done, met)] }
    else none
  | .advance => if self.succeeded ok self.done then some { self with done := self.done + 1 } else none

end State

def machine (ok : α → ι → Bool) (contents : List α) :
    Transition.Machine (State α ι) (Action α ι) where
  init := .start contents
  step := State.step ok

namespace State
variable {ok : α → ι → Bool} {s : State α ι}

end State

end WorkQueue
