import Mathlib.Logic.Function.Basic
import PaymentsNotifications.Lib.Futures

/-! The traces of a future: what its runs can look like, whatever is answered and
wherever it is dropped. A run under a deadline follows a trace; and a trace is the run of
some environment, when its answers can all be there by the deadline. -/

namespace Futures
variable {σ : Signature} {α : Type}

/-- The least time an answer takes. -/
abbrev Cost (σ : Signature) := (c : σ.Call) → σ.Answer c → Nat

/-- No answer comes sooner than it can. -/
def Env.Takes (env : Env σ) (cost : Cost σ) : Prop := ∀ i c, cost c (env i c).1 ≤ (env i c).2

/-- The least time a call and its answer take. -/
def Event.spent (cost : Cost σ) : Event σ → Nat
  | ⟨c, some r⟩ => cost c r
  | ⟨_, none⟩ => 0

/-- The least time these calls take, one after the other. -/
def spent (cost : Cost σ) : List (Event σ) → Nat
  | [] => 0
  | e :: l => e.spent cost + spent cost l

theorem spent_cons (cost : Cost σ) (e : Event σ) (l : List (Event σ)) :
    spent cost (e :: l) = e.spent cost + spent cost l := rfl

theorem spent_append (cost : Cost σ) (l l' : List (Event σ)) :
    spent cost (l ++ l') = spent cost l + spent cost l' := by
  induction l with
  | nil => exact (Nat.zero_add _).symm
  | cons e l ih => rw [List.cons_append, spent_cons, spent_cons, ih, Nat.add_assoc]

namespace Fut

/-- The calls of a run with their answers, and its value unless it was dropped. -/
inductive Trace : Fut σ α → List (Event σ) → Option α → Prop where
  | ready (a : α) : Trace (.ready a) [] (some a)
  | dropped (c : σ.Call) (next : σ.Answer c → Fut σ α) : Trace (.call c next) [⟨c, none⟩] none
  | answered {c : σ.Call} {next : σ.Answer c → Fut σ α} {l : List (Event σ)} {o : Option α}
      (r : σ.Answer c) (h : Trace (next r) l o) : Trace (.call c next) (⟨c, some r⟩ :: l) o

theorem trace_ready {a : α} {l : List (Event σ)} {o : Option α} :
    Trace (.ready a) l o ↔ l = [] ∧ o = some a := by
  constructor
  · rintro ⟨⟩
    exact ⟨rfl, rfl⟩
  · rintro ⟨rfl, rfl⟩
    exact .ready a

theorem trace_call {c : σ.Call} {next : σ.Answer c → Fut σ α} {l : List (Event σ)} {o : Option α} :
    Trace (.call c next) l o ↔ l = [⟨c, none⟩] ∧ o = none ∨
      ∃ r l', l = ⟨c, some r⟩ :: l' ∧ Trace (next r) l' o := by
  constructor
  · intro h
    cases h with
    | dropped => exact .inl ⟨rfl, rfl⟩
    | answered r h => exact .inr ⟨r, _, rfl, h⟩
  · rintro (⟨rfl, rfl⟩ | ⟨r, l', rfl, h⟩)
    · exact .dropped c next
    · exact .answered r h

theorem trace_runUntil (deadline : Nat) (env : Env σ) (i now : Nat) (f : Fut σ α) :
    Trace f ((f.runUntil deadline env i now).log.map Entry.event)
      ((f.runUntil deadline env i now).result.map Prod.fst) := by
  induction f generalizing i now with
  | ready a => exact .ready a
  | call c next ih =>
    rw [runUntil_call]
    by_cases hc : now + (env i c).2 ≤ deadline
    · rw [if_pos hc]
      exact .answered _ (ih _ (i + 1) _)
    · rw [if_neg hc]
      exact .dropped c next

/-- What is answered by the deadline could be there by the deadline. -/
theorem spent_runUntil {cost : Cost σ} {env : Env σ} (henv : env.Takes cost) {deadline now : Nat}
    (i : Nat) (f : Fut σ α) (hnow : now ≤ deadline) :
    now + spent cost ((f.runUntil deadline env i now).log.map Entry.event) ≤ deadline := by
  induction f generalizing i now with
  | ready a => exact hnow
  | call c next ih =>
    rw [runUntil_call]
    by_cases hc : now + (env i c).2 ≤ deadline
    · have hfirst : cost c (env i c).1 ≤ (env i c).2 := henv i c
      have hrest := ih (env i c).1 (i + 1) hc
      rw [if_pos hc, List.map_cons, spent_cons]
      show now + (cost c (env i c).1 + _) ≤ deadline
      omega
    · rw [if_neg hc]
      exact hnow

open Classical in
/-- A trace whose answers can be there by the deadline is a run: what is answered takes
the least time it can, and what is dropped takes too long. Of `env` only answers are used,
where the trace has none. -/
theorem Trace.exists_runUntil {f : Fut σ α} {l : List (Event σ)} {o : Option α} (h : Trace f l o)
    {cost : Cost σ} {env : Env σ} (henv : env.Takes cost) {deadline now : Nat} (i : Nat)
    (hfits : now + spent cost l ≤ deadline) :
    ∃ env' : Env σ, env'.Takes cost ∧ (∀ j < i, env' j = env j) ∧
      (f.runUntil deadline env' i now).log.map Entry.event = l ∧
      (f.runUntil deadline env' i now).result.map Prod.fst = o := by
  induction h generalizing env i now with
  | ready a => exact ⟨env, henv, fun _ _ => rfl, rfl, rfl⟩
  | dropped c next =>
    refine ⟨fun j c' => if j < i then env j c' else ((env j c').1, (env j c').2 + deadline + 1),
      fun j c' => ?_, ?_, ?_⟩
    · have hleast := henv j c'
      by_cases hj : j < i
      · simpa only [hj, if_true] using hleast
      · simp only [hj, if_false]
        omega
    · intro j hj
      funext c'
      exact if_pos hj
    · rw [runUntil_call, if_neg]
      · exact ⟨rfl, rfl⟩
      · simp only [Nat.lt_irrefl, if_false]
        omega
  | @answered c next l o r h ih =>
    -- answer this call first, and leave the later ones to the rest of the trace
    let first : Env σ := Function.update env i (Function.update (env i) c (r, cost c r))
    have hfirst : first.Takes cost := by
      intro j c'
      by_cases hj : j = i
      · subst hj
        by_cases hc : c' = c
        · subst hc
          simp only [first, Function.update_self, Nat.le_refl]
        · simpa only [first, Function.update_self, Function.update_of_ne hc] using henv j c'
      · simpa only [first, Function.update_of_ne hj] using henv j c'
    have hsum : now + cost c r + spent cost l ≤ deadline := by
      rw [Nat.add_assoc]
      exact hfits
    obtain ⟨env', htakes, hsame, hlog, hresult⟩ := ih hfirst (i + 1) hsum
    have hhead : env' i c = (r, cost c r) := by
      rw [hsame i (Nat.lt_succ_self i)]
      simp only [first, Function.update_self]
    refine ⟨env', htakes, fun j hj => ?_, ?_⟩
    · rw [hsame j (Nat.lt_succ_of_lt hj)]
      exact Function.update_of_ne (Nat.ne_of_lt hj) _ _
    · have hin : now + (r, cost c r).2 ≤ deadline := Nat.le_trans (Nat.le_add_right _ _) hsum
      rw [runUntil_call, hhead, if_pos hin]
      refine ⟨?_, hresult⟩
      rw [← hlog]
      rfl

/-- What the runs of a future look like by a deadline: the traces that can be over by then,
or where they are dropped. -/
theorem exists_runUntil_iff {f : Fut σ α} {l : List (Event σ)} {o : Option α} {cost : Cost σ}
    {env : Env σ} (henv : env.Takes cost) (deadline : Nat) :
    (∃ env' : Env σ, env'.Takes cost ∧ (f.runUntil deadline env' 0 0).log.map Entry.event = l ∧
      (f.runUntil deadline env' 0 0).result.map Prod.fst = o) ↔
    Trace f l o ∧ spent cost l ≤ deadline := by
  constructor
  · rintro ⟨env', htakes, rfl, rfl⟩
    have hspent := spent_runUntil htakes 0 f (Nat.zero_le deadline)
    rw [Nat.zero_add] at hspent
    exact ⟨trace_runUntil deadline env' 0 0 f, hspent⟩
  · rintro ⟨h, hfits⟩
    have hspent : 0 + spent cost l ≤ deadline := by
      rw [Nat.zero_add]
      exact hfits
    obtain ⟨env', htakes, -, hlog, hresult⟩ := h.exists_runUntil henv 0 hspent
    exact ⟨env', htakes, hlog, hresult⟩

end Fut

end Futures
