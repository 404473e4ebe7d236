import Mathlib.Data.List.Forall2
import PaymentsNotifications.Lib.Futures

/-! Two futures side by side, in environments whose answers are alike. Rules for the
combinators, and what the two runs under one deadline then have in common. -/

namespace Futures

variable {σ : Signature} {α β γ δ ε ε' ι : Type}

/-- Which answers to a call are taken for the same. -/
abbrev Likeness (σ : Signature) := (c : σ.Call) → σ.Answer c → σ.Answer c → Prop

/-- Answers that are alike, at the same times. -/
def Env.Alike (A : Likeness σ) (env env' : Env σ) : Prop :=
  ∀ i c, A c (env i c).1 (env' i c).1 ∧ (env i c).2 = (env' i c).2

/-- Both values are results, or both are errors. -/
inductive Outcomes (E : ε → ε' → Prop) (R : α → β → Prop) : Except ε α → Except ε' β → Prop where
  | ok {a b} (h : R a b) : Outcomes E R (.ok a) (.ok b)
  | error {e e'} (h : E e e') : Outcomes E R (.error e) (.error e')

abbrev SameSuccess : Except ε α → Except ε' α → Prop := Outcomes (fun _ _ => True) Eq

theorem sameSuccess_of_toBool {x : Except ε Unit} {y : Except ε' Unit} (h : x.toBool = y.toBool) :
    SameSuccess x y := by
  cases x with
  | error e =>
    cases y with
    | error e' => exact .error trivial
    | ok u => cases h
  | ok u =>
    cases y with
    | error e' => cases h
    | ok u' => exact .ok rfl

namespace Fut

/-- The futures make the same calls as long as the answers are alike, and come to
related values. -/
inductive Alike (A : Likeness σ) (R : α → β → Prop) : Fut σ α → Fut σ β → Prop where
  | ready {a b} (h : R a b) : Alike A R (.ready a) (.ready b)
  | call {c next next'} (h : ∀ r r', A c r r' → Alike A R (next r) (next' r')) :
      Alike A R (.call c next) (.call c next')

namespace Alike
variable {A : Likeness σ} {R : α → β → Prop} {S : γ → δ → Prop} {E : ε → ε' → Prop}

theorem bind {f : Fut σ α} {g : Fut σ β} {k : α → Fut σ γ} {k' : β → Fut σ δ}
    (h : Alike A R f g) (hk : ∀ a b, R a b → Alike A S (k a) (k' b)) :
    Alike A S (f.bind k) (g.bind k') := by
  induction h with
  | ready hab => exact hk _ _ hab
  | call _ ih => exact .call ih

theorem andThen {f : Fut σ (Except ε α)} {g : Fut σ (Except ε' β)} {k : α → Fut σ (Except ε γ)}
    {k' : β → Fut σ (Except ε' δ)} (h : Alike A (Outcomes E R) f g)
    (hk : ∀ a b, R a b → Alike A (Outcomes E S) (k a) (k' b)) :
    Alike A (Outcomes E S) (f.andThen k) (g.andThen k') := by
  refine h.bind fun x y hxy => ?_
  cases hxy with
  | ok hab => exact hk _ _ hab
  | error he => exact .ready (.error he)

theorem mapErr {ε₁ ε₂ : Type} {E' : ε₁ → ε₂ → Prop} {f : Fut σ (Except ε α)}
    {g : Fut σ (Except ε' β)} {k : ε → ε₁} {k' : ε' → ε₂} (h : Alike A (Outcomes E R) f g)
    (hk : ∀ e e', E e e' → E' (k e) (k' e')) :
    Alike A (Outcomes E' R) (f.mapErr k) (g.mapErr k') := by
  refine h.bind fun x y hxy => ?_
  cases hxy with
  | ok hab => exact .ready (.ok hab)
  | error he => exact .ready (.error (hk _ _ he))

/-- Bodies that are alike on every item make loops that are. -/
theorem forEach {f : ι → Fut σ (Except ε Unit)} {g : ι → Fut σ (Except ε' Unit)} {items : List ι}
    (hbody : ∀ x ∈ items, Alike A (Outcomes E Eq) (f x) (g x)) :
    Alike A (Outcomes E Eq) (forEach f items) (forEach g items) := by
  induction items with
  | nil => exact .ready (.ok rfl)
  | cons x xs ih =>
    exact (hbody x List.mem_cons_self).andThen fun _ _ _ =>
      ih fun y hy => hbody y (List.mem_cons_of_mem x hy)

end Alike

end Fut

/-! ## Their runs -/

/-- The same call at the same time, answered in both runs or in neither. -/
inductive Entry.Alike (A : Likeness σ) : Entry σ → Entry σ → Prop where
  | answered {c start r r'} (h : A c r r') : Entry.Alike A ⟨c, start, some r⟩ ⟨c, start, some r'⟩
  | dropped {c start} : Entry.Alike A ⟨c, start, none⟩ ⟨c, start, none⟩

structure Execution.Alike (A : Likeness σ) (R : α → β → Prop) (run : Execution σ α)
    (run' : Execution σ β) : Prop where
  log : List.Forall₂ (Entry.Alike A) run.log run'.log
  result : Option.Rel (fun v v' => R v.1 v'.1 ∧ v.2 = v'.2) run.result run'.result

/-- Futures that are alike where the answers of this run are concerned. -/
theorem Fut.Alike.runUntil {A B : Likeness σ} {R : α → β → Prop} {f : Fut σ α} {g : Fut σ β}
    (h : Alike A R f g) {env env' : Env σ} (henv : env.Alike B env') {deadline i now : Nat}
    (hlog : ∀ entry ∈ (f.runUntil deadline env i now).log, ∀ r r',
      entry.answer = some r → B entry.call r r' → A entry.call r r') :
    (f.runUntil deadline env i now).Alike B R (g.runUntil deadline env' i now) := by
  induction h generalizing i now with
  | ready hab => exact ⟨.nil, .some ⟨hab, rfl⟩⟩
  | @call c next next' _ ih =>
    obtain ⟨hanswer, htime⟩ := henv i c
    rw [runUntil_call] at hlog
    rw [runUntil_call, runUntil_call, ← htime]
    by_cases hc : now + (env i c).2 ≤ deadline
    · rw [if_pos hc] at hlog
      rw [if_pos hc, if_pos hc]
      obtain ⟨hfirst, hrest⟩ := List.forall_mem_cons.mp hlog
      have hrun := ih _ _ (hfirst _ _ rfl hanswer) hrest
      exact ⟨.cons (.answered hanswer) hrun.log, hrun.result⟩
    · rw [if_neg hc, if_neg hc]
      exact ⟨.cons .dropped .nil, .none⟩

end Futures
