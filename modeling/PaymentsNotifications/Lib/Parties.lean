import Mathlib.Algebra.BigOperators.Group.Finset.Piecewise
import PaymentsNotifications.Lib.Transition

/-! Parties at work on one shared state, in any interleaving. A step is a step of one
party, or a change of the shared state from outside. The rules: what every party
keeps by itself, every party of a run has; and an account, a sum over the parties and
the shared state, that no step overdraws is never overdrawn. -/

namespace Parties

/-- What a party can do, to the shared state and to itself, and what others can do to
the shared state. -/
structure Behaviour (Q P E A : Type) where
  step : Q → P → E → Option (Q × P)
  outside : Q → A → Option Q

structure State (κ Q P : Type) where
  shared : Q
  parties : κ → P

inductive Event (κ E A : Type) where
  | party (i : κ) (e : E)
  | outside (a : A)

section Machine
variable {κ Q P E A : Type} [DecidableEq κ] {b : Behaviour Q P E A}

def Behaviour.next (b : Behaviour Q P E A) (s : State κ Q P) : Event κ E A → Option (State κ Q P)
  | .party i e =>
    (b.step s.shared (s.parties i) e).map fun (q, p) => ⟨q, Function.update s.parties i p⟩
  | .outside a => (b.outside s.shared a).map fun q => { s with shared := q }

def machine (b : Behaviour Q P E A) (init : State κ Q P) :
    Transition.Machine (State κ Q P) (Event κ E A) where
  init := init
  step := b.next

/-- What a step does, case by case. -/
inductive Step (b : Behaviour Q P E A) : State κ Q P → Event κ E A → State κ Q P → Prop where
  | party {s i e q p} (h : b.step s.shared (s.parties i) e = some (q, p)) :
      Step b s (.party i e) ⟨q, Function.update s.parties i p⟩
  | outside {s a q} (h : b.outside s.shared a = some q) :
      Step b s (.outside a) { s with shared := q }

theorem step_spec {s s' : State κ Q P} {event : Event κ E A} (h : b.next s event = some s') :
    Step b s event s' := by
  cases event with
  | party i e =>
    obtain ⟨⟨q, p⟩, hstep, rfl⟩ := Option.map_eq_some_iff.mp h
    exact .party hstep
  | outside a =>
    obtain ⟨q, hstep, rfl⟩ := Option.map_eq_some_iff.mp h
    exact .outside hstep

theorem next_party {s : State κ Q P} {i : κ} {e : E} {q : Q} {p : P}
    (h : b.step s.shared (s.parties i) e = some (q, p)) :
    b.next s (.party i e) = some ⟨q, Function.update s.parties i p⟩ := by
  rw [Behaviour.next, h]
  rfl

/-- What a party's steps keep, whatever the shared state, every party has. -/
theorem Step.each {I : P → Prop} (hkeep : ∀ q p e q' p', b.step q p e = some (q', p') → I p → I p')
    {s s' : State κ Q P} {event : Event κ E A} (hstep : Step b s event s')
    (h : ∀ i, I (s.parties i)) : ∀ i, I (s'.parties i) := by
  cases hstep with
  | @party i e q p hp =>
    intro j
    by_cases hj : j = i
    · subst hj
      simp only [Function.update_self]
      exact hkeep _ _ _ _ _ hp (h j)
    · simp only [Function.update_of_ne hj]
      exact h j
  | outside => exact h

theorem reaches_each {I : P → Prop} {init : State κ Q P} (hstart : ∀ i, I (init.parties i))
    (hkeep : ∀ q p e q' p', b.step q p e = some (q', p') → I p → I p')
    {events : List (Event κ E A)} {s : State κ Q P} (h : (machine b init).Reaches events s) :
    ∀ i, I (s.parties i) :=
  h.invariant (P := fun s => ∀ i, I (s.parties i)) hstart fun _ _ _ hs hstep =>
    (step_spec hstep).each hkeep hs

/-- One party and the shared state, with nobody else at work. -/
def alone (b : Behaviour Q P E A) (init : Q × P) : Transition.Machine (Q × P) E where
  init := init
  step s e := b.step s.1 s.2 e

/-- What a party can do alone, it can do in the midst of the others. -/
theorem runFrom_party {init : State κ Q P} {start : Q × P} {i : κ} {es : List E} {q' : Q} {p' : P}
    {s : State κ Q P} (hrun : (alone b start).runFrom (s.shared, s.parties i) es = some (q', p')) :
    (machine b init).runFrom s (es.map (.party i)) = some ⟨q', Function.update s.parties i p'⟩ := by
  induction es generalizing s with
  | nil =>
    obtain ⟨rfl, rfl⟩ := Prod.mk.inj (Option.some.inj hrun)
    rw [Function.update_eq_self]
    rfl
  | cons e es ih =>
    rw [Transition.Machine.runFrom] at hrun
    obtain ⟨⟨q₁, p₁⟩, hone, hrun⟩ := Option.bind_eq_some_iff.mp hrun
    have hstep : b.next s (.party i e) = some ⟨q₁, Function.update s.parties i p₁⟩ := next_party hone
    have hrest := ih (s := ⟨q₁, Function.update s.parties i p₁⟩)
      (by simpa only [Function.update_self] using hrun)
    rw [List.map_cons, Transition.Machine.runFrom_cons _ hstep, hrest, Function.update_idem]

/-- Other names for the states and the events, under which the parties behave alike. -/
structure Translation (b : Behaviour Q P E A) where
  shared : Q → Q
  party : P → P
  event : E → E
  outside : A → A
  step : ∀ q p e, b.step (shared q) (party p) (event e) = (b.step q p e).map (Prod.map shared party)
  others : ∀ q a, b.outside (shared q) (outside a) = (b.outside q a).map shared

namespace Translation
variable (t : Translation b)

def state (s : State κ Q P) : State κ Q P := ⟨t.shared s.shared, fun i => t.party (s.parties i)⟩

def label : Event κ E A → Event κ E A
  | .party i e => .party i (t.event e)
  | .outside a => .outside (t.outside a)

theorem reaches {init : State κ Q P} {events : List (Event κ E A)} {s : State κ Q P}
    (h : (machine b init).Reaches events s) :
    (machine b (t.state init)).Reaches (events.map t.label) (t.state s) := by
  refine h.translated (N := machine b (t.state init)) rfl fun s event s' hs => ?_
  cases step_spec hs with
  | @party i e q p hp =>
    have hstep : b.step (t.state s).shared ((t.state s).parties i) (t.event e) =
        some (t.shared q, t.party p) := (t.step _ _ _).trans (by rw [hp]; rfl)
    refine (next_party hstep).trans (congrArg some ?_)
    have hparties : (fun j => t.party (Function.update s.parties i p j)) =
        Function.update (t.state s).parties i (t.party p) := funext fun j => by
      by_cases hj : j = i
      · subst hj
        simp
      · simp [hj, state]
    exact (congrArg (State.mk (t.shared q)) hparties).symm
  | @outside a q hq =>
    show (b.outside (t.shared s.shared) (t.outside a)).map _ = _
    rw [t.others, hq]
    rfl

end Translation

end Machine

/-! ## Accounts -/

section Accounts
variable {κ Q P E A : Type} [DecidableEq κ] [Fintype κ] {b : Behaviour Q P E A}

/-- A quantity, of all parties and of the shared state together. -/
def total (w : P → Nat) (v : Q → Nat) (s : State κ Q P) : Nat := v s.shared + ∑ i, w (s.parties i)

omit [Fintype κ] in
theorem update_of_parties (w : P → Nat) (parties : κ → P) (i : κ) (p : P) :
    (fun j => w (Function.update parties i p j)) = Function.update (fun j => w (parties j)) i (w p) :=
  funext fun j => by
    by_cases hj : j = i
    · subst hj
      simp
    · simp [hj]

/-- When one party moves, the sum changes by what that party changes. -/
theorem sum_update (w : P → Nat) (parties : κ → P) (i : κ) (p : P) :
    ∑ j, w (Function.update parties i p j) + w (parties i) = ∑ j, w (parties j) + w p := by
  rw [update_of_parties, Finset.sum_update_of_mem (Finset.mem_univ i), Finset.sdiff_singleton_eq_erase,
    ← Finset.add_sum_erase _ _ (Finset.mem_univ i)]
  omega

theorem total_update (w : P → Nat) (v : Q → Nat) (s : State κ Q P) (i : κ) (q : Q) (p : P) :
    total w v ⟨q, Function.update s.parties i p⟩ + (v s.shared + w (s.parties i)) =
      total w v s + (v q + w p) := by
  have hsum := sum_update w s.parties i p
  simp only [total]
  omega

/-- An account: no step of a party with the invariant, and nothing from outside, takes
more than it pays in. -/
structure Account (b : Behaviour Q P E A) (I : P → Prop) where
  spent : P → Nat
  spentShared : Q → Nat
  paid : P → Nat
  paidShared : Q → Nat
  step : ∀ q p e q' p', I p → b.step q p e = some (q', p') →
    spentShared q' + spent p' + (paidShared q + paid p) ≤
      spentShared q + spent p + (paidShared q' + paid p')
  outside : ∀ q a q', b.outside q a = some q' →
    spentShared q' + paidShared q ≤ spentShared q + paidShared q'

namespace Account
variable {I : P → Prop} (account : Account b I)

def Covered (s : State κ Q P) : Prop :=
  total account.spent account.spentShared s ≤ total account.paid account.paidShared s

theorem step_covered {s s' : State κ Q P} {event : Event κ E A} (hstep : Step b s event s')
    (hI : ∀ i, I (s.parties i)) (h : account.Covered s) : account.Covered s' := by
  unfold Covered at h ⊢
  cases hstep with
  | @party i e q p hp =>
    have hspent := total_update account.spent account.spentShared s i q p
    have hpaid := total_update account.paid account.paidShared s i q p
    have hstep := account.step _ _ _ _ _ (hI i) hp
    omega
  | @outside a q hq =>
    have hstep := account.outside _ _ _ hq
    unfold total at h ⊢
    simp only at h ⊢
    omega

/-- No interleaving overdraws it. -/
theorem reaches_covered {init : State κ Q P} (hstart : ∀ i, I (init.parties i))
    (hkeep : ∀ q p e q' p', b.step q p e = some (q', p') → I p → I p') (hinit : account.Covered init)
    {events : List (Event κ E A)} {s : State κ Q P} (h : (machine b init).Reaches events s) :
    account.Covered s := by
  have hboth := h.invariant (P := fun s => (∀ i, I (s.parties i)) ∧ account.Covered s)
    ⟨hstart, hinit⟩ fun s event s' ⟨hI, hcovered⟩ hstep =>
      ⟨(step_spec hstep).each hkeep hI, account.step_covered (step_spec hstep) hI hcovered⟩
  exact hboth.2

end Account

end Accounts

end Parties
