/-! Futures that talk to their environment through calls, with the combinators
of an asynchronous runtime (`and_then`, `map_err`, `for_each`), what a run of
one under a deadline looks like, and rules to reason about its runs.

A future is the tree of its calls; an environment answers the `i`-th call of a
run and says how long the answer takes. Dropping a future at its deadline
leaves the call in flight without an answer and starts nothing more. -/

namespace Futures

/-- The calls a future can make and what each of them is answered with. -/
structure Signature where
  Call : Type
  Answer : Call → Type

inductive Fut (σ : Signature) (α : Type) where
  | ready (a : α)
  | call (c : σ.Call) (next : σ.Answer c → Fut σ α)

variable {σ τ : Signature} {α β γ ε δ ι : Type}

namespace Fut

protected def bind : Fut σ α → (α → Fut σ β) → Fut σ β
  | .ready a, f => f a
  | .call c next, f => .call c fun r => (next r).bind f

def perform (c : σ.Call) : Fut σ (σ.Answer c) := .call c .ready

def andThen (f : Fut σ (Except ε α)) (g : α → Fut σ (Except ε β)) : Fut σ (Except ε β) :=
  f.bind fun
    | .ok a => g a
    | .error e => .ready (.error e)

def mapErr (f : Fut σ (Except ε α)) (g : ε → δ) : Fut σ (Except δ α) :=
  f.bind fun
    | .ok a => .ready (.ok a)
    | .error e => .ready (.error (g e))

def map (f : Fut σ (Except ε α)) (g : α → β) : Fut σ (Except ε β) :=
  f.andThen fun a => .ready (.ok (g a))

/-- `stream::iter_ok(items).for_each(f)`: one item after the other, up to the
first error. -/
def forEach (f : ι → Fut σ (Except ε Unit)) : List ι → Fut σ (Except ε Unit)
  | [] => .ready (.ok ())
  | x :: xs => (f x).andThen fun _ => forEach f xs

/-- Replace every call by a future over other calls. -/
def interp (impl : (c : σ.Call) → Fut τ (σ.Answer c)) : Fut σ α → Fut τ α
  | .ready a => .ready a
  | .call c next => (impl c).bind fun r => (next r).interp impl

@[simp] theorem ready_bind (a : α) (f : α → Fut σ β) : (Fut.ready a).bind f = f a := rfl

@[simp] theorem call_bind (c : σ.Call) (next : σ.Answer c → Fut σ α) (f : α → Fut σ β) :
    (Fut.call c next).bind f = .call c fun r => (next r).bind f := rfl

theorem bind_assoc (f : Fut σ α) (g : α → Fut σ β) (h : β → Fut σ γ) :
    (f.bind g).bind h = f.bind fun a => (g a).bind h := by
  induction f with
  | ready a => rfl
  | call c next ih => simp only [call_bind, ih]

theorem interp_bind (impl : (c : σ.Call) → Fut τ (σ.Answer c)) (f : Fut σ α)
    (g : α → Fut σ β) :
    (f.bind g).interp impl = (f.interp impl).bind fun a => (g a).interp impl := by
  induction f with
  | ready a => rfl
  | call c next ih => simp only [call_bind, interp, ih, bind_assoc]

theorem interp_perform (impl : (c : σ.Call) → Fut τ (σ.Answer c)) (c : σ.Call) :
    (perform c).interp impl = impl c := by
  have hb : ∀ f : Fut τ (σ.Answer c), f.bind .ready = f := by
    intro f
    induction f with
    | ready a => rfl
    | call c next ih => simp only [call_bind, ih]
  exact hb (impl c)

theorem interp_mapErr (impl : (c : σ.Call) → Fut τ (σ.Answer c)) (f : Fut σ (Except ε α))
    (g : ε → δ) : (f.mapErr g).interp impl = (f.interp impl).mapErr g := by
  rw [mapErr, interp_bind, mapErr]
  congr 1
  funext r
  cases r <;> rfl

theorem interp_andThen (impl : (c : σ.Call) → Fut τ (σ.Answer c)) (f : Fut σ (Except ε α))
    (g : α → Fut σ (Except ε β)) :
    (f.andThen g).interp impl = (f.interp impl).andThen fun a => (g a).interp impl := by
  rw [andThen, interp_bind, andThen]
  congr 1
  funext r
  cases r <;> rfl

theorem interp_forEach (impl : (c : σ.Call) → Fut τ (σ.Answer c))
    (f : ι → Fut σ (Except ε Unit)) (items : List ι) :
    (forEach f items).interp impl = forEach (fun x => (f x).interp impl) items := by
  induction items with
  | nil => rfl
  | cons x xs ih => simp only [forEach, interp_andThen, ih]

end Fut

/-! ## Runs under a deadline -/

/-- The environment of one run: the answer to its `i`-th call and the time it takes. -/
abbrev Env (σ : Signature) := Nat → (c : σ.Call) → σ.Answer c × Nat

/-- A call of a run: when it was started, and its answer unless it was dropped. -/
structure Entry (σ : Signature) where
  call : σ.Call
  start : Nat
  answer : Option (σ.Answer call)

/-- The calls of a run, and its value with the time it was ready. -/
structure Execution (σ : Signature) (α : Type) where
  log : List (Entry σ)
  result : Option (α × Nat)

namespace Fut

/-- A run from time `now`, after `i` calls. When an answer and the deadline fall
on the same instant the future is polled first. -/
def runUntil (deadline : Nat) (env : Env σ) (i now : Nat) : Fut σ α → Execution σ α
  | .ready a => ⟨[], some (a, now)⟩
  | .call c next =>
    let (r, took) := env i c
    if now + took ≤ deadline then
      let rest := runUntil deadline env (i + 1) (now + took) (next r)
      ⟨⟨c, now, some r⟩ :: rest.log, rest.result⟩
    else ⟨[⟨c, now, none⟩], none⟩

/-- The value of a future whose calls all get the answer `answers` gives them. -/
def eval (answers : (c : σ.Call) → σ.Answer c) : Fut σ α → α
  | .ready a => a
  | .call c next => (next (answers c)).eval answers

/-- A run without a deadline: its calls, how long it takes, and the value. -/
structure Ran (σ : Signature) (α : Type) where
  log : List (Entry σ)
  took : Nat
  value : α

def exec (env : Env σ) (i now : Nat) : Fut σ α → Ran σ α
  | .ready a => ⟨[], 0, a⟩
  | .call c next =>
    let (r, took) := env i c
    let rest := exec env (i + 1) (now + took) (next r)
    ⟨⟨c, now, some r⟩ :: rest.log, took + rest.took, rest.value⟩

theorem exec_call (env : Env σ) (i now : Nat) (c : σ.Call) (next : σ.Answer c → Fut σ α) :
    (Fut.call c next).exec env i now =
      let rest := (next (env i c).1).exec env (i + 1) (now + (env i c).2)
      ⟨⟨c, now, some (env i c).1⟩ :: rest.log, (env i c).2 + rest.took, rest.value⟩ := rfl

theorem exec_bind (env : Env σ) (i now : Nat) (f : Fut σ α) (g : α → Fut σ β) :
    (f.bind g).exec env i now =
      let first := f.exec env i now
      let rest := (g first.value).exec env (i + first.log.length) (now + first.took)
      ⟨first.log ++ rest.log, first.took + rest.took, rest.value⟩ := by
  induction f generalizing i now with
  | ready a => simp [exec]
  | call c next ih => simp [exec, ih, Nat.add_assoc, Nat.add_comm 1]

theorem runUntil_call (deadline : Nat) (env : Env σ) (i now : Nat) (c : σ.Call)
    (next : σ.Answer c → Fut σ α) :
    (Fut.call c next).runUntil deadline env i now =
      if now + (env i c).2 ≤ deadline then
        let rest := (next (env i c).1).runUntil deadline env (i + 1) (now + (env i c).2)
        ⟨⟨c, now, some (env i c).1⟩ :: rest.log, rest.result⟩
      else ⟨[⟨c, now, none⟩], none⟩ := rfl

/-- Calls start from the beginning of the run on, and by its deadline and its end. -/
theorem runUntil_start {deadline now : Nat} (env : Env σ) (i : Nat) (f : Fut σ α)
    (hnow : now ≤ deadline) :
    (∀ entry ∈ (f.runUntil deadline env i now).log, entry.start ≤ deadline) ∧
      ∀ v t, (f.runUntil deadline env i now).result = some (v, t) →
        now ≤ t ∧ ∀ entry ∈ (f.runUntil deadline env i now).log, entry.start ≤ t := by
  induction f generalizing i now with
  | ready a =>
    refine ⟨fun entry hmem => (nomatch hmem), fun v t h => ?_⟩
    obtain ⟨-, rfl⟩ := Prod.mk.inj (Option.some.inj h)
    exact ⟨Nat.le_refl now, fun entry hmem => (nomatch hmem)⟩
  | call c next ih =>
    rw [runUntil_call]
    by_cases hc : now + (env i c).2 ≤ deadline
    · obtain ⟨hstart, hresult⟩ := ih (env i c).1 (i + 1) hc
      rw [if_pos hc]
      refine ⟨List.forall_mem_cons.mpr ⟨hnow, hstart⟩, fun v t h => ?_⟩
      obtain ⟨hle, hall⟩ := hresult v t h
      have hbegin : now ≤ t := Nat.le_trans (Nat.le_add_right now _) hle
      exact ⟨hbegin, List.forall_mem_cons.mpr ⟨hbegin, hall⟩⟩
    · rw [if_neg hc]
      refine ⟨fun entry hmem => ?_, fun v t h => (nomatch h)⟩
      rw [List.mem_singleton.mp hmem]
      exact hnow

/-- What is in the log as an answer is what the environment answered. -/
theorem runUntil_answer (deadline : Nat) (env : Env σ) (i now : Nat) (f : Fut σ α) :
    ∀ entry ∈ (f.runUntil deadline env i now).log, ∀ r, entry.answer = some r →
      ∃ j, (env j entry.call).1 = r := by
  induction f generalizing i now with
  | ready a => exact fun entry hmem => nomatch hmem
  | call c next ih =>
    intro entry hmem r hr
    by_cases hc : now + (env i c).2 ≤ deadline
    · simp only [runUntil, hc, if_true, List.mem_cons] at hmem
      rcases hmem with rfl | hmem
      · exact ⟨i, Option.some.inj hr⟩
      · exact ih _ (i + 1) _ entry hmem r hr
    · simp only [runUntil, hc, if_false, List.mem_singleton] at hmem
      subst hmem
      cases hr

/-- A run that is over by its deadline is not touched by it. -/
theorem runUntil_inTime {deadline : Nat} {env : Env σ} {i now : Nat} {f : Fut σ α}
    (h : now + (f.exec env i now).took ≤ deadline) :
    f.runUntil deadline env i now =
      ⟨(f.exec env i now).log,
        some ((f.exec env i now).value, now + (f.exec env i now).took)⟩ := by
  induction f generalizing i now with
  | ready a => rfl
  | call c next ih =>
    have hsum : now + (env i c).2 + ((next (env i c).1).exec env (i + 1) (now + (env i c).2)).took
        ≤ deadline := by
      rw [Nat.add_assoc]
      exact h
    have hc : now + (env i c).2 ≤ deadline := Nat.le_trans (Nat.le_add_right _ _) hsum
    simp only [runUntil, exec, hc, if_true, ih _ hsum, Nat.add_assoc]

/-- A run that would be over later is dropped. -/
theorem runUntil_late {deadline : Nat} {env : Env σ} {i now : Nat} {f : Fut σ α}
    (hnow : now ≤ deadline) (h : deadline < now + (f.exec env i now).took) :
    (f.runUntil deadline env i now).result = none := by
  induction f generalizing i now with
  | ready a => exact absurd h (Nat.not_lt.mpr hnow)
  | call c next ih =>
    by_cases hc : now + (env i c).2 ≤ deadline
    · simp only [runUntil, hc, if_true]
      refine ih _ hc ?_
      rw [Nat.add_assoc]
      exact h
    · simp only [runUntil, hc, if_false]

theorem runUntil_result {deadline : Nat} {env : Env σ} {i now : Nat} {f : Fut σ α}
    (hnow : now ≤ deadline) :
    (f.runUntil deadline env i now).result =
      if now + (f.exec env i now).took ≤ deadline then
        some ((f.exec env i now).value, now + (f.exec env i now).took)
      else none := by
  split
  · rw [runUntil_inTime ‹_›]
  · exact runUntil_late hnow (Nat.lt_of_not_le ‹_›)

/-! ## Runs of an interpreted future -/

/-- A run looks at its environment from its first call on. -/
theorem exec_congr {env env' : Env σ} {i now : Nat} {f : Fut σ α}
    (h : ∀ j, i ≤ j → env j = env' j) : f.exec env i now = f.exec env' i now := by
  induction f generalizing i now with
  | ready a => rfl
  | call c next ih =>
    have hrest : (next (env i c).1).exec env (i + 1) (now + (env i c).2) =
        (next (env i c).1).exec env' (i + 1) (now + (env i c).2) :=
      ih (env i c).1 fun j hj => h j (Nat.le_of_succ_le hj)
    rw [exec_call, exec_call, hrest, h i (Nat.le_refl i)]

/-- The answers of `env'` are what carrying out the calls over `env` gives. -/
def CarriedOut (impl : (c : σ.Call) → Fut τ (σ.Answer c)) (env : Env τ) (env' : Env σ) : Prop :=
  ∀ j c, ∃ k t, env' j c = (((impl c).exec env k t).value, ((impl c).exec env k t).took)

/-- A future over other calls behaves as the one it was made from, in an
environment where each call takes as long as it takes to carry it out. -/
theorem exists_carriedOut (impl : (c : σ.Call) → Fut τ (σ.Answer c)) (env : Env τ)
    (f : Fut σ α) (i i' now : Nat) :
    ∃ env', CarriedOut impl env env' ∧
      (f.exec env' i' now).took = ((f.interp impl).exec env i now).took ∧
      (f.exec env' i' now).value = ((f.interp impl).exec env i now).value := by
  induction f generalizing i i' now with
  | ready a =>
    exact ⟨fun _ c => (((impl c).exec env 0 0).value, ((impl c).exec env 0 0).took),
      fun _ _ => ⟨0, 0, rfl⟩, rfl, rfl⟩
  | call c next ih =>
    let first := (impl c).exec env i now
    obtain ⟨rest, hcarried, htook, hvalue⟩ :=
      ih first.value (i + first.log.length) (i' + 1) (now + first.took)
    let env' : Env σ := fun j c' =>
      if j = i' then (((impl c').exec env i now).value, ((impl c').exec env i now).took)
      else rest j c'
    have hhead : env' i' c = (first.value, first.took) := if_pos rfl
    have htail : ∀ j, i' + 1 ≤ j → env' j = rest j := fun j hj =>
      funext fun c' => if_neg (Nat.ne_of_gt hj)
    refine ⟨env', fun j c' => ?_, ?_, ?_⟩
    · by_cases hj : j = i'
      · exact ⟨i, now, if_pos hj⟩
      · obtain ⟨k, t, hrest⟩ := hcarried j c'
        exact ⟨k, t, (if_neg hj).trans hrest⟩
    · rw [interp, exec_bind, exec_call, hhead, exec_congr htail]
      exact congrArg (first.took + ·) htook
    · rw [interp, exec_bind, exec_call, hhead, exec_congr htail]
      exact hvalue

theorem exists_runUntil_carriedOut (impl : (c : σ.Call) → Fut τ (σ.Answer c)) (env : Env τ)
    (f : Fut σ α) {deadline now : Nat} (i i' : Nat) (hnow : now ≤ deadline) :
    ∃ env', CarriedOut impl env env' ∧
      (f.runUntil deadline env' i' now).result =
        ((f.interp impl).runUntil deadline env i now).result := by
  obtain ⟨env', hcarried, htook, hvalue⟩ := exists_carriedOut impl env f i i' now
  refine ⟨env', hcarried, ?_⟩
  rw [runUntil_result hnow, runUntil_result hnow, htook, hvalue]

end Fut

/-! ## Rules for the runs of a future

`wp` describes every run at once: whatever the answers are, as long as they
satisfy the assumption, and wherever the run is dropped. -/

/-- A call and its answer, without the clock. -/
structure Event (σ : Signature) where
  call : σ.Call
  answer : Option (σ.Answer call)

def Entry.event (e : Entry σ) : Event σ := ⟨e.call, e.answer⟩

abbrev Assumption (σ : Signature) := (c : σ.Call) → σ.Answer c → Prop

/-- What holds of the calls made so far and of the value, if there is one. -/
abbrev Post (σ : Signature) (α : Type) := List (Event σ) → Option α → Prop

namespace Fut

def wp (A : Assumption σ) (Q : Post σ α) : Fut σ α → List (Event σ) → Prop
  | .ready a, l => Q l (some a)
  | .call c next, l =>
    Q (l ++ [⟨c, none⟩]) none ∧ ∀ r, A c r → (next r).wp A Q (l ++ [⟨c, some r⟩])

theorem wp_mono {A : Assumption σ} {Q Q' : Post σ α} (hQ : ∀ l r, Q l r → Q' l r)
    {f : Fut σ α} {l : List (Event σ)} (h : f.wp A Q l) : f.wp A Q' l := by
  induction f generalizing l with
  | ready a => exact hQ _ _ h
  | call c next ih => exact ⟨hQ _ _ h.1, fun r hr => ih r (h.2 r hr)⟩

theorem wp_bind {A : Assumption σ} {Q : Post σ β} {f : Fut σ α} {g : α → Fut σ β}
    {l : List (Event σ)} :
    (f.bind g).wp A Q l ↔
      f.wp A (fun l' r => match r with
        | none => Q l' none
        | some a => (g a).wp A Q l') l := by
  induction f generalizing l with
  | ready a => rfl
  | call c next ih =>
    simp only [call_bind, wp]
    exact and_congr_right fun _ => forall_congr' fun r => imp_congr_right fun _ => ih r

/-- A loop keeps `I` after each item that succeeds and stops with `Q` otherwise. -/
theorem wp_forEach {A : Assumption σ} {Q : Post σ (Except ε Unit)} {I : List (Event σ) → Prop}
    {f : ι → Fut σ (Except ε Unit)} {items : List ι}
    (hbody : ∀ x ∈ items, ∀ l, I l → (f x).wp A (fun l' (r : Option (Except ε Unit)) => match r with
      | some (.ok _) => I l'
      | some (.error e) => Q l' (some (.error e))
      | none => Q l' none) l)
    (hdone : ∀ l, I l → Q l (some (.ok ()))) {l : List (Event σ)} (h : I l) :
    (forEach f items).wp A Q l := by
  induction items generalizing l with
  | nil => exact hdone l h
  | cons x xs ih =>
    have hx := hbody x (List.mem_cons_self ..) l h
    rw [forEach, andThen, wp_bind]
    refine wp_mono (fun l' r hr => ?_) hx
    cases r with
    | none => exact hr
    | some v =>
      cases v with
      | error e => exact hr
      | ok _ => exact ih (fun y hy => hbody y (List.mem_cons_of_mem _ hy)) hr

/-- What `wp` promises holds of every run, whatever its deadline. -/
theorem wp_sound {A : Assumption σ} {Q : Post σ α} {env : Env σ}
    (henv : ∀ i c, A c (env i c).1) (deadline i now : Nat) {f : Fut σ α}
    {l : List (Event σ)} (h : f.wp A Q l) :
    Q (l ++ (f.runUntil deadline env i now).log.map Entry.event)
      ((f.runUntil deadline env i now).result.map Prod.fst) := by
  induction f generalizing i now l with
  | ready a =>
    simp only [runUntil, List.map_nil, List.append_nil]
    exact h
  | call c next ih =>
    obtain ⟨hdrop, hnext⟩ := h
    by_cases hc : now + (env i c).2 ≤ deadline
    · have hr := ih _ (i + 1) (now + (env i c).2) (hnext _ (henv i c))
      simpa [runUntil, hc, Entry.event] using hr
    · simpa [runUntil, hc, Entry.event] using hdrop

end Fut

end Futures
