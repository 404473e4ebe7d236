/-! Machines with labelled steps, their runs, and the rules that carry an
invariant, or a simulation by another machine, from one step to a run. A step is a
partial function of the state and the label: what the environment chooses is in the
label. -/

namespace Transition

structure Machine (S L : Type) where
  init : S
  step : S → L → Option S

namespace Machine
variable {S L : Type} (M : Machine S L)

def runFrom : S → List L → Option S
  | s, [] => some s
  | s, l :: ls => (M.step s l).bind fun s' => runFrom s' ls

/-- The run over these labels exists and ends here. -/
def Reaches (labels : List L) (s : S) : Prop := M.runFrom M.init labels = some s

theorem runFrom_append (s : S) (ls ls' : List L) :
    M.runFrom s (ls ++ ls') = (M.runFrom s ls).bind fun s' => M.runFrom s' ls' := by
  induction ls generalizing s with
  | nil => rfl
  | cons l ls ih =>
    rw [List.cons_append, runFrom, runFrom]
    cases M.step s l with
    | none => rfl
    | some s' => exact ih s'

theorem runFrom_trans {s s' s'' : S} {ls ls' : List L} (h : M.runFrom s ls = some s')
    (h' : M.runFrom s' ls' = some s'') : M.runFrom s (ls ++ ls') = some s'' := by
  rw [runFrom_append, h]
  exact h'

theorem runFrom_cons {s s' : S} {l : L} (h : M.step s l = some s') (ls : List L) :
    M.runFrom s (l :: ls) = M.runFrom s' ls := by
  rw [runFrom, h]
  rfl

theorem Reaches.split {M : Machine S L} {ls ls' : List L} {s : S} (h : M.Reaches (ls ++ ls') s) :
    ∃ t, M.Reaches ls t ∧ M.runFrom t ls' = some s := by
  unfold Reaches at h
  rw [runFrom_append] at h
  cases ht : M.runFrom M.init ls with
  | none =>
    rw [ht] at h
    cases h
  | some t =>
    rw [ht] at h
    exact ⟨t, ht, h⟩

theorem Reaches.snoc {M : Machine S L} {ls : List L} {s s' : S} {l : L} (h : M.Reaches ls s)
    (hs : M.step s l = some s') : M.Reaches (ls ++ [l]) s' :=
  M.runFrom_trans h ((M.runFrom_cons hs []).trans rfl)

/-- What one step preserves holds along a run. The history is the labels so far. -/
theorem runFrom_history {P : List L → S → Prop}
    (hstep : ∀ ls s l s', P ls s → M.step s l = some s' → P (ls ++ [l]) s')
    {ls ls' : List L} {s s' : S} (h : P ls s) (hrun : M.runFrom s ls' = some s') :
    P (ls ++ ls') s' := by
  induction ls' generalizing ls s with
  | nil =>
    obtain rfl : s = s' := Option.some.inj hrun
    rw [List.append_nil]
    exact h
  | cons l ls' ih =>
    rw [runFrom] at hrun
    cases hs : M.step s l with
    | none =>
      rw [hs] at hrun
      cases hrun
    | some t =>
      rw [hs] at hrun
      have ht := ih (hstep ls s l t h hs) hrun
      rw [List.append_assoc] at ht
      exact ht

theorem Reaches.history {M : Machine S L} {P : List L → S → Prop} (hinit : P [] M.init)
    (hstep : ∀ ls s l s', P ls s → M.step s l = some s' → P (ls ++ [l]) s')
    {labels : List L} {s : S} (h : M.Reaches labels s) : P labels s :=
  M.runFrom_history hstep hinit h

theorem Reaches.invariant {M : Machine S L} {P : S → Prop} (hinit : P M.init)
    (hstep : ∀ s l s', P s → M.step s l = some s' → P s')
    {labels : List L} {s : S} (h : M.Reaches labels s) : P s :=
  Reaches.history (P := fun _ => P) hinit (fun _ => hstep) h

/-- When every step is matched by a run of another machine, every run is. -/
theorem Reaches.simulated {T K : Type} {M : Machine S L} {N : Machine T K} {R : S → T → Prop}
    (hinit : R M.init N.init)
    (hstep : ∀ s l s' t, R s t → M.step s l = some s' →
      ∃ ks t', N.runFrom t ks = some t' ∧ R s' t')
    {labels : List L} {s : S} (h : M.Reaches labels s) : ∃ ks t, N.Reaches ks t ∧ R s t := by
  refine h.invariant (P := fun s => ∃ ks t, N.Reaches ks t ∧ R s t) ⟨[], N.init, rfl, hinit⟩ ?_
  rintro s l s' ⟨ks, t, hreaches, hrel⟩ hs
  obtain ⟨ks', t', hrun, hrel'⟩ := hstep s l s' t hrel hs
  exact ⟨ks ++ ks', t', N.runFrom_trans hreaches hrun, hrel'⟩

/-- The steps of another machine that match a run, event by event. -/
def matching {K : Type} (steps : S → L → List K) : S → List L → List K
  | _, [] => []
  | s, l :: ls => steps s l ++ (M.step s l).elim [] fun s' => matching steps s' ls

/-- When every step can be translated, every run can. -/
theorem Reaches.translated {T K : Type} {M : Machine S L} {N : Machine T K} {state : S → T}
    {label : L → K} (hinit : N.init = state M.init)
    (hstep : ∀ s l s', M.step s l = some s' → N.step (state s) (label l) = some (state s'))
    {labels : List L} {s : S} (h : M.Reaches labels s) : N.Reaches (labels.map label) (state s) := by
  refine h.history (P := fun labels s => N.Reaches (labels.map label) (state s)) ?_ ?_
  · exact congrArg some hinit
  rintro labels s l s' hreaches hs
  rw [List.map_append]
  exact hreaches.snoc (hstep s l s' hs)

end Machine

end Transition
