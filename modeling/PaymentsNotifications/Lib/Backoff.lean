import Mathlib.Algebra.BigOperators.Intervals

/-! Attempts with pauses after them, under a deadline: one attempt after the other until
one succeeds, and something else when none does. `plan` follows the attempts one by
one; the results below say in closed form what it comes to. -/

/-- Attempts, counted from zero: which fail, how long each takes, and the pause after it. -/
structure Backoff where
  failed : Nat → Bool
  took : Nat → Nat
  pause : Nat → Nat

namespace Backoff
variable (b : Backoff)

/-- When an attempt begins, if it does: after the attempts before it and their pauses. -/
def start (k : Nat) : Nat := ∑ j ∈ Finset.range k, (b.took j + b.pause j)

/-- The attempts before this one all failed. -/
def AllFailed (k : Nat) : Prop := ∀ j < k, b.failed j = true

/-- This attempt is the first to succeed. -/
def FirstSuccess (k : Nat) : Prop := b.AllFailed k ∧ b.failed k = false

theorem start_succ (k : Nat) : b.start (k + 1) = b.start k + b.took k + b.pause k := by
  rw [start, Finset.sum_range_succ, ← start, Nat.add_assoc]

/-- An attempt is over before the next begins. -/
theorem start_add_took_le (k : Nat) : b.start k + b.took k ≤ b.start (k + 1) := by
  rw [start_succ]
  omega

theorem start_mono {k l : Nat} (h : k ≤ l) : b.start k ≤ b.start l := by
  have hmono : Monotone b.start := monotone_nat_of_le_succ fun k =>
    Nat.le_trans (Nat.le_add_right _ _) (b.start_add_took_le k)
  exact hmono h

/-! ## Attempt by attempt -/

/-- When the attempts begin, when they are given up, and when all is over. -/
structure Plan where
  starts : List Nat
  givesUp : Option Nat
  done : Option Nat

/-- The rest of the plan, after `k` attempts with `m` of them left. -/
def plan (deadline : Nat) : Nat → Nat → Plan
  | k, 0 => ⟨[], some (b.start k), some (b.start k)⟩
  | k, m + 1 =>
    if b.start k + b.took k ≤ deadline then
      if b.failed k then
        if b.start (k + 1) ≤ deadline then
          let rest := plan deadline (k + 1) m
          ⟨b.start k :: rest.starts, rest.givesUp, rest.done⟩
        else ⟨[b.start k], none, none⟩
      else ⟨[b.start k], none, some (b.start k + b.took k)⟩
    else ⟨[b.start k], none, none⟩

/-- The attempts from `k` to `l` failed. -/
def FailedFrom (k l : Nat) : Prop := ∀ j, k ≤ j → j < l → b.failed j = true

variable {b}

theorem failedFrom_zero {l : Nat} : b.FailedFrom 0 l ↔ b.AllFailed l :=
  ⟨fun h j hj => h j (Nat.zero_le j) hj, fun h j _ hj => h j hj⟩

theorem FailedFrom.not_succeeded {k l : Nat} (h : b.FailedFrom k l) (hl : k < l) :
    b.failed k ≠ false := by
  rw [h k (Nat.le_refl k) hl]
  decide

theorem failedFrom_succ {k l : Nat} (hk : b.failed k = true) :
    b.FailedFrom (k + 1) l ↔ b.FailedFrom k l := by
  constructor
  · intro h j hj hjl
    rcases Nat.eq_or_lt_of_le hj with rfl | hlt
    · exact hk
    · exact h j hlt hjl
  · intro h j hj hjl
    exact h j (by omega) hjl

/-- The next steps of a plan: cut in the attempt or in the pause, over, or going on. -/
theorem plan_succ (b : Backoff) (deadline k m : Nat) :
    (deadline < b.start k + b.took k ∧ b.plan deadline k (m + 1) = ⟨[b.start k], none, none⟩) ∨
      (b.start k + b.took k ≤ deadline ∧ b.failed k = false ∧
        b.plan deadline k (m + 1) = ⟨[b.start k], none, some (b.start k + b.took k)⟩) ∨
      (b.start k + b.took k ≤ deadline ∧ b.failed k = true ∧ deadline < b.start (k + 1) ∧
        b.plan deadline k (m + 1) = ⟨[b.start k], none, none⟩) ∨
      (b.failed k = true ∧ b.start (k + 1) ≤ deadline ∧
        b.plan deadline k (m + 1) = ⟨b.start k :: (b.plan deadline (k + 1) m).starts,
          (b.plan deadline (k + 1) m).givesUp, (b.plan deadline (k + 1) m).done⟩) := by
  have hover := b.start_add_took_le k
  by_cases hin : b.start k + b.took k ≤ deadline
  · cases hfailed : b.failed k with
    | false => exact Or.inr (Or.inl ⟨hin, rfl, by simp [plan, hin, hfailed]⟩)
    | true =>
      by_cases hnext : b.start (k + 1) ≤ deadline
      · exact Or.inr (Or.inr (Or.inr ⟨rfl, hnext, by simp [plan, hin, hfailed, hnext]⟩))
      · exact Or.inr (Or.inr (Or.inl ⟨hin, rfl, by omega, by simp [plan, hin, hfailed, hnext]⟩))
  · exact Or.inl ⟨by omega, by simp [plan, hin]⟩

variable {deadline : Nat}

/-- An attempt begins when those before it failed and its time comes by the deadline. -/
theorem plan_starts {k m : Nat} (hk : b.start k ≤ deadline) {i : Nat} (hi : k ≤ i) (t : Nat) :
    (b.plan deadline k m).starts[i - k]? = some t ↔
      i < k + m ∧ b.FailedFrom k i ∧ b.start i ≤ deadline ∧ b.start i = t := by
  induction m generalizing k with
  | zero =>
    simp only [plan, List.getElem?_nil, reduceCtorEq, false_iff]
    omega
  | succ m ih =>
    rcases Nat.eq_or_lt_of_le hi with rfl | hlt
    · have hhead : (b.plan deadline k (m + 1)).starts[k - k]? = some (b.start k) := by
        rw [Nat.sub_self]
        obtain ⟨-, hp⟩ | ⟨-, -, hp⟩ | ⟨-, -, -, hp⟩ | ⟨-, -, hp⟩ := plan_succ b deadline
          k m <;> rw [hp] <;> rfl
      rw [hhead, Option.some.injEq]
      constructor
      · intro ht
        exact ⟨by omega, fun j hj hjk => by omega, hk, ht⟩
      · rintro ⟨-, -, -, ht⟩
        exact ht
    · have hindex : i - k = (i - (k + 1)) + 1 := by omega
      have hmono := b.start_mono (show k + 1 ≤ i by omega)
      have hover := b.start_add_took_le k
      rw [hindex]
      obtain ⟨hlate, hp⟩ | ⟨-, hok, hp⟩ | ⟨-, -, hlate, hp⟩ | ⟨hfailed, hnext, hp⟩ :=
        plan_succ b deadline k m
      · rw [hp]
        simp only [List.getElem?_cons_succ, List.getElem?_nil, reduceCtorEq, false_iff]
        omega
      · rw [hp]
        simp only [List.getElem?_cons_succ, List.getElem?_nil, reduceCtorEq, false_iff]
        rintro ⟨-, hall, -⟩
        exact absurd hok (hall.not_succeeded hlt)
      · rw [hp]
        simp only [List.getElem?_cons_succ, List.getElem?_nil, reduceCtorEq, false_iff]
        omega
      · rw [hp, List.getElem?_cons_succ, ih hnext hlt, failedFrom_succ hfailed]
        constructor
        · rintro ⟨hcount, hrest⟩
          exact ⟨by omega, hrest⟩
        · rintro ⟨hcount, hrest⟩
          exact ⟨by omega, hrest⟩

/-- The attempts are given up when all failed and the last pause is over in time. -/
theorem plan_givesUp {k m : Nat} (hk : b.start k ≤ deadline) (t : Nat) :
    (b.plan deadline k m).givesUp = some t ↔
      b.FailedFrom k (k + m) ∧ b.start (k + m) ≤ deadline ∧ b.start (k + m) = t := by
  induction m generalizing k with
  | zero =>
    simp only [plan, Option.some.injEq, Nat.add_zero]
    constructor
    · intro ht
      exact ⟨fun j hj hjk => by omega, hk, ht⟩
    · rintro ⟨-, -, ht⟩
      exact ht
  | succ m ih =>
    have hcount : k < k + (m + 1) := by omega
    have hsum : k + (m + 1) = k + 1 + m := by omega
    have hmono := b.start_mono (show k + 1 ≤ k + (m + 1) by omega)
    have hover := b.start_add_took_le k
    obtain ⟨hlate, hp⟩ | ⟨-, hok, hp⟩ | ⟨-, -, hlate, hp⟩ | ⟨hfailed, hnext, hp⟩ :=
      plan_succ b deadline k m
    · rw [hp]
      simp only [reduceCtorEq, false_iff]
      omega
    · rw [hp]
      simp only [reduceCtorEq, false_iff]
      rintro ⟨hall, -⟩
      exact absurd hok (hall.not_succeeded hcount)
    · rw [hp]
      simp only [reduceCtorEq, false_iff]
      omega
    · rw [hp, hsum]
      simp only [ih hnext, failedFrom_succ hfailed]

/-- All is over with the first success in time, or when the attempts are given up. -/
theorem plan_done {k m : Nat} (hk : b.start k ≤ deadline) (t : Nat) :
    (b.plan deadline k m).done = some t ↔
      (∃ i, k ≤ i ∧ i < k + m ∧ b.FailedFrom k i ∧ b.failed i = false ∧
        b.start i + b.took i ≤ deadline ∧ b.start i + b.took i = t) ∨
      (b.FailedFrom k (k + m) ∧ b.start (k + m) ≤ deadline ∧ b.start (k + m) = t) := by
  induction m generalizing k with
  | zero =>
    simp only [plan, Option.some.injEq, Nat.add_zero]
    constructor
    · intro ht
      exact Or.inr ⟨fun j hj hjk => by omega, hk, ht⟩
    · rintro (⟨i, hi, hik, -⟩ | ⟨-, -, ht⟩)
      · omega
      · exact ht
  | succ m ih =>
    have hcount : k < k + (m + 1) := by omega
    have hsum : k + (m + 1) = k + 1 + m := by omega
    have hmono : ∀ i, k < i → b.start (k + 1) ≤ b.start i := fun i hi => b.start_mono hi
    have hend := hmono (k + (m + 1)) hcount
    have hover := b.start_add_took_le k
    obtain ⟨hlate, hp⟩ | ⟨hin, hok, hp⟩ | ⟨-, hfailed, hlate, hp⟩ | ⟨hfailed, hnext, hp⟩ :=
      plan_succ b deadline k m
    · rw [hp]
      simp only [reduceCtorEq, false_iff]
      rintro (⟨i, hi, -, -, -, hle, -⟩ | ⟨-, hle, -⟩)
      · rcases Nat.eq_or_lt_of_le hi with rfl | hlt
        · omega
        · have hlater := hmono i hlt
          omega
      · omega
    · rw [hp, Option.some.injEq]
      constructor
      · intro ht
        exact Or.inl ⟨k, Nat.le_refl k, hcount, fun j hj hjk => by omega, hok, hin, ht⟩
      · rintro (⟨i, hi, -, hall, -, -, ht⟩ | ⟨hall, -⟩)
        · rcases Nat.eq_or_lt_of_le hi with rfl | hlt
          · exact ht
          · exact absurd hok (hall.not_succeeded hlt)
        · exact absurd hok (hall.not_succeeded hcount)
    · rw [hp]
      simp only [reduceCtorEq, false_iff]
      rintro (⟨i, hi, -, -, hok, hle, -⟩ | ⟨-, hle, -⟩)
      · rcases Nat.eq_or_lt_of_le hi with rfl | hlt
        · exact Bool.noConfusion (hok.symm.trans hfailed)
        · have hlater := hmono i hlt
          omega
      · omega
    · rw [hp, hsum, ih hnext]
      simp only [failedFrom_succ hfailed]
      constructor
      · rintro (⟨i, hi, hrest⟩ | hrest)
        · exact Or.inl ⟨i, by omega, hrest⟩
        · exact Or.inr hrest
      · rintro (⟨i, hi, hik, hall, hok, hrest⟩ | hrest)
        · rcases Nat.eq_or_lt_of_le hi with rfl | hlt
          · exact Bool.noConfusion (hok.symm.trans hfailed)
          · exact Or.inl ⟨i, hlt, hik, hall, hok, hrest⟩
        · exact Or.inr hrest

/-! ## From the first attempt on -/

theorem starts_iff {m i t : Nat} :
    (b.plan deadline 0 m).starts[i]? = some t ↔
      i < m ∧ b.AllFailed i ∧ b.start i ≤ deadline ∧ b.start i = t := by
  have h := plan_starts (b := b) (k := 0) (m := m) (Nat.zero_le deadline) (Nat.zero_le i) t
  rwa [Nat.sub_zero, Nat.zero_add, failedFrom_zero] at h

theorem givesUp_iff {m t : Nat} :
    (b.plan deadline 0 m).givesUp = some t ↔
      b.AllFailed m ∧ b.start m ≤ deadline ∧ b.start m = t := by
  have h := plan_givesUp (b := b) (k := 0) (m := m) (Nat.zero_le deadline) t
  rwa [Nat.zero_add, failedFrom_zero] at h

theorem done_iff {m t : Nat} :
    (b.plan deadline 0 m).done = some t ↔
      (∃ i < m, b.FirstSuccess i ∧ b.start i + b.took i ≤ deadline ∧ b.start i + b.took i = t) ∨
      (b.AllFailed m ∧ b.start m ≤ deadline ∧ b.start m = t) := by
  have h := plan_done (b := b) (k := 0) (m := m) (Nat.zero_le deadline) t
  rw [Nat.zero_add, failedFrom_zero] at h
  rw [h]
  constructor
  · rintro (⟨i, -, hi, hall, hok, hrest⟩ | hrest)
    · exact Or.inl ⟨i, hi, ⟨failedFrom_zero.mp hall, hok⟩, hrest⟩
    · exact Or.inr hrest
  · rintro (⟨i, hi, ⟨hall, hok⟩, hrest⟩ | hrest)
    · exact Or.inl ⟨i, Nat.zero_le i, hi, failedFrom_zero.mpr hall, hok, hrest⟩
    · exact Or.inr hrest

/-- When the attempts are given up all of them were made. -/
theorem starts_length {m : Nat} (hall : b.AllFailed m) (hin : b.start m ≤ deadline) :
    (b.plan deadline 0 m).starts.length = m := by
  have hmade : ∀ i, i < m → i < (b.plan deadline 0 m).starts.length := by
    intro i hi
    have hsome : (b.plan deadline 0 m).starts[i]? = some (b.start i) :=
      starts_iff.mpr ⟨hi, fun j hj => hall j (by omega),
        Nat.le_trans (b.start_mono (Nat.le_of_lt hi)) hin, rfl⟩
    exact (List.getElem?_eq_some_iff.mp hsome).1
  have hnone : (b.plan deadline 0 m).starts[m]? = none := by
    cases h : (b.plan deadline 0 m).starts[m]? with
    | none => rfl
    | some t => exact absurd (starts_iff.mp h).1 (Nat.lt_irrefl m)
  have hle := List.getElem?_eq_none_iff.mp hnone
  cases m with
  | zero => omega
  | succ m =>
    have hlast := hmade m (Nat.lt_succ_self m)
    omega

end Backoff
