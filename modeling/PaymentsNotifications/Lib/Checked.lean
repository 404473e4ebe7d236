import Mathlib.Data.BitVec
import Mathlib.Tactic.Common

/-! Fixed-width integer arithmetic with the two build modes of a systems
language. A debug build panics when a result does not fit its type, a release
build wraps it, and the `checked` operations report it in an `Option`. The
operations take the exact result and say what the machine makes of it. -/

namespace Checked

inductive Build where
  | debug
  | release
  deriving DecidableEq, Repr

/-- What a computation gives back: a value, or a panic of the thread. -/
inductive Outcome (α : Type) where
  | value (a : α)
  | panicked
  deriving DecidableEq, Repr

variable {α β : Type}

def Outcome.bind (o : Outcome α) (f : α → Outcome β) : Outcome β :=
  match o with
  | .value a => f a
  | .panicked => .panicked

instance : Monad Outcome where
  pure := .value
  bind := Outcome.bind

@[simp] theorem pure_eq_value (a : α) : (pure a : Outcome α) = .value a := rfl
@[simp] theorem value_bind (a : α) (f : α → Outcome β) : (Outcome.value a >>= f) = f a := rfl
@[simp] theorem panicked_bind (f : α → Outcome β) : (Outcome.panicked >>= f) = .panicked := rfl

/-- `x` is a value of the signed type with `w` bits. -/
def Fits (w : Nat) (x : Int) : Prop := -2 ^ (w - 1) ≤ x ∧ x < 2 ^ (w - 1)

instance (w : Nat) (x : Int) : Decidable (Fits w x) := by unfold Fits; infer_instance

/-- A signed operation of width `w` with exact result `x`. -/
def signed (build : Build) (w : Nat) (x : Int) : Outcome Int :=
  if Fits w x then .value x
  else match build with
    | .debug => .panicked
    | .release => .value (x.bmod (2 ^ w))

/-- An unsigned operation of width `w` with exact result `x`. -/
def unsigned (build : Build) (w x : Nat) : Outcome (BitVec w) :=
  if x < 2 ^ w then .value (BitVec.ofNat w x)
  else match build with
    | .debug => .panicked
    | .release => .value (BitVec.ofNat w x)

/-- The `checked_` variant of an unsigned operation. -/
def checked (w x : Nat) : Option (BitVec w) :=
  if x < 2 ^ w then some (BitVec.ofNat w x) else none

/-- An `as` cast to the signed type of width `w`: keep the low bits. -/
def castSigned (w : Nat) (x : Int) : Int := x.bmod (2 ^ w)

theorem signed_fits {build : Build} {w : Nat} {x : Int} (h : Fits w x) :
    signed build w x = .value x := by
  simp [signed, h]

theorem signed_debug {w : Nat} {x : Int} (h : ¬ Fits w x) :
    signed .debug w x = .panicked := by
  simp [signed, h]

theorem unsigned_lt {build : Build} {w x : Nat} (h : x < 2 ^ w) :
    unsigned build w x = .value (BitVec.ofNat w x) := by
  simp [unsigned, h]

theorem unsigned_debug {w x : Nat} (h : ¬ x < 2 ^ w) : unsigned .debug w x = .panicked := by
  simp [unsigned, h]

theorem checked_lt {w x : Nat} (h : x < 2 ^ w) : checked w x = some (BitVec.ofNat w x) := by
  simp [checked, h]

theorem checked_ge {w x : Nat} (h : ¬ x < 2 ^ w) : checked w x = none := by
  simp [checked, h]

theorem castSigned_fits {w : Nat} {x : Int} (hw : 0 < w) (h : Fits w x) :
    castSigned w x = x := by
  obtain ⟨k, rfl⟩ : ∃ k, w = k + 1 := ⟨w - 1, by omega⟩
  obtain ⟨hl, hu⟩ := h
  have hp : ((2 ^ (k + 1) : Nat) : Int) = 2 * 2 ^ k := by push_cast; rw [pow_succ]; omega
  simp only [Nat.add_sub_cancel] at hl hu
  apply Int.bmod_eq_of_le <;> rw [hp] <;> omega

end Checked
