import PaymentsNotifications.Lib.Checked
import Mathlib.Algebra.BigOperators.Fin
import Mathlib.Data.Nat.Digits.Defs

/-! Monetary amounts (`models/amount.rs`) and their Postgres representation.
An amount is a `u128`; Postgres keeps it as base-10000 digits, most significant
first, without trailing zero digits, and a weight that restores them. The
decoder here is followed through both build modes: it runs a checked digit loop
and then one unchecked power, and `decodesExactly_iff` says for which numerics
the two phases together give the number that is stored. -/

namespace PaymentsNotifications.Models
open Checked

abbrev U128 := BitVec 128

structure Amount where
  val : U128
  deriving DecidableEq, Repr

def Amount.checkedAdd (self other : Amount) : Option Amount :=
  (checked 128 (self.val.toNat + other.val.toNat)).map Amount.mk

def Amount.checkedSub (self other : Amount) : Option Amount :=
  if other.val.toNat ≤ self.val.toNat then some ⟨self.val - other.val⟩ else none

/-- `diesel::pg::data_types::PgNumeric`. -/
inductive PgNumeric where
  | positive (weight : Int16) (scale : UInt16) (digits : List Int16)
  | negative (weight : Int16) (scale : UInt16) (digits : List Int16)
  | nan
  deriving DecidableEq, Repr

inductive Reason where
  | negative
  | nan
  | nonzeroScale
  | negativeWeight
  | digitsPhase
  | negativeCorrection
  | correctionPhase
  deriving DecidableEq, Repr

def Reason.text : Reason → String
  | .negative => "Negative is not supported in u128: "
  | .nan => "NaN is not supported in u128: "
  | .nonzeroScale => "Nonzero scale is not supported in u128: "
  | .negativeWeight => "Negative weight is not supported in u128: "
  | .digitsPhase => "Overflow in Pgnumeric to u128 (digits phase): "
  | .negativeCorrection => "Negative correction exp is not supported in u128: "
  | .correctionPhase => "Overflow in Pgnumeric to u128 (correction phase): "

/-- Every decoding error prints its reason and the numeric it was given. -/
structure DecodeError where
  reason : Reason
  numeric : PgNumeric
  deriving DecidableEq, Repr

/-- `*digit as u128`: a negative digit is sign-extended. -/
def castU128 (digit : Int16) : U128 := BitVec.ofInt 128 digit.toInt

def pushDigit (result : U128) (digit : Int16) : Option U128 :=
  (checked 128 (result.toNat * 10000)).bind fun res =>
    checked 128 (res.toNat + (castU128 digit).toNat)

/-- The loop over the digits; `none` is the overflow of the digits phase. -/
def digitsLoop (result : U128) : List Int16 → Option U128
  | [] => some result
  | digit :: digits => (pushDigit result digit).bind fun res => digitsLoop res digits

/-- `4 * ((i32::from(weight)) - (digits.len() as i32) + 1)`. -/
def correctionExp (build : Build) (weight : Int16) (len : Nat) : Outcome Int := do
  let difference ← signed build 32 (weight.toInt - castSigned 32 len)
  let sum ← signed build 32 (difference + 1)
  signed build 32 (4 * sum)

/-- The second half of `pg_decimal_to_u128`: put back the places without a digit. -/
def correctionPhase (build : Build) (weight : Int16) (len : Nat) (result : U128) :
    Outcome (Except Reason U128) := do
  let exp ← correctionExp build weight len
  if exp < 0 then pure (.error .negativeCorrection)
  else
    let pow ← unsigned build 128 (10 ^ exp.toNat)
    match checked 128 (result.toNat * pow.toNat) with
    | none => pure (.error .correctionPhase)
    | some res => pure (.ok res)

def pgDecimalToU128 (build : Build) (numeric : PgNumeric) :
    Outcome (Except DecodeError U128) :=
  let fail (reason : Reason) : Outcome (Except DecodeError U128) :=
    pure (.error ⟨reason, numeric⟩)
  match numeric with
  | .negative _ _ _ => fail .negative
  | .nan => fail .nan
  | .positive weight scale digits =>
    if scale ≠ 0 then fail .nonzeroScale
    else if weight.toInt < 0 then fail .negativeWeight
    else
      match digitsLoop 0 digits with
      | none => fail .digitsPhase
      | some result => do
        match ← correctionPhase build weight digits.length result with
        | .error reason => fail reason
        | .ok res => pure (.ok res)

/-- Reading a stored amount. `fromSql` is diesel's own decoding of the wire
bytes into a numeric. -/
def Amount.fromSql {ε : Type} (build : Build)
    (fromSql : Option (List UInt8) → Except ε PgNumeric) (numeric : Option (List UInt8)) :
    Outcome (Except (ε ⊕ DecodeError) Amount) :=
  match fromSql numeric with
  | .error e => pure (.error (.inl e))
  | .ok n => do
    match ← pgDecimalToU128 build n with
    | .error e => pure (.error (.inr e))
    | .ok v => pure (.ok ⟨v⟩)

/-! ## The number a numeric stands for -/

def digitVal (digit : Int16) : Nat := digit.toInt.toNat

/-- The digits are base-10000 digits. -/
def ValidDigits (digits : List Int16) : Prop :=
  ∀ digit ∈ digits, 0 ≤ digit.toInt ∧ digit.toInt ≤ 9999

instance (digits : List Int16) : Decidable (ValidDigits digits) :=
  List.decidableBAll (fun digit : Int16 => 0 ≤ digit.toInt ∧ digit.toInt ≤ 9999) digits

/-- `sum of d_i * 10000^(w - i)`. -/
def numericValue (w : Nat) (digits : List Int16) : Nat :=
  ∑ i : Fin digits.length, digitVal digits[i] * 10000 ^ (w - i)

/-- The digits read as one base-10000 number, without the weight. -/
def digitsNumber (digits : List Int16) : Nat :=
  Nat.ofDigits 10000 (digits.map digitVal).reverse

@[simp] theorem digitsNumber_nil : digitsNumber [] = 0 := rfl

theorem digitsNumber_cons (digit : Int16) (digits : List Int16) :
    digitsNumber (digit :: digits) =
      digitVal digit * 10000 ^ digits.length + digitsNumber digits := by
  have h := @Nat.ofDigits_reverse_cons 10000 (digits.map digitVal) (digitVal digit)
  rw [List.length_map] at h
  rw [digitsNumber, List.map_cons, h, digitsNumber, Nat.mul_comm, Nat.add_comm]

/-- The weight shifts the digits by the places that carry no digit. -/
theorem numericValue_eq (w : Nat) (digits : List Int16) (h : digits.length ≤ w + 1) :
    numericValue w digits = digitsNumber digits * 10000 ^ (w + 1 - digits.length) := by
  induction digits generalizing w with
  | nil => simp [numericValue]
  | cons digit digits ih =>
    simp only [List.length_cons] at h
    have hs : numericValue w (digit :: digits) =
        digitVal digit * 10000 ^ w + numericValue (w - 1) digits := by
      simp only [numericValue, List.length_cons, Fin.sum_univ_succ]
      congr 1
      apply Finset.sum_congr rfl
      intro i _
      have hi : w - 1 - (i : Nat) = w - (i + 1) := by omega
      simp [hi]
    have hw : w = digits.length + (w - digits.length) := by omega
    rw [hs, digitsNumber_cons, Nat.add_mul, Nat.mul_assoc, ← Nat.pow_add]
    cases digits with
    | nil => simp [numericValue]
    | cons d ds =>
      simp only [List.length_cons] at h ih hw ⊢
      rw [ih (w - 1) (by omega)]
      congr 3 <;> omega

/-! ## The digits phase -/

theorem castU128_toNat (digit : Int16) (h : 0 ≤ digit.toInt) :
    (castU128 digit).toNat = digitVal digit := by
  have hlt : digit.toInt < ((2 ^ 128 : Nat) : Int) := digit.toInt_lt.trans (by norm_num)
  rw [castU128, BitVec.toNat_ofInt, Int.emod_eq_of_lt h hlt, digitVal]

theorem pushDigit_eq (result : U128) (digit : Int16) (h : 0 ≤ digit.toInt) :
    pushDigit result digit = checked 128 (result.toNat * 10000 + digitVal digit) := by
  by_cases hm : result.toNat * 10000 < 2 ^ 128
  · rw [pushDigit, checked_lt hm, Option.bind_some, BitVec.toNat_ofNat, Nat.mod_eq_of_lt hm,
      castU128_toNat digit h]
  · rw [pushDigit, checked_ge hm, Option.bind_none, checked_ge (by lia)]

/-- The loop reports an overflow exactly when the digits do not fit a `u128`:
the running result never shrinks. -/
theorem digitsLoop_eq (result : U128) (digits : List Int16) (h : ValidDigits digits) :
    digitsLoop result digits =
      checked 128 (result.toNat * 10000 ^ digits.length + digitsNumber digits) := by
  induction digits generalizing result with
  | nil => simp [digitsLoop, checked_lt result.isLt]
  | cons digit digits ih =>
    have hd := h digit (List.mem_cons_self ..)
    have ht : ValidDigits digits := fun d hm => h d (List.mem_cons_of_mem _ hm)
    have hs : result.toNat * 10000 ^ (digits.length + 1) + digitsNumber (digit :: digits) =
        (result.toNat * 10000 + digitVal digit) * 10000 ^ digits.length +
          digitsNumber digits := by
      rw [digitsNumber_cons, Nat.add_mul, Nat.pow_succ]
      ring
    rw [digitsLoop, pushDigit_eq result digit hd.1, List.length_cons, hs]
    by_cases hm : result.toNat * 10000 + digitVal digit < 2 ^ 128
    · rw [checked_lt hm, Option.bind_some, ih _ ht, BitVec.toNat_ofNat, Nat.mod_eq_of_lt hm]
    · have hp : 1 ≤ 10000 ^ digits.length := Nat.one_le_pow _ _ (by omega)
      have hle := Nat.le_mul_of_pos_right (result.toNat * 10000 + digitVal digit) hp
      rw [checked_ge hm, Option.bind_none, checked_ge (by lia)]

theorem digitsLoop_zero (digits : List Int16) (h : ValidDigits digits) :
    digitsLoop 0 digits = checked 128 (digitsNumber digits) := by
  simpa using digitsLoop_eq 0 digits h

/-! ## The correction phase -/

/-- Places without a digit, in the code's own 32-bit view of the digit count. -/
def correctionGap (weight : Int16) (len : Nat) : Int := weight.toInt + 1 - castSigned 32 len

theorem castSigned_len {len : Nat} (h : len < 2 ^ 31) : castSigned 32 len = len :=
  castSigned_fits (by decide) ⟨by omega, by omega⟩

theorem correctionExp_value (build : Build) (weight : Int16) (len : Nat)
    (hl : -2 ^ 29 ≤ correctionGap weight len) (hu : correctionGap weight len < 2 ^ 29) :
    correctionExp build weight len = .value (4 * correctionGap weight len) := by
  unfold correctionGap at *
  have hd : Fits 32 (weight.toInt - castSigned 32 len) := by unfold Fits; omega
  have hs : Fits 32 (weight.toInt - castSigned 32 len + 1) := by unfold Fits; omega
  have hc : Fits 32 (4 * (weight.toInt - castSigned 32 len + 1)) := by unfold Fits; omega
  have he : weight.toInt - castSigned 32 len + 1 = weight.toInt + 1 - castSigned 32 len := by
    omega
  rw [correctionExp, signed_fits hd, value_bind, signed_fits hs, value_bind, signed_fits hc, he]

theorem correctionExp_panics (weight : Int16) (len : Nat)
    (h : ¬ (-2 ^ 29 ≤ correctionGap weight len ∧ correctionGap weight len < 2 ^ 29)) :
    correctionExp .debug weight len = .panicked := by
  unfold correctionGap at h
  unfold correctionExp
  by_cases hd : Fits 32 (weight.toInt - castSigned 32 len)
  · rw [signed_fits hd, value_bind]
    by_cases hs : Fits 32 (weight.toInt - castSigned 32 len + 1)
    · have hc : ¬ Fits 32 (4 * (weight.toInt - castSigned 32 len + 1)) := by
        unfold Fits; omega
      rw [signed_fits hs, value_bind, signed_debug hc]
    · rw [signed_debug hs, panicked_bind]
  · rw [signed_debug hd, panicked_bind]

theorem ten_pow_gap_lt {exp : Int} (h0 : 0 ≤ exp) (h : exp ≤ 36) : 10 ^ exp.toNat < 2 ^ 128 :=
  calc 10 ^ exp.toNat ≤ 10 ^ 36 := Nat.pow_le_pow_right (by decide) (by omega)
    _ < 2 ^ 128 := by decide

theorem ten_pow_gap_ge {exp : Int} (h : 40 ≤ exp) : ¬ 10 ^ exp.toNat < 2 ^ 128 := by
  have hle : 10 ^ 40 ≤ 10 ^ exp.toNat := Nat.pow_le_pow_right (by decide) (by omega)
  have hlt : 2 ^ 128 < 10 ^ 40 := by decide
  exact fun hc => absurd (hlt.trans_le hle) (Nat.lt_asymm hc)

theorem ten_pow_four_mul {gap : Int} (h : 0 ≤ gap) :
    10 ^ (4 * gap).toNat = 10000 ^ gap.toNat := by
  have he : (4 * gap).toNat = 4 * gap.toNat := by omega
  rw [he, Nat.pow_mul]

/-- Up to nine places the power fits, and the product is checked. -/
theorem correctionPhase_small (build : Build) (weight : Int16) (len : Nat) (result : U128)
    (h0 : 0 ≤ correctionGap weight len) (h9 : correctionGap weight len ≤ 9) :
    correctionPhase build weight len result =
      match checked 128 (result.toNat * 10000 ^ (correctionGap weight len).toNat) with
      | none => .value (.error .correctionPhase)
      | some res => .value (.ok res) := by
  have hp := @ten_pow_gap_lt (4 * correctionGap weight len) (by omega) (by omega)
  have hn : ¬ 4 * correctionGap weight len < 0 := by omega
  rw [correctionPhase, correctionExp_value build weight len (by omega) (by omega), value_bind,
    if_neg hn, unsigned_lt hp, value_bind, BitVec.toNat_ofNat, Nat.mod_eq_of_lt hp,
    ten_pow_four_mul h0]
  rfl

theorem correctionPhase_negative (build : Build) (weight : Int16) (len : Nat) (result : U128)
    (hl : -2 ^ 29 ≤ correctionGap weight len) (hu : correctionGap weight len < 0) :
    correctionPhase build weight len result = .value (.error .negativeCorrection) := by
  have hn : 4 * correctionGap weight len < 0 := by omega
  rw [correctionPhase, correctionExp_value build weight len hl (by omega), value_bind, if_pos hn]
  rfl

/-- In a debug build every other gap panics: the exponent or the power overflows. -/
theorem correctionPhase_panics (weight : Int16) (len : Nat) (result : U128)
    (h : ¬ (-2 ^ 29 ≤ correctionGap weight len ∧ correctionGap weight len ≤ 9)) :
    correctionPhase .debug weight len result = .panicked := by
  by_cases hg : -2 ^ 29 ≤ correctionGap weight len ∧ correctionGap weight len < 2 ^ 29
  · have hn : ¬ 4 * correctionGap weight len < 0 := by omega
    have hp := @ten_pow_gap_ge (4 * correctionGap weight len) (by omega)
    rw [correctionPhase, correctionExp_value .debug weight len hg.1 hg.2, value_bind, if_neg hn,
      unsigned_debug hp, panicked_bind]
  · rw [correctionPhase, correctionExp_panics weight len hg, panicked_bind]

/-! ## When decoding is exact -/

def PgNumeric.DigitsValid : PgNumeric → Prop
  | .positive _ _ digits => ValidDigits digits
  | .negative _ _ _ => True
  | .nan => True

/-- `numeric` is a number a `u128` could stand for: nonnegative, without a
fraction, and no digit beyond the weight. -/
def Whole (weight : Int16) (scale : UInt16) (digits : List Int16) : Prop :=
  scale = 0 ∧ 0 ≤ weight.toInt ∧ (digits.length : Int) ≤ weight.toInt + 1

instance (weight : Int16) (scale : UInt16) (digits : List Int16) :
    Decidable (Whole weight scale digits) := by unfold Whole; infer_instance

def IsErr (o : Outcome (Except DecodeError U128)) : Prop := ∃ e, o = .value (.error e)

def IsOk (o : Outcome (Except DecodeError U128)) (n : Nat) : Prop :=
  ∃ v : U128, o = .value (.ok v) ∧ v.toNat = n

/-- The stored number when it fits, an error otherwise; never a panic and never
another number. -/
def DecodesExactly (numeric : PgNumeric) (o : Outcome (Except DecodeError U128)) : Prop :=
  match numeric with
  | .positive weight scale digits =>
    if Whole weight scale digits then
      if numericValue weight.toInt.toNat digits < 2 ^ 128 then
        IsOk o (numericValue weight.toInt.toNat digits)
      else IsErr o
    else IsErr o
  | .negative _ _ _ => IsErr o
  | .nan => IsErr o

/-- The unchecked power is safe: the digits alone overflow before it, or the
exponent is negative without leaving `i32`, or it puts back at most nine places.
The last clause is about digit counts that `as i32` folds back into range. -/
def PowerSafe (weight : Int16) (digits : List Int16) : Prop :=
  let gap := correctionGap weight digits.length
  2 ^ 128 ≤ digitsNumber digits ∨
    (-2 ^ 29 ≤ gap ∧ gap < 0) ∨
    (0 ≤ gap ∧ gap ≤ 9 ∧
      ((digits.length : Int) ≤ weight.toInt + 1 ∨
        2 ^ 128 ≤ digitsNumber digits * 10000 ^ gap.toNat))

def DecodeSafe : PgNumeric → Prop
  | .positive weight scale digits =>
    scale = 0 → 0 ≤ weight.toInt → PowerSafe weight digits
  | .negative _ _ _ => True
  | .nan => True

/-- After the scale and weight checks only the two phases are left. -/
theorem pgDecimalToU128_phases (build : Build) (weight : Int16) (digits : List Int16)
    (hw : 0 ≤ weight.toInt) (hd : ValidDigits digits) :
    pgDecimalToU128 build (.positive weight 0 digits) =
      match checked 128 (digitsNumber digits) with
      | none => .value (.error ⟨.digitsPhase, .positive weight 0 digits⟩)
      | some result => (correctionPhase build weight digits.length result).bind fun r =>
          match r with
          | .error reason => .value (.error ⟨reason, .positive weight 0 digits⟩)
          | .ok res => .value (.ok res) := by
  have hn : ¬ weight.toInt < 0 := by omega
  simp only [pgDecimalToU128, ne_eq, not_true_eq_false, if_false, hn, digitsLoop_zero digits hd]
  rfl

theorem whole_gap {weight : Int16} {scale : UInt16} {digits : List Int16}
    (h : Whole weight scale digits) :
    correctionGap weight digits.length = weight.toInt + 1 - digits.length := by
  have hlt := weight.toInt_lt
  obtain ⟨-, -, hlen⟩ := h
  rw [correctionGap, castSigned_len (by omega)]

theorem whole_value {weight : Int16} {scale : UInt16} {digits : List Int16}
    (h : Whole weight scale digits) :
    numericValue weight.toInt.toNat digits =
      digitsNumber digits * 10000 ^ (correctionGap weight digits.length).toNat := by
  rw [whole_gap h]
  obtain ⟨-, hw, hlen⟩ := h
  rw [numericValue_eq _ _ (by omega)]
  congr 2
  omega

theorem decodesExactly_of_powerSafe (build : Build) (weight : Int16) (digits : List Int16)
    (hw : 0 ≤ weight.toInt) (hd : ValidDigits digits) (hs : PowerSafe weight digits) :
    DecodesExactly (.positive weight 0 digits)
      (pgDecimalToU128 build (.positive weight 0 digits)) := by
  rw [pgDecimalToU128_phases build weight digits hw hd]
  by_cases hR : digitsNumber digits < 2 ^ 128
  · rcases hs with hbig | ⟨hl, hu⟩ | ⟨h0, h9, hfit⟩
    · exact absurd hR (Nat.not_lt.mpr hbig)
    · have hnot : ¬ Whole weight 0 digits := by
        intro hW
        rw [whole_gap hW] at hu
        have hlen := hW.2.2
        omega
      rw [checked_lt hR]
      simp only [correctionPhase_negative build weight digits.length _ hl hu, DecodesExactly,
        if_neg hnot]
      exact ⟨_, rfl⟩
    · rw [checked_lt hR]
      simp only [correctionPhase_small build weight digits.length _ h0 h9, BitVec.toNat_ofNat,
        Nat.mod_eq_of_lt hR]
      by_cases hW : Whole weight 0 digits
      · simp only [DecodesExactly, if_pos hW, whole_value hW]
        by_cases hV : digitsNumber digits * 10000 ^ (correctionGap weight digits.length).toNat
            < 2 ^ 128
        · rw [if_pos hV, checked_lt hV]
          exact ⟨_, rfl, Nat.mod_eq_of_lt hV⟩
        · rw [if_neg hV, checked_ge hV]
          exact ⟨_, rfl⟩
      · have hV : ¬ digitsNumber digits * 10000 ^ (correctionGap weight digits.length).toNat
            < 2 ^ 128 := by
          rcases hfit with hlen | hbig
          · exact absurd ⟨rfl, hw, hlen⟩ hW
          · exact Nat.not_lt.mpr hbig
        simp only [DecodesExactly, if_neg hW, checked_ge hV]
        exact ⟨_, rfl⟩
  · rw [checked_ge hR]
    by_cases hW : Whole weight 0 digits
    · have hp : 1 ≤ 10000 ^ (correctionGap weight digits.length).toNat :=
        Nat.one_le_pow _ _ (by decide)
      have hV : ¬ digitsNumber digits * 10000 ^ (correctionGap weight digits.length).toNat
          < 2 ^ 128 := fun h => hR ((Nat.le_mul_of_pos_right _ hp).trans_lt h)
      simp only [DecodesExactly, if_pos hW, whole_value hW, if_neg hV]
      exact ⟨_, rfl⟩
    · simp only [DecodesExactly, if_neg hW]
      exact ⟨_, rfl⟩

/-- Outside the safe numerics a debug build panics or the number comes back wrong. -/
theorem powerSafe_of_decodesExactly (weight : Int16) (digits : List Int16)
    (hw : 0 ≤ weight.toInt) (hd : ValidDigits digits)
    (h : DecodesExactly (.positive weight 0 digits)
      (pgDecimalToU128 .debug (.positive weight 0 digits))) :
    PowerSafe weight digits := by
  rw [pgDecimalToU128_phases .debug weight digits hw hd] at h
  by_cases hR : digitsNumber digits < 2 ^ 128
  · rw [checked_lt hR] at h
    by_cases hg : -2 ^ 29 ≤ correctionGap weight digits.length ∧
        correctionGap weight digits.length ≤ 9
    · by_cases h0 : 0 ≤ correctionGap weight digits.length
      · refine Or.inr (Or.inr ⟨h0, hg.2, ?_⟩)
        by_contra hno
        obtain ⟨hlen, hV⟩ := not_or.mp hno
        have hW : ¬ Whole weight 0 digits := fun hW => hlen hW.2.2
        simp only [correctionPhase_small .debug weight digits.length _ h0 hg.2,
          BitVec.toNat_ofNat, Nat.mod_eq_of_lt hR, checked_lt (Nat.not_le.mp hV),
          DecodesExactly, if_neg hW] at h
        obtain ⟨e, he⟩ := h
        cases he
      · exact Or.inr (Or.inl ⟨hg.1, by omega⟩)
    · simp only [correctionPhase_panics weight digits.length _ hg] at h
      have hno : ∀ r, (Outcome.panicked : Outcome (Except DecodeError U128)) ≠ .value r :=
        fun r hr => nomatch hr
      simp only [DecodesExactly] at h
      split at h
      · split at h
        · obtain ⟨v, hv, -⟩ := h
          exact absurd hv (hno _)
        · obtain ⟨e, he⟩ := h
          exact absurd he (hno _)
      · obtain ⟨e, he⟩ := h
        exact absurd he (hno _)
  · exact Or.inl (Nat.not_lt.mp hR)

/-- The decoder gives back the stored number, or an error when it has none, in
every build, exactly for the numerics whose correction power is safe. -/
theorem decodesExactly_iff (numeric : PgNumeric) (hd : numeric.DigitsValid) :
    (∀ build, DecodesExactly numeric (pgDecimalToU128 build numeric)) ↔ DecodeSafe numeric := by
  cases numeric with
  | nan => exact ⟨fun _ => trivial, fun _ _ => ⟨_, rfl⟩⟩
  | negative weight scale digits => exact ⟨fun _ => trivial, fun _ _ => ⟨_, rfl⟩⟩
  | positive weight scale digits =>
    by_cases hs : scale = 0
    · subst hs
      by_cases hw : 0 ≤ weight.toInt
      · constructor
        · intro h _ _
          exact powerSafe_of_decodesExactly weight digits hw hd (h .debug)
        · intro h build
          exact decodesExactly_of_powerSafe build weight digits hw hd (h rfl hw)
      · have hneg : weight.toInt < 0 := by omega
        have hW : ¬ Whole weight 0 digits := fun hW => hw hW.2.1
        refine ⟨fun _ _ h => absurd h hw, fun _ build => ?_⟩
        simp only [pgDecimalToU128, ne_eq, not_true_eq_false, if_false, hneg, if_true,
          DecodesExactly, if_neg hW]
        exact ⟨_, rfl⟩
    · have hW : ¬ Whole weight scale digits := fun hW => hs hW.1
      refine ⟨fun _ h => absurd h hs, fun _ build => ?_⟩
      simp only [pgDecimalToU128, ne_eq, hs, not_false_eq_true, if_true, DecodesExactly,
        if_neg hW]
      exact ⟨_, rfl⟩

/-- `test_pg_numeric_happy_conversions` on the largest `u128`: weight 9, ten digits. -/
theorem decodesExactly_max :
    PgNumeric.DigitsValid
        (.positive 9 0 [340, 2823, 6692, 938, 4634, 6337, 4607, 4317, 6821, 1455]) ∧
      ((∀ build, DecodesExactly
          (.positive 9 0 [340, 2823, 6692, 938, 4634, 6337, 4607, 4317, 6821, 1455])
          (pgDecimalToU128 build
            (.positive 9 0 [340, 2823, 6692, 938, 4634, 6337, 4607, 4317, 6821, 1455]))) ↔
        DecodeSafe (.positive 9 0 [340, 2823, 6692, 938, 4634, 6337, 4607, 4317, 6821, 1455])) := by
  have hd : PgNumeric.DigitsValid
      (.positive 9 0 [340, 2823, 6692, 938, 4634, 6337, 4607, 4317, 6821, 1455]) := by
    unfold PgNumeric.DigitsValid
    decide
  exact ⟨hd, decodesExactly_iff _ hd⟩

/-- The numeric `10000^32` is stored as one digit 1 with weight 32. Reading it
back panics in a debug build, and gives 0 in a release build. -/
theorem stored_power_read_as_zero :
    PgNumeric.DigitsValid (.positive 32 0 [1]) ∧
      pgDecimalToU128 .debug (.positive 32 0 [1]) = .panicked ∧
      pgDecimalToU128 .release (.positive 32 0 [1]) = .value (.ok 0) ∧
      ¬ ∀ build, DecodesExactly (.positive 32 0 [1]) (pgDecimalToU128 build (.positive 32 0 [1])) := by
  have hd : PgNumeric.DigitsValid (.positive 32 0 [1]) := by
    unfold PgNumeric.DigitsValid
    decide
  refine ⟨hd, by decide, by decide, fun h => ?_⟩
  have hp : pgDecimalToU128 .release (.positive 32 0 [1]) = .value (.ok 0) := by decide
  have hr := h .release
  rw [hp] at hr
  have hW : Whole 32 0 [1] := by decide
  have hV : ¬ numericValue (32 : Int16).toInt.toNat [1] < 2 ^ 128 := by
    rw [numericValue_eq _ _ (by decide)]
    decide
  simp only [DecodesExactly, if_pos hW, if_neg hV] at hr
  obtain ⟨e, he⟩ := hr
  cases he

end PaymentsNotifications.Models
