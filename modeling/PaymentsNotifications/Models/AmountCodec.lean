import PaymentsNotifications.Models.Amount
import Mathlib.Data.Nat.Digits.Lemmas

/-! Writing an amount as a numeric (`u128_to_pg_decimal`), and the bijection
between `u128` values and Postgres' canonical numerics. The encoder produces
little-endian base-10000 digits, drops the low zero digits and reverses; the
digits are Mathlib's `Nat.digits`, so both directions rest on `Nat.ofDigits`. -/

namespace PaymentsNotifications.Models
open Checked

/-- The iterator `ToBase10000(Option<u128>)`. -/
structure ToBase10000 where
  rest : Option U128
  deriving DecidableEq, Repr

def ToBase10000.next (self : ToBase10000) : Option (Int16 × ToBase10000) :=
  match self.rest with
  | none => none
  | some v =>
    let rem := v % 10000
    let div := v / 10000
    some (Int16.ofNat rem.toNat, ⟨if div ≠ 0 then some div else none⟩)

def ToBase10000.size (self : ToBase10000) : Nat :=
  match self.rest with
  | none => 0
  | some v => v.toNat + 1

theorem ToBase10000.size_next {self rest : ToBase10000} {digit : Int16}
    (h : self.next = some (digit, rest)) : rest.size < self.size := by
  unfold ToBase10000.next at h
  cases hr : self.rest with
  | none => simp [hr] at h
  | some v =>
    simp only [hr, Option.some.injEq, Prod.mk.injEq] at h
    obtain ⟨-, rfl⟩ := h
    by_cases hd : v / 10000 = 0
    · rw [if_neg (not_not.mpr hd)]
      simp only [ToBase10000.size, hr]
      exact Nat.succ_pos _
    · have hne : v.toNat ≠ 0 := by
        intro h0
        exact hd (BitVec.eq_of_toNat_eq (by simp [BitVec.toNat_udiv, h0]))
      have hlt : v.toNat / 10000 < v.toNat := Nat.div_lt_self (by omega) (by decide)
      rw [if_pos hd]
      simp only [ToBase10000.size, hr, BitVec.toNat_udiv]
      exact Nat.succ_lt_succ hlt

def ToBase10000.collect (self : ToBase10000) : List Int16 :=
  match _h : self.next with
  | none => []
  | some (digit, rest) => digit :: rest.collect
termination_by self.size
decreasing_by exact ToBase10000.size_next _h

def u128ToPgDecimal (build : Build) (value : U128) : Outcome PgNumeric := do
  let digits := (ToBase10000.mk (some value)).collect
  let weight ← signed build 16 (castSigned 16 digits.length - 1)
  let digits := (digits.dropWhile fun digit => digit == 0).reverse
  pure (.positive (Int16.ofInt weight) 0 digits)

/-! ## Postgres' canonical form -/

/-- Zero is written without digits; any other number starts and ends with a
nonzero digit, and its digits do not pass the weight. -/
def Canonical : PgNumeric → Prop
  | .positive weight scale digits =>
    scale = 0 ∧ ValidDigits digits ∧
      ((digits = [] ∧ weight = 0) ∨
        ((digits.length : Int) ≤ weight.toInt + 1 ∧
          ∃ first last, digits.head? = some first ∧ digits.getLast? = some last ∧
            first ≠ 0 ∧ last ≠ 0))
  | .negative _ _ _ => False
  | .nan => False

def PgNumeric.value : PgNumeric → Nat
  | .positive weight _ digits => numericValue weight.toInt.toNat digits
  | .negative _ _ _ => 0
  | .nan => 0

/-! ## Digits -/

theorem digitVal_ofNat {d : Nat} (h : d < 10000) : digitVal (Int16.ofNat d) = d := by
  rw [digitVal, Int16.toInt_ofNat_of_lt (by omega), Int.toNat_natCast]

theorem ofNat_digitVal {digit : Int16} (h : 0 ≤ digit.toInt) :
    Int16.ofNat (digitVal digit) = digit := by
  have hlt := digit.toInt_lt
  have hd : digitVal digit < 2 ^ 15 := by unfold digitVal; omega
  apply Int16.toInt.inj
  rw [Int16.toInt_ofNat_of_lt hd, digitVal, Int.toNat_of_nonneg h]

theorem collect_next {self rest : ToBase10000} {digit : Int16}
    (h : self.next = some (digit, rest)) : self.collect = digit :: rest.collect := by
  rw [ToBase10000.collect]
  split
  · rename_i hn
    rw [h] at hn
    cases hn
  · rename_i d r hn
    rw [h] at hn
    cases hn
    rfl

theorem collect_none : (ToBase10000.mk none).collect = [] := by
  rw [ToBase10000.collect]
  rfl

/-- The iterator yields `Nat.digits`, except that zero has one digit here. -/
theorem collect_eq_digits (v : U128) (hv : v.toNat ≠ 0) :
    (ToBase10000.mk (some v)).collect = (Nat.digits 10000 v.toNat).map Int16.ofNat := by
  generalize hn : v.toNat = n at hv
  induction n using Nat.strongRecOn generalizing v with
  | ind n ih =>
    subst hn
    have hnext : (ToBase10000.mk (some v)).next =
        some (Int16.ofNat (v % 10000).toNat, ⟨if v / 10000 ≠ 0 then some (v / 10000) else none⟩) :=
      rfl
    rw [collect_next hnext, Nat.digits_def' (by decide) (Nat.pos_of_ne_zero hv), List.map_cons]
    have hrem : (v % 10000).toNat = v.toNat % 10000 := BitVec.toNat_umod
    have hdiv : (v / 10000).toNat = v.toNat / 10000 := BitVec.toNat_udiv
    rw [hrem]
    congr 1
    by_cases hd : v / 10000 = 0
    · have h0 : v.toNat / 10000 = 0 := by rw [← hdiv, hd]; rfl
      rw [if_neg (not_not.mpr hd), collect_none, h0, Nat.digits_zero, List.map_nil]
    · have hne : v.toNat / 10000 ≠ 0 := by
        intro h0
        exact hd (BitVec.eq_of_toNat_eq (by rw [hdiv, h0]; rfl))
      have hlt : v.toNat / 10000 < v.toNat := Nat.div_lt_self (by omega) (by decide)
      rw [if_pos hd]
      exact ih _ hlt (v / 10000) hdiv hne

theorem collect_zero : (ToBase10000.mk (some 0)).collect = [0] := by
  have hnext : (ToBase10000.mk (some 0)).next = some (0, ⟨none⟩) := by decide
  rw [collect_next hnext, collect_none]

theorem ofNat_ne_zero {d : Nat} (h : d < 10000) (hd : d ≠ 0) : Int16.ofNat d ≠ 0 := by
  intro h0
  have hv := digitVal_ofNat h
  rw [h0] at hv
  exact hd hv.symm

theorem ofNat_beq_zero {d : Nat} (h : d < 10000) : (Int16.ofNat d == 0) = (d == 0) := by
  by_cases hd : d = 0
  · subst hd
    rfl
  · rw [beq_false_of_ne (ofNat_ne_zero h hd), beq_false_of_ne hd]

/-- `skip_while` on the digits of the machine is `dropWhile` on the numbers. -/
theorem dropWhile_ofNat (L : List Nat) (h : ∀ d ∈ L, d < 10000) :
    (L.map Int16.ofNat).dropWhile (fun digit => digit == 0) =
      (L.dropWhile fun d => d == 0).map Int16.ofNat := by
  induction L with
  | nil => rfl
  | cons d L ih =>
    have ht : ∀ x ∈ L, x < 10000 := fun x hx => h x (List.mem_cons_of_mem _ hx)
    rw [List.map_cons, List.dropWhile_cons, List.dropWhile_cons,
      ofNat_beq_zero (h d (List.mem_cons_self ..)), ih ht]
    split <;> rfl

/-- Low zero digits, then a rest that starts with a nonzero digit. -/
theorem zeros_split (L : List Nat) :
    ∃ k, L = List.replicate k 0 ++ L.dropWhile (fun d => d == 0) := by
  induction L with
  | nil => exact ⟨0, rfl⟩
  | cons d L ih =>
    by_cases hd : d = 0
    · obtain ⟨k, hk⟩ := ih
      refine ⟨k + 1, ?_⟩
      rw [hd, List.replicate_succ, List.cons_append]
      exact congrArg (0 :: ·) hk
    · exact ⟨0, by simp [hd]⟩

theorem dropWhile_replicate_append (k : Nat) {M : List Nat} {m : Nat}
    (hM : M.head? = some m) (hm : m ≠ 0) :
    (List.replicate k 0 ++ M).dropWhile (fun d => d == 0) = M := by
  induction k with
  | zero =>
    obtain ⟨t, rfl⟩ := List.head?_eq_some_iff.mp hM
    simp [hm]
  | succ k ih => simpa [List.replicate_succ, List.dropWhile_cons] using ih

/-- The encoder, for a number whose digits are `k` low zeros and then `M`. -/
theorem u128ToPgDecimal_eq (build : Build) (v : U128) (k : Nat) {M : List Nat} {m : Nat}
    (hL : Nat.digits 10000 v.toNat = List.replicate k 0 ++ M)
    (hM : M.head? = some m) (hm : m ≠ 0) :
    u128ToPgDecimal build v =
      .value (.positive (Int16.ofInt (k + M.length - 1)) 0 (M.map Int16.ofNat).reverse) := by
  have hne : M ≠ [] := by
    intro h0
    rw [h0] at hM
    cases hM
  have hv : v.toNat ≠ 0 := by
    intro h0
    rw [h0, Nat.digits_zero] at hL
    exact hne (List.append_eq_nil_iff.mp hL.symm).2
  have hlt : ∀ d ∈ Nat.digits 10000 v.toNat, d < 10000 :=
    fun d hd => Nat.digits_lt_base (by decide) hd
  have hlen : (Nat.digits 10000 v.toNat).length = k + M.length := by simp [hL]
  have hten : (Nat.digits 10000 v.toNat).length ≤ 10 :=
    (Nat.digits_length_le_iff (by decide) _).mpr (v.isLt.trans (by decide))
  have hcast : castSigned 16 ((k + M.length : Nat) : Int) = (k + M.length : Nat) :=
    castSigned_fits (by decide) ⟨by omega, by omega⟩
  have hfit : Fits 16 (((k + M.length : Nat) : Int) - 1) := by unfold Fits; omega
  simp only [u128ToPgDecimal, collect_eq_digits v hv, List.length_map, hlen, hcast,
    signed_fits hfit, value_bind, dropWhile_ofNat _ hlt]
  rw [hL, dropWhile_replicate_append k hM hm]
  simp

theorem u128ToPgDecimal_zero (build : Build) :
    u128ToPgDecimal build 0 = .value (.positive 0 0 []) := by
  have hfit : Fits 16 ((castSigned 16 1) - 1) := by decide
  simp only [u128ToPgDecimal, collect_zero, List.length_singleton]
  rw [show ((1 : Nat) : Int) = 1 from rfl, signed_fits hfit, value_bind]
  rfl

/-! ## Both directions -/

theorem canonical_gap {weight : Int16} {scale : UInt16} {digits : List Int16}
    (hc : Canonical (.positive weight scale digits))
    (hv : (PgNumeric.positive weight scale digits).value < 2 ^ 128) :
    Whole weight scale digits ∧ weight.toInt + 1 - digits.length ≤ 9 := by
  obtain ⟨hs, hd, ⟨rfl, rfl⟩ | ⟨hlen, first, last, hfirst, -, hne, -⟩⟩ := hc
  · exact ⟨⟨hs, by decide, by decide⟩, by decide⟩
  · obtain ⟨rest, rfl⟩ := List.head?_eq_some_iff.mp hfirst
    simp only [List.length_cons] at hlen
    have hw : 0 ≤ weight.toInt := by omega
    refine ⟨⟨hs, hw, by simpa using hlen⟩, ?_⟩
    simp only [List.length_cons]
    by_contra hbig
    have hpos : 1 ≤ digitVal first := by
      have h0 := (hd first (List.mem_cons_self ..)).1
      have hn : first.toInt ≠ 0 := fun h => hne (Int16.toInt.inj (by simpa using h))
      unfold digitVal
      omega
    have hten : 2 ^ 128 < 10000 ^ 10 := by decide
    have hle : 10000 ^ 10 ≤ 10000 ^ weight.toInt.toNat :=
      Nat.pow_le_pow_right (by decide) (by omega)
    have hval : 10000 ^ weight.toInt.toNat ≤
        numericValue weight.toInt.toNat (first :: rest) := by
      rw [numericValue_eq _ _ (by simp only [List.length_cons]; omega), digitsNumber_cons]
      calc 10000 ^ weight.toInt.toNat
          = 10000 ^ rest.length * 10000 ^ (weight.toInt.toNat + 1 - (rest.length + 1)) := by
            rw [← Nat.pow_add]
            congr 1
            omega
        _ ≤ _ := Nat.mul_le_mul_right _ ((Nat.le_mul_of_pos_left _ hpos).trans (Nat.le_add_right _ _))
    exact absurd (hle.trans hval) (Nat.not_le.mpr (lt_of_lt_of_le hv hten.le))

theorem decode_canonical (build : Build) {n : PgNumeric} (hc : Canonical n)
    (hv : n.value < 2 ^ 128) : IsOk (pgDecimalToU128 build n) n.value := by
  cases n with
  | negative weight scale digits => exact False.elim hc
  | nan => exact False.elim hc
  | positive weight scale digits =>
    obtain ⟨hW, hnine⟩ := canonical_gap hc hv
    have hgap := whole_gap hW
    obtain ⟨hs, hd, -⟩ := hc
    have hlen := hW.2.2
    change numericValue weight.toInt.toNat digits < 2 ^ 128 at hv
    subst hs
    have hsafe : PowerSafe weight digits :=
      Or.inr (Or.inr ⟨by omega, by omega, Or.inl hW.2.2⟩)
    have h := decodesExactly_of_powerSafe build weight digits hW.2.1 hd hsafe
    simp only [DecodesExactly, if_pos hW, if_pos hv] at h
    exact h

/-- A nonzero numeric in canonical form carries the digits of its value. -/
theorem canonical_digits {weight : Int16} {digits : List Int16} {first : Int16}
    (hd : ValidDigits digits) (hlen : (digits.length : Int) ≤ weight.toInt + 1)
    (hfirst : digits.head? = some first) (hne : first ≠ 0) :
    Nat.digits 10000 (numericValue weight.toInt.toNat digits) =
      List.replicate (weight.toInt.toNat + 1 - digits.length) 0 ++
        (digits.map digitVal).reverse := by
  obtain ⟨rest, rfl⟩ := List.head?_eq_some_iff.mp hfirst
  simp only [List.length_cons] at hlen
  have hval : numericValue weight.toInt.toNat (first :: rest) =
      Nat.ofDigits 10000 (List.replicate (weight.toInt.toNat + 1 - (first :: rest).length) 0 ++
        ((first :: rest).map digitVal).reverse) := by
    rw [numericValue_eq _ _ (by simp only [List.length_cons]; omega), Nat.ofDigits_append,
      Nat.ofDigits_replicate_zero, List.length_replicate, Nat.zero_add, Nat.mul_comm]
    rfl
  rw [hval]
  apply Nat.digits_ofDigits 10000 (by decide)
  · intro d hm
    rcases List.mem_append.mp hm with h | h
    · rw [List.eq_of_mem_replicate h]
      decide
    · obtain ⟨digit, hmem, rfl⟩ := List.mem_map.mp (List.mem_reverse.mp h)
      have hle := (hd digit hmem).2
      unfold digitVal
      omega
  · intro hnil
    have h0 := (hd first (List.mem_cons_self ..)).1
    have hn : first.toInt ≠ 0 := fun h => hne (Int16.toInt.inj (by simpa using h))
    simp only [List.map_cons, List.reverse_cons, ← List.append_assoc, List.getLast_append_singleton]
    unfold digitVal
    omega

theorem reverse_digits_ofNat {digits : List Int16} (hd : ValidDigits digits) :
    (((digits.map digitVal).reverse).map Int16.ofNat).reverse = digits := by
  rw [List.map_reverse, List.reverse_reverse, List.map_map]
  conv_rhs => rw [← List.map_id digits]
  exact List.map_congr_left fun d hm => ofNat_digitVal (hd d hm).1

/-- Encoding gives back every canonical numeric from its value. -/
theorem encode_canonical (build : Build) {n : PgNumeric} {v : U128} (hc : Canonical n)
    (hv : v.toNat = n.value) : u128ToPgDecimal build v = .value n := by
  cases n with
  | negative weight scale digits => exact False.elim hc
  | nan => exact False.elim hc
  | positive weight scale digits =>
    have hw := canonical_gap hc (hv ▸ v.isLt)
    obtain ⟨hs, hd, ⟨rfl, rfl⟩ | ⟨hlen, first, last, hfirst, hlast, hne, hne'⟩⟩ := hc
    · have h0 : v = 0 := BitVec.eq_of_toNat_eq (by rw [hv]; rfl)
      rw [h0, hs, u128ToPgDecimal_zero]
    · have hL : Nat.digits 10000 v.toNat = _ :=
        (congrArg _ hv).trans (canonical_digits hd hlen hfirst hne)
      have hhead : (digits.map digitVal).reverse.head? = some (digitVal last) := by
        rw [List.head?_reverse, List.getLast?_map, hlast]
        rfl
      have hz : digitVal last ≠ 0 := by
        intro h0
        apply hne'
        rw [← ofNat_digitVal (hd last (List.mem_of_getLast? hlast)).1, h0]
        rfl
      rw [u128ToPgDecimal_eq build v _ hL hhead hz, reverse_digits_ofNat hd, hs]
      congr 2
      have hlt := weight.toInt_lt
      have hpos := hw.1.2.1
      rw [← Int16.toInt_inj, Int16.toInt_ofInt_of_le] <;>
        simp only [List.length_reverse, List.length_map] <;> omega

theorem validDigits_ofNat {M : List Nat} (h : ∀ d ∈ M, d < 10000) :
    ValidDigits (M.map Int16.ofNat).reverse := by
  intro digit hm
  obtain ⟨d, hd, rfl⟩ := List.mem_map.mp (List.mem_reverse.mp hm)
  have hlt := h d hd
  rw [Int16.toInt_ofNat_of_lt (by omega)]
  omega

theorem digitsNumber_ofNat {M : List Nat} (h : ∀ d ∈ M, d < 10000) :
    digitsNumber (M.map Int16.ofNat).reverse = Nat.ofDigits 10000 M := by
  have hmap : M.map (digitVal ∘ Int16.ofNat) = M := by
    conv_rhs => rw [← List.map_id M]
    exact List.map_congr_left fun d hd => digitVal_ofNat (h d hd)
  rw [digitsNumber, List.map_reverse, List.reverse_reverse, List.map_map, hmap]

/-- The numeric the encoder writes for low zeros and then the digits `M`. -/
theorem encoded_canonical (k : Nat) {M : List Nat} {m l : Nat} (hlt : ∀ d ∈ M, d < 10000)
    (hfirst : M.head? = some m) (hlast : M.getLast? = some l) (hm : m ≠ 0) (hl : l ≠ 0)
    (hten : k + M.length ≤ 10) :
    Canonical (.positive (Int16.ofInt (k + M.length - 1)) 0 (M.map Int16.ofNat).reverse) ∧
      (PgNumeric.positive (Int16.ofInt (k + M.length - 1)) 0 (M.map Int16.ofNat).reverse).value =
        Nat.ofDigits 10000 (List.replicate k 0 ++ M) := by
  have hpos : 0 < M.length := List.length_pos_of_mem (List.mem_of_head? hfirst)
  have hw : (Int16.ofInt (k + M.length - 1)).toInt = k + M.length - 1 :=
    Int16.toInt_ofInt_of_le (by omega) (by omega)
  constructor
  · refine ⟨rfl, validDigits_ofNat hlt, Or.inr ⟨?_, Int16.ofNat l, Int16.ofNat m, ?_, ?_, ?_, ?_⟩⟩
    · rw [hw, List.length_reverse, List.length_map]
      omega
    · rw [List.head?_reverse, List.getLast?_map, hlast]
      rfl
    · rw [List.getLast?_reverse, List.head?_map, hfirst]
      rfl
    · exact ofNat_ne_zero (hlt l (List.mem_of_getLast? hlast)) hl
    · exact ofNat_ne_zero (hlt m (List.mem_of_head? hfirst)) hm
  · have hn : (Int16.ofInt (k + M.length - 1)).toInt.toNat + 1 - M.length = k := by omega
    rw [PgNumeric.value, numericValue_eq _ _ (by simp only [List.length_reverse, List.length_map]; omega),
      List.length_reverse, List.length_map, hn, digitsNumber_ofNat hlt, Nat.ofDigits_append,
      Nat.ofDigits_replicate_zero, List.length_replicate, Nat.zero_add, Nat.mul_comm]

/-- The encoder's result is canonical and stands for the amount. -/
theorem encode_value (build : Build) (v : U128) :
    ∃ n, u128ToPgDecimal build v = .value n ∧ Canonical n ∧ n.value = v.toNat := by
  by_cases h0 : v.toNat = 0
  · have hz : v = 0 := BitVec.eq_of_toNat_eq (by rw [h0]; rfl)
    refine ⟨.positive 0 0 [], by rw [hz, u128ToPgDecimal_zero], ?_, ?_⟩
    · exact ⟨rfl, by decide, Or.inl ⟨rfl, rfl⟩⟩
    · rw [h0]
      rfl
  · obtain ⟨k, hk⟩ := zeros_split (Nat.digits 10000 v.toNat)
    generalize hM : (Nat.digits 10000 v.toNat).dropWhile (fun d => d == 0) = M at hk
    have hlt : ∀ d ∈ M, d < 10000 := fun d hd =>
      Nat.digits_lt_base (by decide) (hk ▸ List.mem_append_right _ hd)
    have hne : M ≠ [] := by
      intro hnil
      rw [hnil, List.append_nil] at hk
      have hv := Nat.ofDigits_digits 10000 v.toNat
      rw [hk, Nat.ofDigits_replicate_zero] at hv
      exact h0 hv.symm
    have hm : M.head hne ≠ 0 := by
      subst hM
      simpa using List.head_dropWhile_not (fun d => d == 0) hne
    have hl : M.getLast hne ≠ 0 := by
      have hl := Nat.getLast_digit_ne_zero 10000 h0
      simp only [hk, List.getLast_append_of_ne_nil _ hne] at hl
      exact hl
    have hten : k + M.length ≤ 10 := by
      have hle := (Nat.digits_length_le_iff (b := 10000) (k := 10) (by decide) v.toNat).mpr
        (v.isLt.trans (by decide))
      simpa [hk] using hle
    have hhead := List.head?_eq_some_head hne
    obtain ⟨hc, hv⟩ := encoded_canonical k hlt hhead (List.getLast?_eq_some_getLast hne) hm hl hten
    refine ⟨_, u128ToPgDecimal_eq build v k hk hhead hm, hc, ?_⟩
    rw [hv, ← hk, Nat.ofDigits_digits]

/-- Encoding is a bijection between `u128` and the canonical numerics below
`2^128`, and decoding is its inverse; no build overflows on the way. -/
theorem amountCodec_bijective (build : Build) :
    (∀ v : U128, ∃ n, u128ToPgDecimal build v = .value n ∧ Canonical n ∧ n.value = v.toNat ∧
      pgDecimalToU128 build n = .value (.ok v)) ∧
    (∀ n : PgNumeric, Canonical n → n.value < 2 ^ 128 →
      ∃ v : U128, v.toNat = n.value ∧ pgDecimalToU128 build n = .value (.ok v) ∧
        u128ToPgDecimal build v = .value n) := by
  constructor
  · intro v
    obtain ⟨n, henc, hc, hv⟩ := encode_value build v
    obtain ⟨v', hdec, hv'⟩ := decode_canonical build hc (hv ▸ v.isLt)
    have heq : v' = v := BitVec.eq_of_toNat_eq (hv'.trans hv)
    exact ⟨n, henc, hc, hv, heq ▸ hdec⟩
  · intro n hc hv
    obtain ⟨v, hdec, hval⟩ := decode_canonical build hc hv
    exact ⟨v, hval, hdec, encode_canonical build hc hval⟩

/-- `10000` is one digit 1 with weight 1. -/
theorem amountCodec_ten_thousand :
    ∃ v : U128, v.toNat = (PgNumeric.positive 1 0 [1]).value ∧
      pgDecimalToU128 .debug (.positive 1 0 [1]) = .value (.ok v) ∧
      u128ToPgDecimal .debug v = .value (.positive 1 0 [1]) := by
  have hc : Canonical (.positive 1 0 [1]) :=
    ⟨rfl, by decide, Or.inr ⟨by decide, 1, 1, rfl, rfl, by decide, by decide⟩⟩
  have hv : (PgNumeric.positive 1 0 [1]).value < 2 ^ 128 := by
    rw [PgNumeric.value, numericValue_eq _ _ (by decide)]
    decide
  exact (amountCodec_bijective .debug).2 _ hc hv

end PaymentsNotifications.Models
