import Mathlib.Data.List.Basic
import Mathlib.Data.List.TakeWhile
import Mathlib.Tactic.Common

/-! Regular expressions that are sequences of character classes, each taken once or
any number of times. A search finds the leftmost match; a repetition takes as many
characters as it can and gives them back while the rest does not match. -/

namespace PaymentsNotifications.Pattern

inductive Item where
  | one (p : Char → Bool)
  | many (p : Char → Bool)

/-- A repetition in front of what `next` matches: the matched text and the rest. -/
def star (p : Char → Bool) (next : List Char → Option (List Char × List Char)) :
    List Char → Option (List Char × List Char)
  | [] => next []
  | c :: s =>
    if p c then
      match star p next s with
      | some (text, rest) => some (c :: text, rest)
      | none => next (c :: s)
    else next (c :: s)

/-- The match that begins with the text. -/
def matchAt : List Item → List Char → Option (List Char × List Char)
  | [], s => some ([], s)
  | .one _ :: _, [] => none
  | .one p :: items, c :: s =>
    if p c then (matchAt items s).map fun found => (c :: found.1, found.2) else none
  | .many p :: items, s => star p (matchAt items) s

structure Found where
  before : List Char
  text : List Char
  after : List Char

/-- The leftmost match. -/
def search (items : List Item) : List Char → Option Found
  | [] => (matchAt items []).map fun found => ⟨[], found.1, found.2⟩
  | c :: s =>
    match matchAt items (c :: s) with
    | some found => some ⟨[], found.1, found.2⟩
    | none => (search items s).map fun found => { found with before := c :: found.before }

/-- What follows does not begin with a character of the class: the repetition takes
all of them. -/
theorem star_eq_span {p : Char → Bool} {next : List Char → Option (List Char × List Char)}
    (h : ∀ c s, p c = true → next (c :: s) = none) (s : List Char) :
    star p next s =
      (next (s.dropWhile p)).map fun found => (s.takeWhile p ++ found.1, found.2) := by
  induction s with
  | nil => simp [star]
  | cons c s ih =>
    cases hp : p c with
    | true =>
      rw [star, if_pos hp, ih, List.dropWhile_cons_of_pos hp, List.takeWhile_cons_of_pos hp]
      cases next (s.dropWhile p) with
      | none => simp [h c s hp]
      | some found => simp
    | false =>
      have hp' : ¬ p c = true := by simp [hp]
      rw [star, if_neg hp', List.dropWhile_cons_of_neg hp', List.takeWhile_cons_of_neg hp']
      simp

/-- At the end of the expression the repetition takes all it can. -/
theorem matchAt_many (p : Char → Bool) (s : List Char) :
    matchAt [.many p] s = some (s.takeWhile p, s.dropWhile p) := by
  rw [matchAt]
  induction s with
  | nil => rfl
  | cons c s ih =>
    cases hp : p c with
    | true =>
      rw [star, if_pos hp, ih, List.dropWhile_cons_of_pos hp, List.takeWhile_cons_of_pos hp]
    | false =>
      have hp' : ¬ p c = true := by simp [hp]
      rw [star, if_neg hp', List.dropWhile_cons_of_neg hp', List.takeWhile_cons_of_neg hp']
      rfl

/-- A search finds the text at the first place where the expression matches. -/
theorem search_eq_some_iff {items : List Item} {s before text after : List Char} :
    search items s = some ⟨before, text, after⟩ ↔
      ∃ tail, s = before ++ tail ∧ matchAt items tail = some (text, after) ∧
        ∀ b c d, before = b ++ c :: d → matchAt items (c :: d ++ tail) = none := by
  induction s generalizing before with
  | nil =>
    simp only [search, Option.map_eq_some_iff, Found.mk.injEq, Prod.exists]
    constructor
    · rintro ⟨t, r, hm, rfl, rfl, rfl⟩
      exact ⟨[], rfl, hm, fun b c d h => by simp at h⟩
    · rintro ⟨tail, hs, hm, -⟩
      obtain ⟨rfl, rfl⟩ := List.append_eq_nil_iff.mp hs.symm
      exact ⟨text, after, hm, rfl, rfl, rfl⟩
  | cons c s ih =>
    rw [search]
    cases hm : matchAt items (c :: s) with
    | some found =>
      simp only [Option.some.injEq, Found.mk.injEq]
      constructor
      · rintro ⟨rfl, rfl, rfl⟩
        exact ⟨c :: s, rfl, hm, fun b c d h => by simp at h⟩
      · rintro ⟨tail, hs, htail, hfirst⟩
        cases before with
        | nil =>
          obtain rfl : c :: s = tail := hs
          obtain ⟨rfl, rfl⟩ := by simpa using hm.symm.trans htail
          exact ⟨rfl, rfl, rfl⟩
        | cons d before =>
          obtain ⟨rfl, rfl⟩ := List.cons.inj hs
          exact absurd (hm.symm.trans (hfirst [] c before rfl)) (by simp)
    | none =>
      simp only [Option.map_eq_some_iff]
      constructor
      · rintro ⟨⟨b', t, r⟩, hfound, heq⟩
        obtain ⟨rfl, rfl, rfl⟩ := by simpa using heq
        obtain ⟨tail, rfl, htail, hfirst⟩ := ih.mp hfound
        refine ⟨tail, rfl, htail, fun b x d h => ?_⟩
        cases b with
        | nil =>
          obtain ⟨rfl, rfl⟩ := List.cons.inj h
          exact hm
        | cons y b =>
          obtain ⟨rfl, rfl⟩ := List.cons.inj h
          exact hfirst b x d rfl
      · rintro ⟨tail, hs, htail, hfirst⟩
        cases before with
        | nil =>
          obtain rfl : c :: s = tail := hs
          exact absurd (hm.symm.trans htail) (by simp)
        | cons d before =>
          obtain ⟨rfl, rfl⟩ := List.cons.inj hs
          refine ⟨⟨before, text, after⟩, ih.mpr ⟨tail, rfl, htail, fun b x d h => ?_⟩, rfl⟩
          exact hfirst (c :: b) x d (by rw [h, List.cons_append])

end PaymentsNotifications.Pattern
