import Mathlib.Data.List.Basic
import Mathlib.Tactic.Common

/-! The text `{:#?}` writes: strings in quotes with their escapes, structs and tuples
over several lines, indented by four spaces. Two texts are apart when they differ
at a place that both have; what is written around them keeps them apart. -/

namespace PaymentsNotifications.DebugFmt

/-- The texts agree up to a place where they have different characters. -/
def Apart (v w : List Char) : Prop :=
  ∃ before x y v' w', x ≠ y ∧ v = before ++ x :: v' ∧ w = before ++ y :: w'

namespace Apart

theorem symm {v w : List Char} (h : Apart v w) : Apart w v := by
  obtain ⟨before, x, y, v', w', hxy, hv, hw⟩ := h
  exact ⟨before, y, x, w', v', hxy.symm, hw, hv⟩

theorem cons_cons {x y : Char} (v w : List Char) (h : x ≠ y) : Apart (x :: v) (y :: w) :=
  ⟨[], x, y, v, w, h, rfl, rfl⟩

theorem append_left {v w : List Char} (h : Apart v w) (text : List Char) :
    Apart (text ++ v) (text ++ w) := by
  obtain ⟨before, x, y, v', w', hxy, rfl, rfl⟩ := h
  exact ⟨text ++ before, x, y, v', w', hxy, by simp, by simp⟩

theorem cons {v w : List Char} (h : Apart v w) (c : Char) : Apart (c :: v) (c :: w) :=
  h.append_left [c]

theorem append_right {v w : List Char} (h : Apart v w) (a b : List Char) :
    Apart (v ++ a) (w ++ b) := by
  obtain ⟨before, x, y, v', w', hxy, rfl, rfl⟩ := h
  exact ⟨before, x, y, v' ++ a, w' ++ b, hxy, by simp, by simp⟩

theorem ne {v w : List Char} (h : Apart v w) : v ≠ w := by
  obtain ⟨before, x, y, v', w', hxy, rfl, rfl⟩ := h
  intro heq
  have hcons := List.append_cancel_left heq
  exact hxy (List.cons.inj hcons).1

/-- Different texts are apart once both are closed by a character neither has. -/
theorem of_closed {v w : List Char} {x : Char} (hv : x ∉ v) (hw : x ∉ w) (h : v ≠ w) :
    Apart (v ++ [x]) (w ++ [x]) := by
  induction v generalizing w with
  | nil =>
    cases w with
    | nil => exact absurd rfl h
    | cons d w => exact cons_cons _ _ (List.ne_of_not_mem_cons hw)
  | cons c v ih =>
    cases w with
    | nil => exact cons_cons _ _ (List.ne_of_not_mem_cons hv).symm
    | cons d w =>
      by_cases hcd : c = d
      · subst hcd
        apply Apart.cons
        apply ih (List.not_mem_of_not_mem_cons hv) (List.not_mem_of_not_mem_cons hw)
        rintro rfl
        exact h rfl
      · exact cons_cons _ _ hcd

end Apart

/-! ## Strings -/

def quote : Char := Char.ofNat 34
def apostrophe : Char := Char.ofNat 39

/-- The characters that are escaped with a letter, and the letters. -/
def escapes : List (Char × Char) :=
  [('\t', 't'), ('\r', 'r'), ('\n', 'n'), ('\\', '\\'), (apostrophe, apostrophe), (quote, quote)]

theorem escapes_spec :
    (∀ e ∈ escapes, e.2 ≠ 'u' ∧ e.2 ≠ '\n') ∧
      ∀ e ∈ escapes, ∀ f ∈ escapes, e.2 = f.2 → e.1 = f.1 := by decide

theorem mem_of_lookup {c letter : Char} (h : escapes.lookup c = some letter) :
    (c, letter) ∈ escapes := by
  obtain ⟨l₁, l₂, heq, -⟩ := List.lookup_eq_some_iff.mp h
  simp [heq]

/-- A character without a letter is none of the six. -/
theorem ne_of_lookup {c : Char} (h : escapes.lookup c = none) :
    c ≠ '\\' ∧ c ≠ '\n' ∧ c ≠ quote := by
  refine ⟨?_, ?_, ?_⟩ <;> rintro rfl <;> exact absurd h (by decide)

/-! ## Numbers in hex -/

def hexText (n : Nat) : List Char := Nat.toDigits 16 n

theorem hexText_cases (n : Nat) :
    (n < 16 ∧ hexText n = [n.digitChar]) ∨
      (16 ≤ n ∧ hexText n = hexText (n / 16) ++ [(n % 16).digitChar]) := by
  rcases Nat.lt_or_ge n 16 with h | h
  · exact Or.inl ⟨h, Nat.toDigits_of_lt_base h⟩
  · exact Or.inr ⟨h, Nat.toDigits_of_base_le (by decide) h⟩

theorem mem_hexText {n : Nat} {c : Char} (h : c ∈ hexText n) : ∃ d < 16, c = Nat.digitChar d := by
  induction n using Nat.strongRecOn with
  | ind n ih =>
    obtain ⟨hlt, heq⟩ | ⟨hge, heq⟩ := hexText_cases n
    · rw [heq, List.mem_singleton] at h
      exact ⟨n, hlt, h⟩
    · rw [heq, List.mem_append, List.mem_singleton] at h
      rcases h with h | h
      · exact ih (n / 16) (by omega) h
      · exact ⟨n % 16, Nat.mod_lt _ (by decide), h⟩

theorem digitChar_spec :
    ∀ d < 16, Nat.digitChar d ≠ '\n' ∧ Nat.digitChar d ≠ '\x7d' ∧
      ∀ e < 16, Nat.digitChar d = Nat.digitChar e → d = e := by decide

theorem hexText_length_pos (n : Nat) : 0 < (hexText n).length := Nat.length_toDigits_pos

theorem hexText_injective {m n : Nat} (h : hexText m = hexText n) : m = n := by
  induction m using Nat.strongRecOn generalizing n with
  | ind m ih =>
    obtain ⟨hm, hmeq⟩ | ⟨hm, hmeq⟩ := hexText_cases m
    · obtain ⟨hn, hneq⟩ | ⟨hn, hneq⟩ := hexText_cases n
      · rw [hmeq, hneq] at h
        exact (digitChar_spec m hm).2.2 n hn (by simpa using h)
      · have hlen := congrArg List.length h
        have hpos := hexText_length_pos (n / 16)
        rw [hmeq, hneq] at hlen
        simp only [List.length_append, List.length_cons, List.length_nil] at hlen
        omega
    · obtain ⟨hn, hneq⟩ | ⟨hn, hneq⟩ := hexText_cases n
      · have hlen := congrArg List.length h
        have hpos := hexText_length_pos (m / 16)
        rw [hmeq, hneq] at hlen
        simp only [List.length_append, List.length_cons, List.length_nil] at hlen
        omega
      · rw [hmeq, hneq] at h
        obtain ⟨hdiv, hmod⟩ := List.append_inj' h rfl
        have hq := ih (m / 16) (by omega) hdiv
        have hr := (digitChar_spec (m % 16) (Nat.mod_lt _ (by decide))).2.2 (n % 16)
          (Nat.mod_lt _ (by decide)) (by simpa using hmod)
        omega

/-! ## Quoted strings -/

section
variable (printable : Char → Bool)

/-- `char::escape_debug`, over the table of printable characters. -/
def escapeDebug (c : Char) : List Char :=
  match escapes.lookup c with
  | some letter => ['\\', letter]
  | none => if printable c then [c] else '\\' :: 'u' :: '\x7b' :: (hexText c.toNat ++ ['\x7d'])

/-- A string in quotes. -/
def quoted (s : List Char) : List Char := quote :: (s.flatMap (escapeDebug printable) ++ [quote])

/-- The three forms of an escape. -/
theorem escapeDebug_cases (c : Char) :
    (∃ letter, (c, letter) ∈ escapes ∧ escapeDebug printable c = ['\\', letter]) ∨
      (escapes.lookup c = none ∧ escapeDebug printable c = [c]) ∨
      (escapeDebug printable c = '\\' :: 'u' :: '\x7b' :: (hexText c.toNat ++ ['\x7d'])) := by
  unfold escapeDebug
  cases h : escapes.lookup c with
  | some letter => exact Or.inl ⟨letter, mem_of_lookup h, rfl⟩
  | none =>
    cases printable c with
    | true => exact Or.inr (Or.inl ⟨rfl, rfl⟩)
    | false => exact Or.inr (Or.inr rfl)

variable {printable}

/-- Different characters are escaped to texts that are apart. -/
theorem apart_escapeDebug {c d : Char} (h : c ≠ d) :
    Apart (escapeDebug printable c) (escapeDebug printable d) := by
  have hletter : ∀ {c letter : Char} (v : List Char), (c, letter) ∈ escapes →
      Apart ['\\', letter] ('\\' :: 'u' :: v) := fun v hmem =>
    (Apart.cons_cons _ _ (escapes_spec.1 _ hmem).1).cons _
  obtain ⟨l, hl, hc⟩ | ⟨hc, hceq⟩ | hc := escapeDebug_cases printable c
  · obtain ⟨l', hl', hd⟩ | ⟨hd, hdeq⟩ | hd := escapeDebug_cases printable d
    · rw [hc, hd]
      apply Apart.cons
      apply Apart.cons_cons
      intro heq
      exact h (escapes_spec.2 _ hl _ hl' heq)
    · rw [hc, hdeq]
      exact Apart.cons_cons _ _ (ne_of_lookup hd).1.symm
    · rw [hc, hd]
      exact hletter _ hl
  · obtain ⟨l', hl', hd⟩ | ⟨hd, hdeq⟩ | hd := escapeDebug_cases printable d
    · rw [hceq, hd]
      exact Apart.cons_cons _ _ (ne_of_lookup hc).1
    · rw [hceq, hdeq]
      exact Apart.cons_cons _ _ h
    · rw [hceq, hd]
      exact Apart.cons_cons _ _ (ne_of_lookup hc).1
  · obtain ⟨l', hl', hd⟩ | ⟨hd, hdeq⟩ | hd := escapeDebug_cases printable d
    · rw [hc, hd]
      exact (hletter _ hl').symm
    · rw [hc, hdeq]
      exact Apart.cons_cons _ _ (ne_of_lookup hd).1.symm
    · rw [hc, hd]
      have hbrace : ∀ n, '\x7d' ∉ hexText n := by
        intro n hmem
        obtain ⟨e, he, heq⟩ := mem_hexText hmem
        exact (digitChar_spec e he).2.1 heq.symm
      have hne : hexText c.toNat ≠ hexText d.toNat := fun heq =>
        h (Char.toNat_inj.mp (hexText_injective heq))
      exact (((Apart.of_closed (hbrace _) (hbrace _) hne).cons _).cons _).cons _

theorem escapeDebug_head (printable : Char → Bool) (c : Char) :
    ∃ x rest, escapeDebug printable c = x :: rest ∧ x ≠ quote := by
  obtain ⟨l, -, hc⟩ | ⟨hc, hceq⟩ | hc := escapeDebug_cases printable c
  · exact ⟨_, _, hc, by decide⟩
  · exact ⟨_, _, hceq, (ne_of_lookup hc).2.2⟩
  · exact ⟨_, _, hc, by decide⟩

/-- Different strings are apart in their quotes. -/
theorem apart_quoted {s t : List Char} (h : s ≠ t) :
    Apart (quoted printable s) (quoted printable t) := by
  apply Apart.cons
  induction s generalizing t with
  | nil =>
    cases t with
    | nil => exact absurd rfl h
    | cons d t =>
      obtain ⟨x, rest, hx, hne⟩ := escapeDebug_head printable d
      rw [List.flatMap_cons, hx]
      exact Apart.cons_cons _ _ hne.symm
  | cons c s ih =>
    cases t with
    | nil =>
      obtain ⟨x, rest, hx, hne⟩ := escapeDebug_head printable c
      rw [List.flatMap_cons, hx]
      exact Apart.cons_cons _ _ hne
    | cons d t =>
      rw [List.flatMap_cons, List.flatMap_cons, List.append_assoc, List.append_assoc]
      by_cases hcd : c = d
      · subst hcd
        apply Apart.append_left
        apply ih
        rintro rfl
        exact h rfl
      · exact (apart_escapeDebug hcd).append_right _ _

end

/-! ## Structs and tuples -/

/-- `PadAdapter`: what is written behind a line break is indented. -/
def pad (text : List Char) : List Char :=
  text.flatMap fun c => if c = '\n' then '\n' :: "    ".toList else [c]

theorem Apart.pad {v w : List Char} (h : Apart v w) : Apart (pad v) (pad w) := by
  obtain ⟨before, x, y, v', w', hxy, rfl, rfl⟩ := h
  simp only [DebugFmt.pad, List.flatMap_append, List.flatMap_cons]
  apply Apart.append_left
  by_cases hx : x = '\n'
  · rw [if_pos hx, if_neg fun hy => hxy (hx.trans hy.symm)]
    exact Apart.cons_cons _ _ fun hy => hxy (hx.trans hy)
  · by_cases hy : y = '\n'
    · rw [if_neg hx, if_pos hy]
      exact Apart.cons_cons _ _ hx
    · rw [if_neg hx, if_neg hy]
      exact Apart.cons_cons _ _ hxy

/-- `DebugStruct::field`, behind what opens the field. -/
def fieldText (opening : List Char) (field : String × List Char) : List Char :=
  pad (opening ++ '\n' :: (field.1.toList ++ ": ".toList ++ field.2))

/-- The fields after the first open with a comma; there is none behind the last. -/
def fieldsText : List Char → List (String × List Char) → List Char
  | _, [] => []
  | opening, field :: fields => fieldText opening field ++ fieldsText ",".toList fields

def structText (name : String) (fields : List (String × List Char)) : List Char :=
  name.toList ++ fieldsText " \x7b".toList fields ++ (if fields.isEmpty then [] else "\n\x7d".toList)

/-- A tuple struct or variant with one item. -/
def tupleText (name : String) (item : List Char) : List Char :=
  name.toList ++ pad ("(\n".toList ++ item) ++ "\n)".toList

def optionText {α : Type} (text : α → List Char) : Option α → List Char
  | none => "None".toList
  | some a => tupleText "Some" (text a)

/-! ### Structs with a field that is apart -/

theorem apart_field {v w : List Char} (h : Apart v w) (opening : List Char) (name : String)
    (fields fields' : List (String × List Char)) :
    Apart (fieldsText opening ((name, v) :: fields)) (fieldsText opening ((name, w) :: fields')) := by
  simp only [fieldsText, fieldText]
  apply Apart.append_right
  apply Apart.pad
  apply Apart.append_left
  apply Apart.cons
  exact h.append_left _

theorem apart_later {fields fields' : List (String × List Char)}
    (h : Apart (fieldsText ",".toList fields) (fieldsText ",".toList fields')) (opening : List Char)
    (field : String × List Char) :
    Apart (fieldsText opening (field :: fields)) (fieldsText opening (field :: fields')) :=
  h.append_left _

theorem apart_structText {fields fields' : List (String × List Char)}
    (h : Apart (fieldsText " \x7b".toList fields) (fieldsText " \x7b".toList fields'))
    (name : String) : Apart (structText name fields) (structText name fields') := by
  simp only [structText, List.append_assoc]
  exact (h.append_right _ _).append_left _

end PaymentsNotifications.DebugFmt
