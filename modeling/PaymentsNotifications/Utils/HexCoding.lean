import Mathlib.Data.List.Induction
import PaymentsNotifications.Utils

/-! The coding between bytes and hex text, for every byte string and every text.
`digits s` are the bytes of `s` that are ASCII hex digits; the decoder sees
nothing else of the text. -/

namespace PaymentsNotifications.Utils

def isHexDigit (b : UInt8) : Bool :=
  (48 ≤ b && b ≤ 57) || (97 ≤ b && b ≤ 102) || (65 ≤ b && b ≤ 70)

def digits (s : String) : Bytes := (bytesOf s).filter isHexDigit

/-- ASCII bytes as a string. -/
def asciiText (bytes : Bytes) : String := String.ofList (bytes.map fun b => Char.ofNat b.toNat)

/-- `to_ascii_lowercase` on one byte. -/
def lowercase (b : UInt8) : UInt8 := if 65 ≤ b ∧ b ≤ 90 then b + 32 else b

/-- A digit sequence without the last digit that has no partner. -/
def paired (ds : Bytes) : Bytes := if ds.length % 2 = 1 then ds.dropLast else ds

theorem paired_subset (ds : Bytes) : paired ds ⊆ ds := by
  unfold paired
  split
  · exact List.dropLast_subset ds
  · exact List.Subset.refl ds

theorem length_paired (ds : Bytes) : (paired ds).length % 2 = 0 := by
  unfold paired
  split
  · simp only [List.length_dropLast]
    omega
  · omega

/-! ## One byte -/

/-- A fact of two nibbles follows from the cases. -/
theorem forall_nibbles {P : UInt8 → UInt8 → Prop}
    (h : ∀ m n : Fin 16, P (UInt8.ofNat m) (UInt8.ofNat n)) {a b : UInt8} (ha : a < 16)
    (hb : b < 16) : P a b := by
  have hab := h ⟨a.toNat, UInt8.lt_iff_toNat_lt.mp ha⟩ ⟨b.toNat, UInt8.lt_iff_toNat_lt.mp hb⟩
  simpa only [UInt8.ofNat_toNat] using hab

theorem hexValue_isSome (b : UInt8) : (hexValue b).isSome = isHexDigit b :=
  forall_byte (P := fun b => (hexValue b).isSome = isHexDigit b) (by decide) b

theorem exists_hexValue {b : UInt8} (h : isHexDigit b = true) : ∃ v, hexValue b = some v :=
  Option.isSome_iff_exists.mp ((hexValue_isSome b).trans h)

/-- A digit has a value below sixteen, and the table has its lower-case form there. -/
theorem hexValue_digit {b v : UInt8} (h : hexValue b = some v) :
    v < 16 ∧ chars.getD v.toNat 0 = lowercase b := by
  have hall : ∀ b : UInt8, (hexValue b).all fun v => v < 16 && chars.getD v.toNat 0 == lowercase b :=
    forall_byte (by decide)
  simpa [h] using hall b

theorem utf8_digit {b : UInt8} (h : isHexDigit b = true) :
    String.utf8EncodeChar (Char.ofNat b.toNat) = [b] := by
  have hall : ∀ b : UInt8, isHexDigit b = true → String.utf8EncodeChar (Char.ofNat b.toNat) = [b] :=
    forall_byte (by decide)
  exact hall b h

/-- Two nibbles put in one byte are written as their two digits. -/
theorem hexDigits_nibbles {h l : UInt8} (hh : h < 16) (hl : l < 16) :
    hexDigits (h <<< 4 ||| l) = [chars.getD h.toNat 0, chars.getD l.toNat 0] :=
  forall_nibbles
    (P := fun h l => hexDigits (h <<< 4 ||| l) = [chars.getD h.toNat 0, chars.getD l.toNat 0])
    (by decide) hh hl

/-- Both indices into the table are in range, and what is read is a lower-case digit. -/
theorem hexDigits_range (byte : UInt8) :
    ((byte >>> 4).toNat < chars.length ∧ (byte &&& 0xf).toNat < chars.length) ∧
      ∀ d ∈ hexDigits byte, (48 ≤ d ∧ d ≤ 57) ∨ (97 ≤ d ∧ d ≤ 102) := by
  have hindex : ∀ byte : UInt8,
      (byte >>> 4).toNat < chars.length ∧ (byte &&& 0xf).toNat < chars.length :=
    forall_byte (by decide)
  have hall : ∀ byte : UInt8, (hexDigits byte).all fun d =>
      (48 ≤ d && d ≤ 57) || (97 ≤ d && d ≤ 102) :=
    forall_byte (by decide)
  exact ⟨hindex byte, by simpa using hall byte⟩

/-! ## The loop -/

theorem length_hexPairs (values : List UInt8) : (hexPairs values).length = values.length / 2 := by
  induction values using List.twoStepInduction with
  | nil => simp [hexPairs]
  | singleton v => simp [hexPairs]
  | cons_cons h l rest ih _ =>
    simp only [hexPairs, List.length_cons, ih]
    omega

theorem even_rest {α : Type} {a b : α} {rest : List α} (h : (a :: b :: rest).length % 2 = 0) :
    rest.length % 2 = 0 := by
  simp only [List.length_cons] at h
  omega

/-- After an even number of digits the loop starts afresh. -/
theorem hexPairs_append {values : List UInt8} (more : List UInt8) (h : values.length % 2 = 0) :
    hexPairs (values ++ more) = hexPairs values ++ hexPairs more := by
  induction values using List.twoStepInduction with
  | nil => simp [hexPairs]
  | singleton v => simp at h
  | cons_cons u v rest ih _ =>
    simp only [List.cons_append, hexPairs, ih (even_rest h)]

/-- What `parse_hex` keeps of the text is its digits. -/
theorem filterMap_digits (bytes : Bytes) :
    bytes.filterMap hexValue = (bytes.filter isHexDigit).filterMap hexValue := by
  induction bytes with
  | nil => rfl
  | cons b bytes ih =>
    have hb := hexValue_isSome b
    cases hv : hexValue b with
    | none =>
      rw [hv] at hb
      rw [List.filterMap_cons_none hv, List.filter_cons_of_neg (by simp [← hb]), ih]
    | some v =>
      rw [hv] at hb
      rw [List.filterMap_cons_some hv, List.filter_cons_of_pos hb.symm,
        List.filterMap_cons_some hv, ih]

/-- Digits and nothing else: each has a value. -/
theorem length_values {ds : Bytes} (h : ∀ b ∈ ds, isHexDigit b = true) :
    (ds.filterMap hexValue).length = ds.length := by
  induction ds with
  | nil => rfl
  | cons b ds ih =>
    obtain ⟨hb, hds⟩ := List.forall_mem_cons.mp h
    obtain ⟨v, hv⟩ := exists_hexValue hb
    rw [List.filterMap_cons_some hv, List.length_cons, ih hds, List.length_cons]

/-- An odd last digit changes nothing. -/
theorem hexPairs_paired {ds : Bytes} (h : ∀ b ∈ ds, isHexDigit b = true) :
    hexPairs ((paired ds).filterMap hexValue) = hexPairs (ds.filterMap hexValue) := by
  rcases Nat.mod_two_eq_zero_or_one ds.length with heven | hodd
  · simp [paired, heven]
  · have hne : ds ≠ [] := by
      rintro rfl
      simp at hodd
    have hinit : ∀ b ∈ ds.dropLast, isHexDigit b = true := fun b hb =>
      h b (List.dropLast_subset ds hb)
    have hlen : (ds.dropLast.filterMap hexValue).length % 2 = 0 := by
      rw [length_values hinit, List.length_dropLast]
      omega
    have hlast : hexPairs ([ds.getLast hne].filterMap hexValue) = [] := by
      cases hv : hexValue (ds.getLast hne) with
      | none => simp [hv, hexPairs]
      | some v => simp [hv, hexPairs]
    rw [paired, if_pos hodd]
    conv_rhs => rw [← List.dropLast_concat_getLast hne, List.filterMap_append,
      hexPairs_append _ hlen, hlast, List.append_nil]

/-- An even run of digits is written back in lower case. -/
theorem toHexBytes_hexPairs {ds : Bytes} (h : ∀ b ∈ ds, isHexDigit b = true)
    (heven : ds.length % 2 = 0) :
    toHexBytes (hexPairs (ds.filterMap hexValue)) = ds.map lowercase := by
  induction ds using List.twoStepInduction with
  | nil => rfl
  | singleton b => simp at heven
  | cons_cons a b rest ih _ =>
    obtain ⟨ha, hb, hrest⟩ := by simpa only [List.forall_mem_cons] using h
    obtain ⟨u, hu⟩ := exists_hexValue ha
    obtain ⟨v, hv⟩ := exists_hexValue hb
    obtain ⟨hu16, hua⟩ := hexValue_digit hu
    obtain ⟨hv16, hvb⟩ := hexValue_digit hv
    have hih := ih hrest (even_rest heven)
    rw [List.filterMap_cons_some hu, List.filterMap_cons_some hv, hexPairs, toHexBytes,
      List.flatMap_cons, hexDigits_nibbles hu16 hv16, hua, hvb]
    rw [toHexBytes] at hih
    simp [hih]

/-! ## Texts -/

theorem digits_append (s t : String) : digits (s ++ t) = digits s ++ digits t := by
  simp [digits, bytesOf]

theorem isHexDigit_of_mem {s : String} {b : UInt8} (h : b ∈ digits s) : isHexDigit b = true :=
  (List.mem_filter.mp h).2

theorem parseHex_digits (s : String) : parseHex s = hexPairs ((digits s).filterMap hexValue) := by
  rw [parseHex, filterMap_digits, digits]

/-- The digits alone, as a text: `H(s)`. -/
theorem bytesOf_asciiText {ds : Bytes} (h : ∀ b ∈ ds, isHexDigit b = true) :
    bytesOf (asciiText ds) = ds := by
  rw [asciiText, bytesOf_ofList, List.flatMap_map]
  induction ds with
  | nil => rfl
  | cons b ds ih =>
    obtain ⟨hb, hds⟩ := List.forall_mem_cons.mp h
    rw [List.flatMap_cons, ih hds, utf8_digit hb, List.singleton_append]

theorem bytesOf_asciiText_digits (s : String) : bytesOf (asciiText (digits s)) = digits s :=
  bytesOf_asciiText fun _ => isHexDigit_of_mem

theorem digits_asciiText (s : String) : digits (asciiText (digits s)) = digits s := by
  rw [digits, bytesOf_asciiText_digits]
  exact List.filter_eq_self.mpr fun _ => isHexDigit_of_mem

theorem length_parseHex (s : String) : (parseHex s).length = (digits s).length / 2 := by
  rw [parseHex_digits, length_hexPairs, length_values fun _ => isHexDigit_of_mem]

theorem parseHex_append {s : String} (t : String) (h : (digits s).length % 2 = 0) :
    parseHex (s ++ t) = parseHex s ++ parseHex t := by
  have hlen : ((digits s).filterMap hexValue).length % 2 = 0 := by
    rw [length_values fun _ => isHexDigit_of_mem]
    exact h
  simp only [parseHex_digits, digits_append, List.filterMap_append, hexPairs_append _ hlen]

/-- Reading and writing back: the digits in lower case, the odd last one gone. -/
theorem toHex_parseHex (s : String) :
    toHex (parseHex s) = asciiText ((paired (digits s)).map lowercase) := by
  have hmem : ∀ b ∈ paired (digits s), isHexDigit b = true := fun _ hb =>
    isHexDigit_of_mem (paired_subset _ hb)
  have hread : parseHex s = hexPairs ((paired (digits s)).filterMap hexValue) := by
    rw [parseHex_digits, hexPairs_paired fun _ => isHexDigit_of_mem]
  show asciiText (toHexBytes (parseHex s)) = _
  rw [hread, toHexBytes_hexPairs hmem (length_paired _)]

/-- The vector `to_hex` fills is ASCII, of two bytes for each byte. -/
theorem toHex_spec (bytes : Bytes) :
    fromUtf8 (toHexBytes bytes) = .ok (toHex bytes) ∧
      (bytesOf (toHex bytes)).length = 2 * bytes.length ∧
      (∀ d ∈ bytesOf (toHex bytes), (48 ≤ d ∧ d ≤ 57) ∨ (97 ≤ d ∧ d ≤ 102)) := by
  refine ⟨?_, ?_, ?_⟩
  · rw [← bytesOf_toHex]
    exact fromUtf8_bytesOf _
  · rw [bytesOf_toHex, toHexBytes]
    induction bytes with
    | nil => rfl
    | cons byte bytes ih =>
      rw [List.flatMap_cons, List.length_append, ih]
      simp only [hexDigits, List.length_cons, List.length_nil]
      omega
  · intro d hd
    rw [bytesOf_toHex, toHexBytes] at hd
    obtain ⟨byte, -, hbyte⟩ := List.mem_flatMap.mp hd
    exact (hexDigits_range byte).2 d hbyte

/-- **The hex coding on all inputs.** -/
theorem hex_coding :
    (∀ bytes : Bytes,
      (fromUtf8 (toHexBytes bytes) = .ok (toHex bytes) ∧
        (bytesOf (toHex bytes)).length = 2 * bytes.length ∧
        ∀ d ∈ bytesOf (toHex bytes), (48 ≤ d ∧ d ≤ 57) ∨ (97 ≤ d ∧ d ≤ 102)) ∧
      (∀ byte ∈ bytes,
        (byte >>> 4).toNat < chars.length ∧ (byte &&& 0xf).toNat < chars.length) ∧
      parseHex (toHex bytes) = bytes) ∧
    (∀ s : String,
      bytesOf (asciiText (digits s)) = digits s ∧
      parseHex s = parseHex (asciiText (digits s)) ∧
      (parseHex s).length = (digits s).length / 2 ∧
      toHex (parseHex s) = asciiText ((paired (digits s)).map lowercase)) ∧
    ∀ s t : String, (digits s).length % 2 = 0 → parseHex (s ++ t) = parseHex s ++ parseHex t := by
  refine ⟨?_, ?_, ?_⟩
  · intro bytes
    exact ⟨toHex_spec bytes, fun byte _ => (hexDigits_range byte).1, parseHex_toHex bytes⟩
  · intro s
    have hsame : parseHex s = parseHex (asciiText (digits s)) := by
      simp only [parseHex_digits, digits_asciiText]
    exact ⟨bytesOf_asciiText_digits s, hsame, length_parseHex s, toHex_parseHex s⟩
  · intro s t h
    exact parseHex_append t h

/-- A key written in two halves with a separator between them. -/
theorem hex_coding_halves : parseHex ("0A:" ++ "fé3") = parseHex "0A:" ++ parseHex "fé3" :=
  hex_coding.2.2 "0A:" "fé3" (by decide)

end PaymentsNotifications.Utils
