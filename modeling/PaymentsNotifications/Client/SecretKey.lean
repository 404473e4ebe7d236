import PaymentsNotifications.Client.Callback
import PaymentsNotifications.Utils.HexCoding

/-! Which key signs the callbacks. The configured text spells a number with its
hex digits, behind an optional `0x`; `create_sign` signs with the key made of
the bytes `parse_hex` reads from the text. -/

namespace PaymentsNotifications.Client
open Utils External

/-! ## Numbers written in bytes and in digits -/

/-- Big-endian bytes. -/
def bytesValue (bytes : Bytes) : Nat := bytes.foldl (fun n b => 256 * n + b.toNat) 0

def digitValue (d : UInt8) : Nat :=
  if d ≤ 57 then d.toNat - 48 else if d ≤ 70 then d.toNat - 55 else d.toNat - 87

/-- The number hex digits spell. -/
def spelled (ds : Bytes) : Nat := ds.foldl (fun n d => 16 * n + digitValue d) 0

theorem digitValue_eq {d v : UInt8} (h : hexValue d = some v) : v.toNat = digitValue d := by
  have hall : ∀ d : UInt8, (hexValue d).all fun v => v.toNat == digitValue d :=
    forall_byte (by decide)
  simpa [h] using hall d

theorem toNat_nibbles {h l : UInt8} (hh : h < 16) (hl : l < 16) :
    (h <<< 4 ||| l).toNat = 16 * h.toNat + l.toNat :=
  forall_nibbles (P := fun h l => (h <<< 4 ||| l).toNat = 16 * h.toNat + l.toNat)
    (by decide) hh hl

/-- Two digits at a time count the same as one by one. -/
theorem foldl_hexPairs {ds : Bytes} (h : ∀ d ∈ ds, isHexDigit d = true)
    (heven : ds.length % 2 = 0) (n : Nat) :
    (hexPairs (ds.filterMap hexValue)).foldl (fun n b => 256 * n + b.toNat) n =
      ds.foldl (fun n d => 16 * n + digitValue d) n := by
  induction ds using List.twoStepInduction generalizing n with
  | nil => rfl
  | singleton d => simp at heven
  | cons_cons a b rest ih _ =>
    obtain ⟨ha, hb, hrest⟩ := by simpa only [List.forall_mem_cons] using h
    obtain ⟨u, hu⟩ := exists_hexValue ha
    obtain ⟨v, hv⟩ := exists_hexValue hb
    have hbyte : 256 * n + (u <<< 4 ||| v).toNat = 16 * (16 * n + digitValue a) + digitValue b := by
      rw [toNat_nibbles (hexValue_digit hu).1 (hexValue_digit hv).1, digitValue_eq hu,
        digitValue_eq hv]
      omega
    rw [List.filterMap_cons_some hu, List.filterMap_cons_some hv, hexPairs, List.foldl_cons, hbyte,
      ih hrest (even_rest heven), List.foldl_cons, List.foldl_cons]

theorem isHexDigit_of_mem_paired {s : String} {d : UInt8} (h : d ∈ paired (digits s)) :
    isHexDigit d = true := isHexDigit_of_mem (paired_subset _ h)

/-- What `parse_hex` reads is the number of the digits without an odd last one. -/
theorem bytesValue_parseHex (s : String) :
    bytesValue (parseHex s) = spelled (paired (digits s)) := by
  rw [parseHex_digits, ← hexPairs_paired fun _ => isHexDigit_of_mem]
  exact foldl_hexPairs (fun _ => isHexDigit_of_mem_paired) (length_paired _) 0

theorem spelled_append_singleton (ds : Bytes) (d : UInt8) :
    spelled (ds ++ [d]) = 16 * spelled ds + digitValue d := by
  simp [spelled]

theorem spelled_zero_cons (ds : Bytes) : spelled (48 :: ds) = spelled ds := by
  simp [spelled, digitValue]

/-! ## The configured key -/

/-- The text begins with `0x`. -/
def marked (s : String) : Bool := [48, 120].isPrefixOf (bytesOf s)

/-- The digits of the text behind an optional `0x`. -/
def keyDigits (s : String) : Bytes :=
  ((bytesOf s).drop (if marked s then 2 else 0)).filter isHexDigit

/-- The `0` of the mark is a hex digit of the text, the `x` is not. -/
theorem digits_of_marked {s : String} (h : marked s = true) : digits s = 48 :: keyDigits s := by
  obtain ⟨rest, hrest⟩ := List.isPrefixOf_iff_prefix.mp h
  have h48 : isHexDigit 48 = true := by decide
  have h120 : isHexDigit 120 = false := by decide
  rw [digits, keyDigits, if_pos h, ← hrest]
  simp [h48, h120]

theorem digits_of_unmarked {s : String} (h : marked s = false) : digits s = keyDigits s := by
  simp [digits, keyDigits, h]

/-- The order of the curve: keys are the numbers below it, except zero. -/
def curveOrder : Nat := 0xfffffffffffffffffffffffffffffffebaaedce6af48a03bbfd25e8cd0364141

/-- What the crate documents of `SecretKey::from_slice`: 32 bytes that spell a
number in the range of the curve. -/
def KeysInRange (secp : Secp256k1) : Prop :=
  ∀ bytes, (∃ key, secp.secretKeyFromSlice bytes = .ok key) ↔
    bytes.length = 32 ∧ 0 < bytesValue bytes ∧ bytesValue bytes < curveOrder

/-- The texts that are refused, and the ones read digit by digit. -/
def ReadsExactly (s : String) : Prop :=
  ((digits s).length ≠ 64 ∧ (digits s).length ≠ 65) ∨
    ¬ (0 < spelled (paired (digits s)) ∧ spelled (paired (digits s)) < curveOrder) ∨
    (marked s = false ∧ (digits s).length = 64)

namespace CallbackClientImpl
variable {self : CallbackClientImpl} {crates : Crates}

/-- `sign` is made with the key that all 64 digits of the configured text spell. -/
def SignedAsConfigured (self : CallbackClientImpl) (crates : Crates) (body sign : String) : Prop :=
  (keyDigits self.secpPrivateKey).length = 64 ∧
  (parseHex self.secpPrivateKey).length = 32 ∧
  bytesValue (parseHex self.secpPrivateKey) = spelled (keyDigits self.secpPrivateKey) ∧
  ∃ message key,
    crates.secp.messageFromSlice (crates.sha256 (bytesOf body)) = .ok message ∧
    crates.secp.secretKeyFromSlice (parseHex self.secpPrivateKey) = .ok key ∧
    sign = toHex (crates.secp.serializeCompact (crates.secp.sign message key))

/-- Every signature is made with the configured key, and there is none when the
text has another number of digits. -/
def SignsAsConfigured (self : CallbackClientImpl) (crates : Crates) : Prop :=
  ∀ body,
    (∀ sign, self.createSign crates body = .ok sign → self.SignedAsConfigured crates body sign) ∧
    ((keyDigits self.secpPrivateKey).length ≠ 64 → ∃ e, self.createSign crates body = .error e)

/-- When the configured text is accepted as a key. -/
theorem accepts_iff (hkeys : KeysInRange crates.secp) (s : String) :
    (∃ key, crates.secp.secretKeyFromSlice (parseHex s) = .ok key) ↔
      ((digits s).length = 64 ∨ (digits s).length = 65) ∧
        0 < spelled (paired (digits s)) ∧ spelled (paired (digits s)) < curveOrder := by
  rw [hkeys, length_parseHex, bytesValue_parseHex]
  have hlen : (digits s).length / 2 = 32 ↔ (digits s).length = 64 ∨ (digits s).length = 65 := by
    omega
  rw [hlen]

theorem createSign_of_accepts {body : String} {message : crates.secp.Message}
    {key : crates.secp.SecretKey}
    (hm : crates.secp.messageFromSlice (crates.sha256 (bytesOf body)) = .ok message)
    (hk : crates.secp.secretKeyFromSlice (parseHex self.secpPrivateKey) = .ok key) :
    self.createSign crates body =
      .ok (toHex (crates.secp.serializeCompact (crates.secp.sign message key))) := by
  simp [createSign, hm, hk, Except.mapError, bind, Except.bind]

/-- An accepted text of another shape gives a signature with another key: with
`0x` in front the mark's own `0` is read, and a digit without a partner is not. -/
theorem not_signsAsConfigured (hkeys : KeysInRange crates.secp)
    (hmessage : ∃ body message,
      crates.secp.messageFromSlice (crates.sha256 (bytesOf body)) = .ok message)
    (hlen : (digits self.secpPrivateKey).length = 64 ∨ (digits self.secpPrivateKey).length = 65)
    (hpos : 0 < spelled (paired (digits self.secpPrivateKey)))
    (hlt : spelled (paired (digits self.secpPrivateKey)) < curveOrder)
    (hshape : marked self.secpPrivateKey = true ∨ (digits self.secpPrivateKey).length ≠ 64) :
    ¬ self.SignsAsConfigured crates := by
  intro hall
  obtain ⟨body, message, hm⟩ := hmessage
  obtain ⟨key, hk⟩ := (accepts_iff hkeys self.secpPrivateKey).mpr ⟨hlen, hpos, hlt⟩
  obtain ⟨h64, -, hvalue, -⟩ := (hall body).1 _ (createSign_of_accepts hm hk)
  cases hmark : marked self.secpPrivateKey with
  | false =>
    -- without the mark the digits are all the digits, here an odd number of them
    rw [digits_of_unmarked hmark] at hshape
    rcases hshape with h | h
    · exact absurd (hmark.symm.trans h) (by decide)
    · exact h h64
  | true =>
    -- the mark's `0` moves every digit by one place, and the last one is lost
    have hds := digits_of_marked hmark
    have hne : keyDigits self.secpPrivateKey ≠ [] := by
      intro hnil
      simp [hnil] at h64
    have hpaired : paired (digits self.secpPrivateKey) =
        48 :: (keyDigits self.secpPrivateKey).dropLast := by
      rw [hds, paired, if_pos (by simp [h64]), List.dropLast_cons_of_ne_nil hne]
    have hsplit : spelled (keyDigits self.secpPrivateKey) =
        16 * spelled (keyDigits self.secpPrivateKey).dropLast +
          digitValue ((keyDigits self.secpPrivateKey).getLast hne) := by
      rw [← spelled_append_singleton, List.dropLast_concat_getLast hne]
    rw [bytesValue_parseHex, hpaired, spelled_zero_cons] at hvalue
    rw [hpaired, spelled_zero_cons] at hpos
    omega

theorem signsAsConfigured_of_readsExactly (hkeys : KeysInRange crates.secp)
    (h : ReadsExactly self.secpPrivateKey) : self.SignsAsConfigured crates := by
  intro body
  have hok : ∀ sign, self.createSign crates body = .ok sign →
      self.SignedAsConfigured crates body sign := by
    intro sign hsign
    obtain ⟨message, key, hm, hk, heq⟩ := createSign_ok self crates hsign
    obtain ⟨hlen, hrange⟩ := (accepts_iff hkeys self.secpPrivateKey).mp ⟨key, hk⟩
    obtain ⟨h64, h65⟩ | hout | ⟨hmark, h64⟩ := h
    · omega
    · exact absurd hrange hout
    · have hpaired : paired (digits self.secpPrivateKey) = keyDigits self.secpPrivateKey := by
        rw [paired, if_neg (by omega), digits_of_unmarked hmark]
      refine ⟨?_, ?_, ?_, message, key, hm, hk, heq⟩
      · rw [← digits_of_unmarked hmark, h64]
      · rw [length_parseHex, h64]
      · rw [bytesValue_parseHex, hpaired]
  refine ⟨hok, fun hne => ?_⟩
  cases hsign : self.createSign crates body with
  | error e => exact ⟨e, rfl⟩
  | ok sign => exact absurd (hok sign hsign).1 hne

/-- Signing as configured is possible for no other texts. -/
theorem readsExactly_of_signsAsConfigured (hkeys : KeysInRange crates.secp)
    (hmessage : ∃ body message,
      crates.secp.messageFromSlice (crates.sha256 (bytesOf body)) = .ok message)
    (hall : self.SignsAsConfigured crates) : ReadsExactly self.secpPrivateKey := by
  by_cases hlen : (digits self.secpPrivateKey).length = 64 ∨ (digits self.secpPrivateKey).length = 65
  · by_cases hrange : 0 < spelled (paired (digits self.secpPrivateKey)) ∧
        spelled (paired (digits self.secpPrivateKey)) < curveOrder
    · by_cases hshape : marked self.secpPrivateKey = false ∧ (digits self.secpPrivateKey).length = 64
      · exact Or.inr (Or.inr hshape)
      · refine absurd hall (not_signsAsConfigured hkeys hmessage hlen hrange.1 hrange.2 ?_)
        cases hmark : marked self.secpPrivateKey with
        | true => exact Or.inl rfl
        | false => exact Or.inr fun h64 => hshape ⟨hmark, h64⟩
    · exact Or.inr (Or.inl hrange)
  · rw [not_or] at hlen
    exact Or.inl hlen

end CallbackClientImpl

end PaymentsNotifications.Client
