import Mathlib.Tactic.Common

/-! Bytes and strings (`utils.rs`). A string is a sequence of bytes known to be
UTF-8, `bytesOf` is `as_bytes` and `fromUtf8` is `String::from_utf8`. -/

namespace PaymentsNotifications.Utils

abbrev Bytes := List UInt8

def bytesOf (s : String) : Bytes := s.toByteArray.data.toList

inductive Utf8Error where
  | invalid
  deriving DecidableEq, Repr

def fromUtf8 (bytes : Bytes) : Except Utf8Error String :=
  match String.fromUTF8? ⟨bytes.toArray⟩ with
  | some s => .ok s
  | none => .error .invalid

theorem fromUtf8_bytesOf (s : String) : fromUtf8 (bytesOf s) = .ok s := by
  have h : (⟨(bytesOf s).toArray⟩ : ByteArray) = s.toByteArray := by simp [bytesOf]
  rw [fromUtf8, h, String.fromUTF8?, dif_pos s.isValidUTF8]
  rfl

theorem bytesOf_ofList (l : List Char) :
    bytesOf (String.ofList l) = l.flatMap String.utf8EncodeChar := by
  simp [bytesOf, List.utf8Encode]

/-! ## Hex -/

/-- The value of one byte of the text, when it is a hex digit. -/
def hexValue (b : UInt8) : Option UInt8 :=
  if 48 ≤ b ∧ b ≤ 57 then some (b - 48)
  else if 97 ≤ b ∧ b ≤ 102 then some (b - 97 + 10)
  else if 65 ≤ b ∧ b ≤ 70 then some (b - 65 + 10)
  else none

/-- The loop of `parse_hex`: two digits at a time, an odd last one is dropped. -/
def hexPairs : List UInt8 → Bytes
  | h :: l :: rest => (h <<< 4 ||| l) :: hexPairs rest
  | _ => []

def parseHex (hexAsm : String) : Bytes := hexPairs ((bytesOf hexAsm).filterMap hexValue)

def chars : List UInt8 := bytesOf "0123456789abcdef"

/-- The two digits of a byte. -/
def hexDigits (byte : UInt8) : Bytes :=
  [chars.getD (byte >>> 4).toNat 0, chars.getD (byte &&& 0xf).toNat 0]

/-- The bytes `to_hex` collects in its vector. -/
def toHexBytes (bytes : Bytes) : Bytes := bytes.flatMap hexDigits

/-- `to_hex`: the vector, taken as a string without a check. -/
def toHex (bytes : Bytes) : String := String.ofList ((toHexBytes bytes).map fun b => Char.ofNat b.toNat)

/-- A fact of every byte follows from its sixteen times sixteen cases. -/
theorem forall_byte {P : UInt8 → Prop} (h : ∀ m n : Fin 16, P (UInt8.ofNat (16 * m + n)))
    (b : UInt8) : P b := by
  have hlt := b.toNat_lt
  have hb := h ⟨b.toNat / 16, by omega⟩ ⟨b.toNat % 16, by omega⟩
  simpa only [Nat.div_add_mod, UInt8.ofNat_toNat] using hb

/-- What one byte turns into: two ASCII digits that read back as the byte. -/
theorem hexDigits_spec :
    ∀ byte : UInt8, (hexDigits byte).filterMap hexValue = [byte >>> 4, byte &&& 0xf] ∧
      (byte >>> 4) <<< 4 ||| (byte &&& 0xf) = byte ∧
      (hexDigits byte).flatMap (fun b => String.utf8EncodeChar (Char.ofNat b.toNat)) =
        hexDigits byte :=
  forall_byte (by decide)

/-- The unchecked conversion is sound: the string's bytes are the vector. -/
theorem bytesOf_toHex (bytes : Bytes) : bytesOf (toHex bytes) = toHexBytes bytes := by
  rw [toHex, bytesOf_ofList, List.flatMap_map, toHexBytes]
  induction bytes with
  | nil => rfl
  | cons byte bytes ih =>
    simp only [List.flatMap_cons, List.flatMap_append, ih]
    congr 1
    exact (hexDigits_spec byte).2.2

theorem parseHex_toHex (bytes : Bytes) : parseHex (toHex bytes) = bytes := by
  rw [parseHex, bytesOf_toHex, toHexBytes]
  induction bytes with
  | nil => rfl
  | cons byte bytes ih =>
    obtain ⟨hd, hv, -⟩ := hexDigits_spec byte
    rw [List.flatMap_cons, List.filterMap_append, hd, List.cons_append, List.cons_append,
      List.nil_append, hexPairs, ih, hv]

end PaymentsNotifications.Utils
