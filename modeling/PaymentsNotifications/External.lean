import PaymentsNotifications.Models.Notifications
import PaymentsNotifications.Utils

/-! The crates the service rests on, as parameters: JSON (`serde_json`), request
building (`http`), SHA-256 (`sha2`) and signatures (`secp256k1`). Nothing is
assumed of them here; the results that need a property of one of them name it. -/

namespace PaymentsNotifications.External
open Models Utils

inductive JsonError where
  | invalid
  deriving DecidableEq, Repr

/-- `serde_json` at the types the service uses it with. Writing structs of
strings, identifiers and enums cannot fail; reading can. -/
structure SerdeJson where
  callbackToString : Callback → String
  emailToString : Email → String
  pushToString : PushNotifications → String
  payloadToString : SendGridPayload → String
  callbackFromStr : String → Except JsonError Callback
  emailFromStr : String → Except JsonError Email
  unitFromStr : String → Except JsonError Unit

/-- JSON whitespace. -/
def isJsonSpace (c : Char) : Bool := c == ' ' || c == '\n' || c == '\t' || c == '\r'

/-- The JSON text `null`, with whitespace around it. -/
def isJsonNull (s : String) : Bool :=
  ((s.toList.dropWhile isJsonSpace).reverse.dropWhile isJsonSpace).reverse == ['n', 'u', 'l', 'l']

/-- `serde_json` reads `()` from the JSON text `null` and from nothing else. -/
def SerdeJson.UnitIsNull (json : SerdeJson) : Prop :=
  ∀ s, json.unitFromStr s = .ok () ↔ isJsonNull s = true

inductive SecpError where
  | invalidMessage
  | invalidSecretKey
  deriving DecidableEq, Repr

structure Secp256k1 where
  Message : Type
  SecretKey : Type
  PublicKey : Type
  Signature : Type
  messageFromSlice : Bytes → Except SecpError Message
  secretKeyFromSlice : Bytes → Except SecpError SecretKey
  publicKey : SecretKey → PublicKey
  sign : Message → SecretKey → Signature
  verify : Message → Signature → PublicKey → Bool
  serializeCompact : Signature → Bytes
  signatureFromCompact : Bytes → Option Signature

/-- What the documentation of the crate promises about signatures. -/
structure Secp256k1.Sound (secp : Secp256k1) : Prop where
  verifies : ∀ m k, secp.verify m (secp.sign m k) (secp.publicKey k) = true
  compact_length : ∀ s, (secp.serializeCompact s).length = 64
  compact_inverse : ∀ s, secp.signatureFromCompact (secp.serializeCompact s) = some s

/-- Which texts `http::request::Builder` accepts. -/
structure HttpCrate where
  validUri : String → Bool
  validHeaderValue : String → Bool

structure Crates where
  json : SerdeJson
  http : HttpCrate
  sha256 : Bytes → Bytes
  secp : Secp256k1

end PaymentsNotifications.External
