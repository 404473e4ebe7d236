import PaymentsNotifications.Client.Query

/-! `CallbackClientImpl` (`client/callback/mod.rs`): a callback is posted to its
own url as JSON, with a signature of the JSON text in the header `Sign`. -/

namespace PaymentsNotifications.Client
open Futures Futures.Fut Utils Transport External Models

structure CallbackClientImpl where
  cli : HttpClientImpl
  secpPrivateKey : String
  deriving DecidableEq, Repr

namespace CallbackClientImpl
variable (self : CallbackClientImpl) (crates : Crates) {α : Type}

def createSign (body : String) : Except ClientError String := do
  let bytes := crates.sha256 (bytesOf body)
  let message ← (crates.secp.messageFromSlice bytes).mapError (ectx .internal none)
  let secretKey ←
    (crates.secp.secretKeyFromSlice (parseHex self.secpPrivateKey)).mapError (ectx .internal none)
  let compact := crates.secp.serializeCompact (crates.secp.sign message secretKey)
  .ok (toHex compact)

/-- The first two steps of `exec_query`. -/
def signedRequest (url body : String) : Except ClientError Request := do
  let sign ← (self.createSign crates body).mapError (ectx .malformedInput (some .hyper))
  buildRequestFor crates.http url [("Sign", sign)] body

def execQuery (fromStr : String → Except JsonError α) (url body : String) :
    Fut Wire (Except ClientError α) :=
  query self.cli (readJson fromStr) (self.signedRequest crates url body)

def send (callback : Callback) : Fut Wire (Except ClientError Unit) :=
  self.execQuery crates crates.json.unitFromStr callback.url (crates.json.callbackToString callback)

/-- What a successful `create_sign` went through. -/
theorem createSign_ok {body sign : String} (h : self.createSign crates body = .ok sign) :
    ∃ message secretKey,
      crates.secp.messageFromSlice (crates.sha256 (bytesOf body)) = .ok message ∧
      crates.secp.secretKeyFromSlice (parseHex self.secpPrivateKey) = .ok secretKey ∧
      sign = toHex (crates.secp.serializeCompact (crates.secp.sign message secretKey)) := by
  unfold createSign at h
  cases hm : crates.secp.messageFromSlice (crates.sha256 (bytesOf body)) with
  | error e => simp [hm, Except.mapError, bind, Except.bind] at h
  | ok message =>
    cases hk : crates.secp.secretKeyFromSlice (parseHex self.secpPrivateKey) with
    | error e => simp [hm, hk, Except.mapError, bind, Except.bind] at h
    | ok secretKey =>
      simp only [hm, hk, Except.mapError, bind, Except.bind, Except.ok.injEq] at h
      exact ⟨message, secretKey, rfl, rfl, h.symm⟩

/-- A request that goes out is the signed JSON text. -/
theorem signedRequest_ok {url body : String} {req : Request}
    (h : self.signedRequest crates url body = .ok req) :
    ∃ sign, self.createSign crates body = .ok sign ∧
      req = ⟨.post, url, [("Sign", sign)], Body.from (bytesOf body)⟩ := by
  unfold signedRequest at h
  cases hs : self.createSign crates body with
  | error e => simp [hs, Except.mapError, bind, Except.bind] at h
  | ok sign =>
    simp only [hs, Except.mapError, bind, Except.bind] at h
    obtain ⟨-, hreq⟩ := buildRequestFor_ok.mp h
    exact ⟨sign, rfl, hreq⟩

/-- The request of an attempt, the same for every attempt and every log level. -/
def request (callback : Callback) : Except ClientError Request :=
  self.signedRequest crates callback.url (crates.json.callbackToString callback)

end CallbackClientImpl

end PaymentsNotifications.Client
