import PaymentsNotifications.Client.SecretKey
import PaymentsNotifications.Server.Process

/-! Signatures of callbacks. What is signed is the JSON text, what is sent is its
bytes; between the two stand hex coding, request building and, when bodies are
logged, a body that is drained and rebuilt. -/

namespace PaymentsNotifications.Server
open Futures Futures.Fut Models Utils Transport External Client Services

namespace Process
variable (self : Process)

/-- `h` is the hex text of a compact signature of `bytes` under the configured key. -/
def SignatureOf (bytes : Bytes) (h : String) : Prop :=
  ∃ message secretKey signature,
    self.crates.secp.messageFromSlice (self.crates.sha256 bytes) = .ok message ∧
    self.crates.secp.secretKeyFromSlice (parseHex self.config.client.secpPrivateKey) =
      .ok secretKey ∧
    (parseHex h).length = 64 ∧
    self.crates.secp.signatureFromCompact (parseHex h) = some signature ∧
    self.crates.secp.verify message signature (self.crates.secp.publicKey secretKey) = true

/-- Every request of the run carries these bytes and this one header. -/
def Carries (bytes : Bytes) (sign : String) (log : List (Entry Wire)) : Prop :=
  ∀ entry ∈ log, ∀ req, entry.call = .http req →
    readBody req.body = .ok bytes ∧ req.headers = [("Sign", sign)]

/-- An attempt hands over this request and nothing else, whatever it is answered. -/
def PostsOnce (n : Notification) (req : Request) : Prop :=
  ∀ (deadline : Nat) (env : Env Wire) (i now : Nat),
    ((self.notificator.send n).runUntil deadline env i now).log.map Entry.call = [.http req]

theorem postsOnce {n : Notification} {req : Request} (h : self.request n = .ok req) :
    self.PostsOnce n req := by
  intro deadline env i now
  rw [self.send_ok h, runUntil_call]
  by_cases hin : now + (env i (.http req)).2 ≤ deadline
  · rw [if_pos hin]
    rfl
  · rw [if_neg hin]
    rfl

theorem createSign_signs (hsecp : self.crates.secp.Sound) {body sign : String}
    (h : self.callbackClient.createSign self.crates body = .ok sign) :
    self.SignatureOf (bytesOf body) sign := by
  obtain ⟨message, secretKey, hm, hk, rfl⟩ := CallbackClientImpl.createSign_ok _ _ h
  refine ⟨message, secretKey, self.crates.secp.sign message secretKey, hm, hk, ?_, ?_, ?_⟩
  · rw [parseHex_toHex]
    exact hsecp.compact_length _
  · rw [parseHex_toHex]
    exact hsecp.compact_inverse _
  · exact hsecp.verifies message secretKey

/-- Whatever the log level, the deadline and the answers, all attempts post the
same bytes with the same valid signature of exactly these bytes; and each attempt posts
once, when its request can be built. -/
theorem callbacks_signed (hsecp : self.crates.secp.Sound) (callback : Callback)
    (hsign : (self.callbackClient.createSign self.crates
      (self.crates.json.callbackToString callback)).isOk) :
    ∃ sign, self.SignatureOf (bytesOf (self.crates.json.callbackToString callback)) sign ∧
      (∀ (level : LevelFilter) (deadline : Nat) (env : Env Wire),
        Carries (bytesOf (self.crates.json.callbackToString callback)) sign
          (((self.atLevel level).notificator.sendCallback callback).runUntil deadline env 0 0).log) ∧
      ∀ (level : LevelFilter) (req : Request), self.request (.callback callback) = .ok req →
        (self.atLevel level).PostsOnce (.callback callback) req := by
  obtain ⟨sign, hs⟩ := exists_of_isOk hsign
  refine ⟨sign, self.createSign_signs hsecp hs, fun level deadline env entry hmem req hcall => ?_,
    fun level req hreq => (self.atLevel level).postsOnce ((self.request_atLevel _ level).trans hreq)⟩
  rw [sendCallback_eq] at hmem
  have hreq := (self.atLevel level).deliver_requests (.callback callback) deadline env 0 0
    entry hmem req hcall
  rw [request_atLevel] at hreq
  obtain ⟨sign', hs', rfl⟩ := CallbackClientImpl.signedRequest_ok _ _ hreq
  obtain rfl : sign = sign' := Except.ok.inj (hs.symm.trans hs')
  exact ⟨readBody_from _, rfl⟩

end Process

theorem exampleSecp_sound : exampleSecp.Sound where
  verifies _ _ := beq_self_eq_true exampleSignature
  compact_length signature := signature.property
  compact_inverse signature := dif_pos signature.property

/-- The example callback, signed with the secret key 1. -/
theorem callbacks_signed_example :
    ∃ sign, exampleProcess.SignatureOf (bytesOf exampleCallbackJson) sign ∧
      (∀ (level : LevelFilter) (deadline : Nat) (env : Env Wire),
        Process.Carries (bytesOf exampleCallbackJson) sign
          (((exampleProcess.atLevel level).notificator.sendCallback exampleCallback).runUntil
            deadline env 0 0).log) ∧
      ∀ (level : LevelFilter) (req : Request),
        exampleProcess.request (.callback exampleCallback) = .ok req →
        (exampleProcess.atLevel level).PostsOnce (.callback exampleCallback) req :=
  exampleProcess.callbacks_signed exampleSecp_sound exampleCallback (by decide)

/-! ## The signing key -/

/-- **When the signer keeps to the configured key.** -/
theorem Process.signs_as_configured_iff (self : Process) (hkeys : KeysInRange self.crates.secp)
    (hmessage : ∃ body message,
      self.crates.secp.messageFromSlice (self.crates.sha256 (bytesOf body)) = .ok message) :
    self.callbackClient.SignsAsConfigured self.crates ↔
      ReadsExactly self.config.client.secpPrivateKey := by
  constructor
  · intro hall
    exact CallbackClientImpl.readsExactly_of_signsAsConfigured hkeys hmessage hall
  · intro hread
    exact CallbackClientImpl.signsAsConfigured_of_readsExactly hkeys hread

/-- `exampleSecp` with the check of the key's range. -/
def rangeSecp : Secp256k1 :=
  { exampleSecp with
    secretKeyFromSlice := fun bytes =>
      if bytes.length = 32 ∧ 0 < bytesValue bytes ∧ bytesValue bytes < curveOrder then .ok bytes
      else .error .invalidSecretKey }

theorem rangeSecp_keysInRange : KeysInRange rangeSecp := by
  intro bytes
  by_cases h : bytes.length = 32 ∧ 0 < bytesValue bytes ∧ bytesValue bytes < curveOrder
  · simp [rangeSecp, exampleSecp, h]
  · simp [rangeSecp, exampleSecp, h]

theorem rangeSecp_message :
    ∃ body message, rangeSecp.messageFromSlice ((fun _ => exampleDigest) (bytesOf body)) =
      .ok message :=
  ⟨exampleCallbackJson, exampleDigest, rfl⟩

/-- The example process with another text for the key. -/
def processWithKey (secpPrivateKey : String) : Process :=
  { exampleProcess with
    crates := { exampleProcess.crates with secp := rangeSecp }
    config :=
      { exampleConfig with client := { exampleConfig.client with secpPrivateKey := secpPrivateKey } } }

def markedKey : String := "0x0000000000000000000000000000000000000000000000000000000000000010"

/-- The key 1 without a mark is read as it is. -/
theorem signs_as_configured_plain :
    (processWithKey exampleConfig.client.secpPrivateKey).callbackClient.SignsAsConfigured
      (processWithKey exampleConfig.client.secpPrivateKey).crates :=
  ((processWithKey exampleConfig.client.secpPrivateKey).signs_as_configured_iff
    rangeSecp_keysInRange rangeSecp_message).mpr (Or.inr (Or.inr (by decide)))

/-- The key 16 behind `0x`: the callbacks are signed with the key 1. -/
theorem marked_key_shifted :
    ¬ (processWithKey markedKey).callbackClient.SignsAsConfigured
      (processWithKey markedKey).crates :=
  CallbackClientImpl.not_signsAsConfigured rangeSecp_keysInRange rangeSecp_message
    (by decide) (by decide) (by decide) (by decide)

end PaymentsNotifications.Server
