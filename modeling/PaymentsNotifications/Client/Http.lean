import PaymentsNotifications.Error
import PaymentsNotifications.External
import PaymentsNotifications.Transport

/-! `HttpClientImpl` (`client/http_client/mod.rs`). At the log levels Debug and
Trace the bodies of the request and of the response are drained for the log and
rebuilt; at the other levels they are passed on untouched. -/

namespace PaymentsNotifications.Client
open Futures Futures.Fut Utils Transport External

/-- `log::LevelFilter`. -/
inductive LevelFilter where
  | off
  | error
  | warn
  | info
  | debug
  | trace
  deriving DecidableEq, Repr

/-- `level == Level::Debug || level == Level::Trace`. -/
def LevelFilter.logsBodies (level : LevelFilter) : Bool := level == .debug || level == .trace

/-- The level is the global `log::max_level()`, set once at start-up. -/
structure HttpClientImpl where
  maxLevel : LevelFilter
  deriving DecidableEq, Repr

/-- The end of `request`: statuses 4xx and 5xx are errors. -/
def checkStatus (resp : Response) : Except HttpError Response :=
  if resp.status.isClientError || resp.status.isServerError then
    match resp.status.asU16 with
    | 400 => .error ⟨.badRequest, some .server⟩
    | 401 | 403 => .error ⟨.unauthorized, some .server⟩
    | 404 => .error ⟨.notFound, some .server⟩
    | 500 => .error ⟨.internal, some .server⟩
    | 502 => .error ⟨.badGateway, some .server⟩
    | 504 => .error ⟨.gatewayTimeout, some .server⟩
    | _ => .error ⟨.unknownServerError, some .server⟩
  else .ok resp

/-- The statuses the check lets pass. -/
def accepted (status : StatusCode) : Bool := !(status.isClientError || status.isServerError)

theorem checkStatus_accepted {resp : Response} (h : accepted resp.status = true) :
    checkStatus resp = .ok resp := by
  have hno : ¬ (resp.status.isClientError || resp.status.isServerError) = true := by
    simpa [accepted] using h
  exact if_neg hno

/-- The error depends on the status alone. -/
theorem checkStatus_refused {status : StatusCode} (h : accepted status = false) :
    ∃ e, ∀ body, checkStatus ⟨status, body⟩ = .error e := by
  have hyes : (status.isClientError || status.isServerError) = true := (Bool.not_eq_false' ..).mp h
  have herr : ∀ body, ∃ e, checkStatus ⟨status, body⟩ = .error e := by
    intro body
    unfold checkStatus
    rw [if_pos hyes]
    split <;> exact ⟨_, rfl⟩
  obtain ⟨e, he⟩ := herr (Body.from [])
  refine ⟨e, fun body => ?_⟩
  rw [← he]
  unfold checkStatus
  rw [if_pos hyes, if_pos hyes]

def HttpClientImpl.request (self : HttpClientImpl) (req : Request) :
    Fut Wire (Except HttpError Response) :=
  let hyperError : HyperError → HttpError := ectx .internal (some .hyper)
  let fut : Fut Wire (Except HttpError Response) :=
    if self.maxLevel.logsBodies then
      ((((Fut.ready (readBody req.body)).mapErr hyperError).andThen fun body =>
          (perform (σ := Wire) (.http { req with body := Body.from body })).mapErr hyperError).andThen
        fun resp => ((Fut.ready (readBody resp.body)).mapErr hyperError).map fun body =>
          (resp.status, body)).map
        fun (status, body) => ⟨status, Body.from body⟩
    else (perform (σ := Wire) (.http req)).mapErr hyperError
  fut.andThen fun resp => .ready (checkStatus resp)

/-- What the client makes of the transport's answer. -/
def HttpClientImpl.received (self : HttpClientImpl) (answer : Except HyperError Response) :
    Except HttpError Response :=
  match answer with
  | .error _ => .error ⟨.internal, some .hyper⟩
  | .ok resp =>
    if self.maxLevel.logsBodies then
      match readBody resp.body with
      | .error _ => .error ⟨.internal, some .hyper⟩
      | .ok body => checkStatus ⟨resp.status, Body.from body⟩
    else checkStatus resp

/-- One request goes out, with the body it was built with at every log level. -/
theorem HttpClientImpl.request_eq (self : HttpClientImpl) (req : Request) (bytes : Bytes)
    (hb : req.body = Body.from bytes) :
    self.request req = .call (.http req) fun answer => .ready (self.received answer) := by
  have hreq : { req with body := Body.from bytes } = req := by rw [← hb]
  unfold HttpClientImpl.request
  cases hl : self.maxLevel.logsBodies with
  | false =>
    simp only [Bool.false_eq_true, if_false, perform, mapErr, andThen, call_bind]
    congr 1
    funext answer
    cases answer <;> simp [received, hl, ectx]
  | true =>
    rw [hb, readBody_from]
    simp only [if_true, mapErr, andThen, Fut.map, ready_bind, perform, call_bind]
    rw [hreq]
    congr 1
    funext answer
    cases answer with
    | error e => simp [received, ectx]
    | ok resp =>
      cases hr : readBody resp.body <;> simp [received, hl, hr, ectx]

/-- `Request::builder()` with its `uri`, `method` and `header` calls, up to `body`. -/
def buildRequest (http : HttpCrate) (uri : String) (headers : List (String × String))
    (body : Body) : Except Unit Request :=
  if http.validUri uri && headers.all fun header => http.validHeaderValue header.2 then
    .ok ⟨.post, uri, headers, body⟩
  else .error ()

end PaymentsNotifications.Client
