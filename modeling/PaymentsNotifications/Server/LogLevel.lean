import PaymentsNotifications.Server.Process

/-! The log level and the outcome of an attempt. Debug and Trace read the
response's body before the status is looked at; the result is the same, except
for an email whose accepted response breaks off. -/

namespace PaymentsNotifications.Server
open Futures Futures.Fut Models Utils Transport External Client Services

namespace Process

/-- The same answer, with the body cut into chunks in another way. -/
def SameUpToSplit : Except HyperError Response → Except HyperError Response → Prop
  | .ok resp, .ok resp' => resp.status = resp'.status ∧ resp.body.ending = resp'.body.ending ∧
      resp.body.chunks.flatten = resp'.body.chunks.flatten
  | .error e, .error e' => e = e'
  | _, _ => False

/-- Logging does not change whether the attempt succeeds, nor does the way the
body is split, at any level. -/
def LogTransparent (self : Process) (n : Notification) (answer : Except HyperError Response) :
    Prop :=
  (∀ level lower : LevelFilter, level.logsBodies = true → lower.logsBodies = false →
    (((self.atLevel level).sent n answer).isOk ↔ ((self.atLevel lower).sent n answer).isOk)) ∧
  ∀ answer', SameUpToSplit answer answer' → ∀ level : LevelFilter,
    (self.atLevel level).sent n answer = (self.atLevel level).sent n answer'

/-- An email was accepted, and the response's body ends with a stream error. -/
def BreaksOff (self : Process) (n : Notification) (answer : Except HyperError Response) : Prop :=
  (∃ email, n = .email email) ∧ (∃ req, self.request n = .ok req) ∧
    ∃ resp, answer = .ok resp ∧ accepted resp.status = true ∧ resp.body.ending = .failed

variable (self : Process)

theorem readBody_split {body body' : Body} (hend : body.ending = body'.ending)
    (hchunks : body.chunks.flatten = body'.chunks.flatten) : readBody body = readBody body' := by
  simp only [readBody, hend, hchunks]

/-- At no level does an attempt see how the body was split. -/
theorem verdict_split (n : Notification) {answer answer' : Except HyperError Response}
    (h : SameUpToSplit answer answer') :
    verdict self.client (self.consume n) answer = verdict self.client (self.consume n) answer' := by
  cases answer with
  | error e =>
    cases answer' with
    | error e' => rw [show e = e' from h]
    | ok resp' => exact h.elim
  | ok resp =>
    cases answer' with
    | error e' => exact h.elim
    | ok resp' =>
      obtain ⟨status, body⟩ := resp
      obtain ⟨status', body'⟩ := resp'
      obtain ⟨hstatus, hend, hchunks⟩ := h
      obtain rfl : status = status' := hstatus
      have hread := readBody_split hend hchunks
      have hconsume : self.consume n ⟨status, body⟩ = self.consume n ⟨status, body'⟩ := by
        cases n <;> simp only [consume, readJson, hread]
      unfold verdict HttpClientImpl.received
      cases self.client.maxLevel.logsBodies with
      | true => simp only [if_true, hread]
      | false =>
        simp only [Bool.false_eq_true, if_false]
        cases ha : accepted status with
        | true =>
          have hchecked : ∀ b : Body, checkStatus ⟨status, b⟩ = .ok ⟨status, b⟩ :=
            fun _ => checkStatus_accepted ha
          rw [hchecked body, hchecked body']
          exact hconsume
        | false =>
          obtain ⟨e, he⟩ := checkStatus_refused ha
          rw [he, he]

theorem sent_split (n : Notification) {answer answer' : Except HyperError Response}
    (h : SameUpToSplit answer answer') (level : LevelFilter) :
    (self.atLevel level).sent n answer = (self.atLevel level).sent n answer' := by
  cases hreq : (self.atLevel level).request n with
  | error e => rw [sent_error _ hreq, sent_error _ hreq]
  | ok req => rw [sent_ok _ hreq, sent_ok _ hreq, verdict_split _ n h]

/-- Where no accepted email breaks off, all levels accept the same answers. -/
theorem accepts_level {n : Notification} {req : Request} (hreq : self.request n = .ok req)
    {answer : Except HyperError Response} (h : ¬ self.BreaksOff n answer)
    (level lower : LevelFilter) :
    (self.atLevel level).accepts n answer = (self.atLevel lower).accepts n answer := by
  cases answer with
  | error e => rw [accepts_error, accepts_error]
  | ok resp =>
    cases n with
    | push push => rw [accepts_json _ rfl, accepts_json _ rfl]; rfl
    | callback callback => rw [accepts_json _ rfl, accepts_json _ rfl]; rfl
    | email email =>
      rw [accepts_email, accepts_email]
      cases ha : accepted resp.status with
      | false => rw [Bool.false_and, Bool.false_and]
      | true =>
        have hend : resp.body.ending = .finished := by
          cases hend : resp.body.ending with
          | finished => rfl
          | failed => exact (h ⟨⟨email, rfl⟩, ⟨req, hreq⟩, resp, rfl, ha, hend⟩).elim
        have hno : (StreamEnd.finished == StreamEnd.failed) = false := rfl
        rw [hend, hno, Bool.and_false, Bool.and_false]

theorem logTransparent_of_whole {n : Notification} {answer : Except HyperError Response}
    (h : ¬ self.BreaksOff n answer) : self.LogTransparent n answer := by
  refine ⟨fun level lower _ _ => ?_, fun answer' hsplit level => self.sent_split n hsplit level⟩
  have hlevel := self.request_atLevel n
  cases hreq : self.request n with
  | error e => rw [sent_error _ ((hlevel level).trans hreq), sent_error _ ((hlevel lower).trans hreq)]
  | ok req =>
    rw [sent_isOk _ ((hlevel level).trans hreq), sent_isOk _ ((hlevel lower).trans hreq),
      self.accepts_level hreq h level lower]

/-- At Info the email is accepted; at Debug the attempt fails, to be repeated. -/
theorem not_logTransparent_of_breaksOff {n : Notification}
    {answer : Except HyperError Response} (h : self.BreaksOff n answer) :
    ¬ self.LogTransparent n answer := by
  obtain ⟨⟨email, rfl⟩, ⟨req, hreq⟩, resp, rfl, ha, hend⟩ := h
  rintro ⟨hlevels, -⟩
  have hboth := hlevels .debug .info rfl rfl
  rw [sent_isOk _ ((self.request_atLevel _ _).trans hreq),
    sent_isOk _ ((self.request_atLevel _ _).trans hreq), accepts_email, accepts_email, ha, hend] at hboth
  have hdebug : (self.atLevel .debug).maxLevel.logsBodies = true := rfl
  have hinfo : (self.atLevel .info).maxLevel.logsBodies = false := rfl
  simp [hdebug, hinfo] at hboth

/-- Logging is transparent except for an email whose accepted response breaks off. -/
theorem logTransparent_iff (n : Notification) (answer : Except HyperError Response) :
    self.LogTransparent n answer ↔ ¬ self.BreaksOff n answer := by
  constructor
  · intro h hbreaks
    exact self.not_logTransparent_of_breaksOff hbreaks h
  · exact self.logTransparent_of_whole

end Process

/-- A mail service that says 202 and then drops the connection. -/
theorem accepted_email_fails_when_logged :
    ¬ exampleProcess.LogTransparent (.email exampleEmail) (.ok ⟨⟨202⟩, ⟨[], .failed⟩⟩) := by
  have hbuilt : ∃ req, exampleProcess.request (.email exampleEmail) = .ok req :=
    exists_of_isOk (by decide)
  exact exampleProcess.not_logTransparent_of_breaksOff
    ⟨⟨exampleEmail, rfl⟩, hbuilt, _, rfl, rfl, rfl⟩

end PaymentsNotifications.Server
