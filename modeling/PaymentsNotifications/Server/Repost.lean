import PaymentsNotifications.Server.Process

/-! Is a callback posted again after a merchant's server has accepted it? The
verdict on an answer asks for a body that decodes as a JSON `()`, so it depends
on what the server writes there. -/

namespace PaymentsNotifications.Server
open Futures Futures.Fut Models Utils Transport External Client Services

/-- The body is, as a text, the JSON value `null`. -/
def isNullBody (body : Body) : Bool :=
  match fromUtf8 body.chunks.flatten with
  | .ok string => isJsonNull string
  | .error _ => false

/-- Every response that arrives arrives whole. -/
def WholeResponses (env : Env Wire) : Prop :=
  ∀ i req resp, (env i (.http req)).1 = .ok resp → resp.body.ending = .finished

namespace Process
variable (self : Process)

/-- Once an attempt has been answered with a 2xx status, the client's `send` is
`Ok`, nothing is posted any more and nothing goes to the error queue. -/
def NeverRepeated (n : Notification) (log : List (Event Wire)) : Prop :=
  ∀ before e resp after, log = before ++ e :: after → response? e = some resp →
    resp.status.isSuccess = true →
    (self.sent n (.ok resp)).isOk ∧ (∀ e' ∈ after, ∀ req, e'.call ≠ .http req) ∧
      ∀ e' ∈ after, e'.call ≠ self.parkCall n

theorem unitFromStr_toBool (hnull : self.crates.json.UnitIsNull) (string : String) :
    (self.crates.json.unitFromStr string).toBool = isJsonNull string := by
  rw [Bool.eq_iff_iff, ← hnull string]
  cases self.crates.json.unitFromStr string with
  | error e => exact ⟨fun h => Bool.noConfusion h, fun h => nomatch h⟩
  | ok u => exact ⟨fun _ => rfl, fun _ => rfl⟩

/-- The verdict on a body that arrived whole. -/
theorem readsUnit_eq (hnull : self.crates.json.UnitIsNull) {body : Body}
    (h : body.ending = .finished) : self.readsUnit body = isNullBody body := by
  have hread : readBody body = .ok body.chunks.flatten := by simp only [readBody, h]
  unfold readsUnit readJson isNullBody
  rw [hread]
  change ((fromUtf8 body.chunks.flatten).mapError _ >>= _).toBool = _
  cases fromUtf8 body.chunks.flatten with
  | error e => rfl
  | ok string =>
    change ((self.crates.json.unitFromStr string).mapError _).toBool = isJsonNull string
    rw [← self.unitFromStr_toBool hnull]
    cases self.crates.json.unitFromStr string with
    | error e => rfl
    | ok u => rfl

theorem accepted_of_isSuccess {status : StatusCode} (h : status.isSuccess = true) :
    accepted status = true := by
  simp only [StatusCode.isSuccess, Bool.and_eq_true, decide_eq_true_eq, UInt16.lt_iff_toNat_lt] at h
  have hlt : status.asU16.toNat < 300 := h.2
  have hclient : status.isClientError = false := by
    have hno : ¬ 400 ≤ status.asU16 := fun hge => by
      have hge' : 400 ≤ status.asU16.toNat := hge
      omega
    simp [StatusCode.isClientError, hno]
  have hserver : status.isServerError = false := by
    have hno : ¬ 500 ≤ status.asU16 := fun hge => by
      have hge' : 500 ≤ status.asU16.toNat := hge
      omega
    simp [StatusCode.isServerError, hno]
  simp only [accepted, hclient, hserver, Bool.or_self, Bool.not_false]

/-- A callback answered 2xx is accepted exactly when the body is `null`. -/
theorem accepts_success (hnull : self.crates.json.UnitIsNull) (callback : Callback)
    {resp : Response} (hs : resp.status.isSuccess = true) (hend : resp.body.ending = .finished) :
    self.accepts (.callback callback) (.ok resp) = isNullBody resp.body := by
  rw [self.accepts_json rfl, accepted_of_isSuccess hs, Bool.true_and,
    self.readsUnit_eq hnull hend]

/-- Every 2xx answer among these events says `null`. -/
def NullBodies (log : List (Event Wire)) : Prop :=
  ∀ e ∈ log, ∀ resp, response? e = some resp → resp.status.isSuccess = true →
    isNullBody resp.body = true

/-- Every answer among these events arrived whole, and every 2xx answer says `null`. -/
def WholeAndNull (log : List (Event Wire)) : Prop :=
  (∀ e ∈ log, ∀ resp, response? e = some resp → resp.body.ending = .finished) ∧ NullBodies log

theorem wholeAndNull_left {l l' : List (Event Wire)} (h : WholeAndNull (l ++ l')) :
    WholeAndNull l :=
  ⟨fun e he => h.1 e (List.mem_append_left _ he), fun e he => h.2 e (List.mem_append_left _ he)⟩

/-- A success can only stand at the end. -/
theorem neverRepeated_append {n : Notification} {l : List (Event Wire)} {e : Event Wire}
    (hl : ∀ e' ∈ l, ¬ Succeeded e')
    (he : ∀ resp, response? e = some resp → resp.status.isSuccess = true →
      (self.sent n (.ok resp)).isOk) : self.NeverRepeated n (l ++ [e]) := by
  intro before s resp after hsplit hresp hs
  rcases List.eq_nil_or_concat after with rfl | ⟨after', x, rfl⟩
  · obtain ⟨-, hlast⟩ := List.append_inj' hsplit rfl
    obtain rfl := List.singleton_inj.mp hlast
    exact ⟨he resp hresp hs, fun e' hmem => absurd hmem List.not_mem_nil,
      fun e' hmem => absurd hmem List.not_mem_nil⟩
  · rw [List.concat_eq_append, ← List.cons_append, ← List.append_assoc] at hsplit
    obtain ⟨rfl, -⟩ := List.append_inj' hsplit rfl
    exact (hl s (by simp) ⟨resp, hresp, hs⟩).elim

/-- While every 2xx answer says `null`, the loop goes on only after answers that
are no success. -/
theorem neverRepeated_rule (hnull : self.crates.json.UnitIsNull) (callback : Callback) :
    self.DeliveryRule (.callback callback)
      (fun l _ => WholeAndNull l → self.NeverRepeated (.callback callback) l)
      (fun l => WholeAndNull l → ∀ e ∈ l, ¬ Succeeded e)
      (fun l => WholeAndNull l → ∀ e ∈ l, ¬ Succeeded e) := by
  -- events without a response neither succeed nor follow a success
  have hstay : ∀ l (e : Event Wire), response? e = none →
      (WholeAndNull l → ∀ e ∈ l, ¬ Succeeded e) →
      WholeAndNull (l ++ [e]) → ∀ e' ∈ l ++ [e], ¬ Succeeded e' := by
    intro l e he hl hinf e' hmem
    rcases List.mem_append.mp hmem with hold | hnew
    · exact hl (wholeAndNull_left hinf) e' hold
    · rw [List.mem_singleton.mp hnew]
      rintro ⟨resp, hresp, -⟩
      rw [he] at hresp
      cases hresp
  have hstop : ∀ l (e : Event Wire), response? e = none →
      (WholeAndNull l → ∀ e ∈ l, ¬ Succeeded e) →
      WholeAndNull (l ++ [e]) → self.NeverRepeated (.callback callback) (l ++ [e]) := by
    intro l e he hl hinf
    refine self.neverRepeated_append (hl (wholeAndNull_left hinf)) fun resp hresp => ?_
    rw [he] at hresp
    cases hresp
  exact
    { start := fun _ e he => nomatch he
      unbuilt := fun l e _ hl => hl
      attempt_dropped := fun l req _ hl => hstop l _ rfl hl
      accepted := by
        intro l req answer hreq hacc hl hinf
        refine self.neverRepeated_append (hl (wholeAndNull_left hinf)) fun resp hresp _ => ?_
        obtain rfl := response?_http hresp
        rw [self.sent_isOk hreq]
        exact hacc
      refused := by
        intro l req answer hreq hacc hl hinf e hmem
        rcases List.mem_append.mp hmem with hold | hnew
        · exact hl (wholeAndNull_left hinf) e hold
        · rintro ⟨resp, hresp, hs⟩
          have hend := hinf.1 e hmem resp hresp
          have hbody := hinf.2 e hmem resp hresp hs
          rw [List.mem_singleton.mp hnew] at hresp
          obtain rfl := response?_http hresp
          rw [self.accepts_success hnull callback hs hend, hbody] at hacc
          cases hacc
      pause_dropped := fun l secs hl => hstop l _ rfl hl
      timer_failed := fun l secs e hl => hstop l _ rfl hl
      paused := fun l secs hl => hstay l _ rfl hl
      parking_dropped := fun l hl => hstop l _ rfl hl
      parked := fun l answer hl => hstop l _ rfl hl }

theorem whole_of_env {env : Env Wire} (henv : WholeResponses env) (deadline i now : Nat)
    (n : Notification) :
    ∀ e ∈ ((self.notificator.deliver n).runUntil deadline env i now).log.map Entry.event, ∀ resp,
      response? e = some resp → resp.body.ending = .finished := by
  intro e hmem resp hresp
  obtain ⟨⟨call, start, answer⟩, hentry, rfl⟩ := List.mem_map.mp hmem
  cases call with
  | http req =>
    cases answer with
    | none => cases hresp
    | some answer =>
      obtain rfl := response?_http hresp
      obtain ⟨j, hj⟩ := runUntil_answer _ _ _ _ _ _ hentry _ rfl
      exact henv j req resp hj
  | delay secs => cases hresp
  | basicPublish exchange routingKey payload => cases hresp

/-- A 2xx answer that does not say `null` makes the attempt fail. -/
theorem nullBody_of_neverRepeated (hnull : self.crates.json.UnitIsNull) {callback : Callback}
    {req : Request} (hreq : self.request (.callback callback) = .ok req)
    {log : List (Event Wire)} (h : self.NeverRepeated (.callback callback) log)
    (hwhole : ∀ e ∈ log, ∀ resp, response? e = some resp → resp.body.ending = .finished) :
    NullBodies log := by
  intro e hmem resp hresp hs
  obtain ⟨before, after, hsplit⟩ := List.append_of_mem hmem
  obtain ⟨hok, -⟩ := h before e resp after hsplit hresp hs
  rw [self.sent_isOk hreq, self.accepts_success hnull callback hs (hwhole e hmem resp hresp)] at hok
  exact hok

/-- An accepted callback is never posted again, exactly when every 2xx answer of
the run has the body `null`. -/
theorem neverRepeated_iff (hnull : self.crates.json.UnitIsNull) (callback : Callback)
    (deadline : Nat) (env : Env Wire) (henv : WholeResponses env) :
    self.NeverRepeated (.callback callback)
        (((self.notificator.sendCallback callback).runUntil deadline env 0 0).log.map Entry.event) ↔
      NullBodies
        (((self.notificator.sendCallback callback).runUntil deadline env 0 0).log.map
          Entry.event) := by
  rw [sendCallback_eq]
  have hwhole := self.whole_of_env henv deadline 0 0 (.callback callback)
  constructor
  · intro h e hmem resp hresp hs
    obtain ⟨⟨call, start, answer⟩, hentry, rfl⟩ := List.mem_map.mp hmem
    cases call with
    | http req =>
      have hreq := self.deliver_requests (.callback callback) deadline env 0 0 _ hentry req rfl
      exact self.nullBody_of_neverRepeated hnull hreq h hwhole _ hmem resp hresp hs
    | delay secs => cases hresp
    | basicPublish exchange routingKey payload => cases hresp
  · intro hbodies
    exact (self.neverRepeated_rule hnull callback).run deadline env 0 0 ⟨hwhole, hbodies⟩

end Process

theorem exampleJson_unitIsNull : exampleJson.UnitIsNull := by
  intro s
  change (if isJsonNull s then Except.ok () else Except.error JsonError.invalid) = .ok () ↔ _
  cases isJsonNull s <;> simp

theorem answering_whole {resp : Response} (h : resp.body.ending = .finished) :
    WholeResponses (answering resp) := by
  intro i req resp' hresp
  rw [← Except.ok.inj hresp]
  exact h

/-- A merchant who answers `null` is called once. -/
theorem neverRepeated_example :
    exampleProcess.NeverRepeated (.callback exampleCallback)
        (((exampleProcess.notificator.sendCallback exampleCallback).runUntil (30 * 1000000000)
          (answering ⟨⟨200⟩, Body.from [110, 117, 108, 108]⟩) 0 0).log.map Entry.event) ↔
      Process.NullBodies
        (((exampleProcess.notificator.sendCallback exampleCallback).runUntil (30 * 1000000000)
          (answering ⟨⟨200⟩, Body.from [110, 117, 108, 108]⟩) 0 0).log.map Entry.event) :=
  exampleProcess.neverRepeated_iff exampleJson_unitIsNull exampleCallback _ _
    (answering_whole rfl)

/-- A merchant who answers 200 with an empty body is called again. -/
theorem empty_body_is_reposted :
    ¬ exampleProcess.NeverRepeated (.callback exampleCallback)
      (((exampleProcess.notificator.sendCallback exampleCallback).runUntil (30 * 1000000000)
        (answering ⟨⟨200⟩, Body.from []⟩) 0 0).log.map Entry.event) := by
  intro h
  obtain ⟨req, hreq⟩ : ∃ req, exampleProcess.request (.callback exampleCallback) = .ok req :=
    exists_of_isOk (by decide +kernel)
  have hresponses : WholeResponses (answering ⟨⟨200⟩, Body.from []⟩) := answering_whole rfl
  have hwhole := exampleProcess.whole_of_env hresponses (30 * 1000000000) 0 0
    (.callback exampleCallback)
  have hnull := exampleProcess.nullBody_of_neverRepeated exampleJson_unitIsNull hreq h hwhole
  obtain ⟨next, hfirst⟩ := exampleProcess.deliver_first hreq
  rw [Process.sendCallback_eq, hfirst] at hnull
  have hfalse := hnull _ List.mem_cons_self ⟨⟨200⟩, Body.from []⟩ rfl rfl
  exact absurd hfalse (by decide +kernel)

end PaymentsNotifications.Server
