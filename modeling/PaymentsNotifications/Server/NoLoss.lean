import PaymentsNotifications.Server.Consumer
import PaymentsNotifications.Server.Handling

/-! Is a notification that was acknowledged delivered or parked? The retry loop
uses `Err(())` for success and swallows every error after it, so a handling also
ends well when a pause's timer fails, when the publication fails, and when an
attempt is accepted with a status that is no 2xx. Without these nothing is lost. -/

namespace PaymentsNotifications.Server
open Futures Futures.Fut Models Utils Transport External Client Services

/-- The loop sends `basic_ack` for this delivery, or has decided to. -/
def Consumer.Acknowledges {ι : Type} (c : Consumer ι) (d : Delivery) : Prop :=
  ∃ tag multiple, (d, .basicAck tag multiple) ∈ c.sent ∨
    c.phase = .settling d (.basicAck tag multiple)

/-- An acknowledgement follows a handling of its delivery that succeeded. -/
theorem Consumer.Justifying.handled {ι : Type} {ok : Bytes → ι → Bool} {c : Consumer ι}
    (h : c.Justifying ok) {d : Delivery} (hack : c.Acknowledges d) : Handled ok c.handled d true := by
  obtain ⟨tag, multiple, hsent | hphase⟩ := hack
  · cases h.sent d _ hsent with
    | ack hok => exact hok
  · cases h.settling d _ hphase with
    | ack hok => exact hok

namespace Process
variable (self : Process)

/-- An attempt to send the notification was answered with a 2xx status, or the
notification was published to its error queue. -/
def Kept (n : Notification) (log : List (Event Wire)) : Prop :=
  (∃ req resp, self.request n = .ok req ∧ ⟨.http req, some (.ok resp)⟩ ∈ log ∧
    resp.status.isSuccess = true) ∨
  ⟨self.parkCall n, some (.ok ())⟩ ∈ log

/-- Timers fire, publications go through, and no response has a status that is
neither 2xx nor an error, unless its body makes the attempt fail. -/
def SoundAnswer (n : Notification) : Event Wire → Prop
  | ⟨.http _, some (.ok resp)⟩ =>
      accepted resp.status = true → self.takes n resp.body = true → resp.status.isSuccess = true
  | ⟨.http _, some (.error _)⟩ => True
  | ⟨.delay _, some answer⟩ => answer = .ok ()
  | ⟨.basicPublish _ _ _, some answer⟩ => answer = .ok ()
  | ⟨_, none⟩ => True

/-- A run that got sound answers only and ends well has kept the notification. -/
theorem kept_rule (n : Notification) :
    self.DeliveryRule n
      (fun l r => r = some (.ok ()) → (∀ e ∈ l, self.SoundAnswer n e) → self.Kept n l)
      (fun _ => True) (fun _ => True) :=
  { start := trivial
    unbuilt := fun _ _ _ _ => trivial
    attempt_dropped := fun _ _ _ _ hr => nomatch hr
    accepted := by
      intro l req answer hreq hacc _ _ hsound
      have hmem : ⟨.http req, some answer⟩ ∈ l ++ [(⟨.http req, some answer⟩ : Event Wire)] :=
        List.mem_append_right _ (List.mem_singleton.mpr rfl)
      have hanswer := hsound _ hmem
      cases answer with
      | error e => cases hacc
      | ok resp =>
        rw [self.accepts_eq, Bool.and_eq_true] at hacc
        exact .inl ⟨req, resp, hreq, hmem, hanswer hacc.1 hacc.2⟩
    refused := fun _ _ _ _ _ _ => trivial
    pause_dropped := fun _ _ _ hr => nomatch hr
    timer_failed := by
      intro l secs e _ _ hsound
      have hfired : (Except.error e : Except TimerError Unit) = .ok () :=
        hsound _ (List.mem_append_right _ (List.mem_singleton.mpr rfl))
      cases hfired
    paused := fun _ _ _ => trivial
    parking_dropped := fun _ _ hr => nomatch hr
    parked := by
      intro l answer _ _ hsound
      have hmem : ⟨self.parkCall n, some answer⟩ ∈ l ++ [(⟨self.parkCall n, some answer⟩ : Event Wire)] :=
        List.mem_append_right _ (List.mem_singleton.mpr rfl)
      obtain rfl : answer = .ok () := hsound _ hmem
      exact .inr hmem }

/-- A handling that succeeds was a run of the retry loop, for the parsed message. -/
theorem succeeds_deliver {q : Outbox} {data : Bytes} {met : Conditions Wire}
    (h : (self.subscription q).succeeds data met = true) :
    ∃ n t, q.parse self.crates.json data = .ok n ∧
      (self.subscription q).handling data met =
        (self.notificator.deliver n).runUntil
          (met.deadline self.config.rabbit.restartSubscriptionSecs) met.env 0 0 ∧
      ((self.subscription q).handling data met).result = some (.ok (), t) := by
  have hfut := self.notificator.handleMessage_outbox self.crates.json data q
  have hrun : (self.subscription q).handling data met =
      ((Fut.ready (q.parse self.crates.json data)).andThen self.notificator.deliver).runUntil
        (met.deadline self.config.rabbit.restartSubscriptionSecs) met.env 0 0 := by
    rw [← hfut]
    rfl
  unfold Subscription.succeeds at h
  cases hparse : q.parse self.crates.json data with
  | error e =>
    rw [hrun, hparse] at h
    cases h
  | ok n =>
    rw [hparse] at hrun
    split at h
    · rename_i t hresult
      exact ⟨n, t, rfl, hrun, hresult⟩
    · cases h

theorem kept_of_succeeds {q : Outbox} {data : Bytes} {met : Conditions Wire}
    (h : (self.subscription q).succeeds data met = true)
    (hsound : ∀ n, q.parse self.crates.json data = .ok n →
      ∀ e ∈ (self.subscription q).events data met, self.SoundAnswer n e) :
    ∃ n, q.parse self.crates.json data = .ok n ∧
      self.Kept n ((self.subscription q).events data met) := by
  obtain ⟨n, t, hparse, hrun, hresult⟩ := self.succeeds_deliver h
  refine ⟨n, hparse, ?_⟩
  have hkept := (self.kept_rule n).run
    (met.deadline self.config.rabbit.restartSubscriptionSecs) met.env 0 0
  have hevents := hsound n hparse
  unfold Subscription.events at hevents ⊢
  rw [← hrun, hresult] at hkept
  exact hkept rfl hevents

/-- In a run of the consumer whose handlings got sound answers, whatever is
acknowledged was delivered or parked. -/
theorem acknowledged_kept (q : Outbox) {labels : List (ConsumerEvent (Conditions Wire))}
    {c : Consumer (Conditions Wire)}
    (hrun : (Consumer.machine (self.subscription q).succeeds).Reaches labels c)
    (hsound : ∀ d met, (d, met) ∈ c.handled → ∀ n, q.parse self.crates.json d.message.data = .ok n →
      ∀ e ∈ (self.subscription q).events d.message.data met, self.SoundAnswer n e) :
    ∀ d, c.Acknowledges d → ∃ n met, (d, met) ∈ c.handled ∧
      q.parse self.crates.json d.message.data = .ok n ∧
      self.Kept n ((self.subscription q).events d.message.data met) := by
  intro d hack
  obtain ⟨met, hmem, hok⟩ := (Consumer.reaches_justifying hrun).handled hack
  obtain ⟨n, hparse, hkept⟩ := self.kept_of_succeeds hok (hsound d met hmem)
  exact ⟨n, met, hmem, hparse, hkept⟩

/-- An event that shows the notification was kept. -/
def keeps : Event Wire → Bool
  | ⟨.http _, some (.ok resp)⟩ => resp.status.isSuccess
  | ⟨.basicPublish _ _ _, some (.ok _)⟩ => true
  | _ => false

theorem keeps_of_kept {n : Notification} {log : List (Event Wire)} (h : self.Kept n log) :
    log.any keeps = true := by
  rcases h with ⟨req, resp, -, hmem, hs⟩ | hmem
  · exact List.any_eq_true.mpr ⟨_, hmem, hs⟩
  · exact List.any_eq_true.mpr ⟨_, hmem, rfl⟩

/-- A server that always answers 2xx, with the rest of the world in order. -/
theorem answering_sound {resp : Response} (hs : resp.status.isSuccess = true) (q : Outbox)
    (data : Bytes) (n : Notification) :
    ∀ e ∈ (self.subscription q).events data ⟨answering resp, none⟩, self.SoundAnswer n e := by
  intro e hmem
  obtain ⟨⟨call, start, answer⟩, hentry, rfl⟩ := List.mem_map.mp hmem
  cases answer with
  | none => cases call <;> exact trivial
  | some answer =>
    obtain ⟨j, hj⟩ := runUntil_answer _ _ _ _ _ _ hentry _ rfl
    cases call with
    | http req =>
      obtain rfl : answer = .ok resp := hj.symm
      exact fun _ _ => hs
    | delay secs => exact hj.symm
    | basicPublish exchange routingKey payload => exact hj.symm

end Process

def exampleEmailDelivery : Delivery := ⟨1, ⟨0, bytesOf exampleEmailJson⟩⟩

/-- The mail service answers 202. -/
theorem acknowledged_kept_example :
    ∃ (c : Consumer (Conditions Wire)) (d : Delivery), c.Acknowledges d ∧
      ∃ n met, (d, met) ∈ c.handled ∧
        Outbox.emails.parse exampleProcess.crates.json d.message.data = .ok n ∧
        exampleProcess.Kept n ((exampleProcess.subscription .emails).events d.message.data met) := by
  have hok : (exampleProcess.subscription .emails).succeeds exampleEmailDelivery.message.data
      ⟨answering ⟨⟨202⟩, Body.from []⟩, none⟩ = true := by decide
  have hack : Consumer.Acknowledges ⟨.waiting, [exampleEmailDelivery],
      [(exampleEmailDelivery, (⟨answering ⟨⟨202⟩, Body.from []⟩, none⟩ : Conditions Wire))],
      [(exampleEmailDelivery, .basicAck 1 false)]⟩ exampleEmailDelivery :=
    ⟨1, false, .inl List.mem_cons_self⟩
  refine ⟨_, _, hack, exampleProcess.acknowledged_kept .emails (Consumer.reaches_acked hok)
    (fun d met hmem n _ => ?_) exampleEmailDelivery hack⟩
  cases List.mem_singleton.mp hmem
  exact exampleProcess.answering_sound rfl .emails _ n

/-- The mail service answers 302: the email is acknowledged, and it is nowhere. -/
theorem redirected_email_is_lost :
    ∃ (labels : List (ConsumerEvent (Conditions Wire))) (c : Consumer (Conditions Wire))
      (d : Delivery),
      (Consumer.machine (exampleProcess.subscription .emails).succeeds).Reaches labels c ∧
      c.Acknowledges d ∧
      ¬ ∃ n met, (d, met) ∈ c.handled ∧
        Outbox.emails.parse exampleProcess.crates.json d.message.data = .ok n ∧
        exampleProcess.Kept n ((exampleProcess.subscription .emails).events d.message.data met) := by
  have hok : (exampleProcess.subscription .emails).succeeds exampleEmailDelivery.message.data
      ⟨answering ⟨⟨302⟩, Body.from []⟩, none⟩ = true := by decide
  have hnone : ((exampleProcess.subscription .emails).events exampleEmailDelivery.message.data
      ⟨answering ⟨⟨302⟩, Body.from []⟩, none⟩).any Process.keeps = false := by decide
  refine ⟨_, _, exampleEmailDelivery, Consumer.reaches_acked hok,
    ⟨1, false, .inl List.mem_cons_self⟩, ?_⟩
  rintro ⟨n, met, hmem, -, hkept⟩
  cases List.mem_singleton.mp hmem
  have hany := exampleProcess.keeps_of_kept hkept
  rw [hnone] at hany
  cases hany

end PaymentsNotifications.Server
