import PaymentsNotifications.Server.Fate
import PaymentsNotifications.Server.Rewording
import PaymentsNotifications.Server.Sharing

/-! Messages taken from an error queue and put back where they came from. What is parked
is the message written anew by `serde_json`; it is read as the same notification, so a
run over the new texts is a run over the old ones, call by call. -/

namespace PaymentsNotifications.Server
open Futures Futures.Fut Models Utils Transport External Services Rabbit

/-- `serde_json` reads what it wrote of something it had read. -/
structure Rereads (json : SerdeJson) : Prop where
  callback : ∀ s callback, json.callbackFromStr s = .ok callback →
    json.callbackFromStr (json.callbackToString callback) = .ok callback
  email : ∀ s email, json.emailFromStr s = .ok email →
    json.emailFromStr (json.emailToString email) = .ok email

theorem exists_read {T : Type} {fromStr : String → Except JsonError T} {data : Bytes} {value : T}
    (h : parse fromStr data = .ok value) : ∃ s, fromStr s = .ok value := by
  unfold parse at h
  cases hutf8 : fromUtf8 data with
  | error e =>
    rw [hutf8] at h
    cases h
  | ok s =>
    rw [hutf8] at h
    change (fromStr s).mapError (ectx ServiceErrorKind.internal (some ServiceErrorContext.json)) = _ at h
    cases hread : fromStr s with
    | error e =>
      rw [hread] at h
      cases h
    | ok value' =>
      rw [hread] at h
      cases h
      exact ⟨s, hread⟩

namespace Process
variable (self : Process)

/-- The text under which the error queue has the message. What cannot be read is not
parked, and left as it is. -/
def retold (q : Outbox) (data : Bytes) : Bytes :=
  match q.parse self.crates.json data with
  | .ok n => self.payload n
  | .error _ => data

variable {self} {q : Outbox} {n : Notification} {data : Bytes}

theorem parse_payload (hjson : Rereads self.crates.json) (h : q.parse self.crates.json data = .ok n) :
    q.parse self.crates.json (self.payload n) = .ok n := by
  cases q with
  | callbacks =>
    simp only [Outbox.parse] at h ⊢
    cases hp : parse self.crates.json.callbackFromStr data with
    | error e => rw [hp] at h; cases h
    | ok callback =>
      rw [hp] at h
      obtain rfl := Except.ok.inj h
      obtain ⟨s, hs⟩ := exists_read hp
      show (parse _ (bytesOf (self.crates.json.callbackToString callback))).map _ = _
      rw [parse_bytesOf, hjson.callback s callback hs]
      rfl
  | emails =>
    simp only [Outbox.parse] at h ⊢
    cases hp : parse self.crates.json.emailFromStr data with
    | error e => rw [hp] at h; cases h
    | ok email =>
      rw [hp] at h
      obtain rfl := Except.ok.inj h
      obtain ⟨s, hs⟩ := exists_read hp
      show (parse _ (bytesOf (self.crates.json.emailToString email))).map _ = _
      rw [parse_bytesOf, hjson.email s email hs]
      rfl

theorem parse_retold (hjson : Rereads self.crates.json) (data : Bytes) :
    q.parse self.crates.json (self.retold q data) = q.parse self.crates.json data := by
  unfold retold
  cases h : q.parse self.crates.json data with
  | error e => exact h
  | ok n => exact parse_payload hjson h

/-- The calls, their answers and times, and how it ends: all the same. -/
theorem handling_retold (hjson : Rereads self.crates.json) (data : Bytes) (met : Conditions Wire) :
    (self.subscription q).handling (self.retold q data) met =
      (self.subscription q).handling data met := by
  have hfut := self.notificator.handleMessage_outbox self.crates.json (self.retold q data) q
  rw [parse_retold hjson, ← self.notificator.handleMessage_outbox self.crates.json data q] at hfut
  exact congrArg (·.runUntil (met.deadline self.config.rabbit.restartSubscriptionSecs) met.env 0 0)
    hfut

theorem succeeds_retold (hjson : Rereads self.crates.json) (data : Bytes) (met : Conditions Wire) :
    (self.subscription q).succeeds (self.retold q data) met =
      (self.subscription q).succeeds data met := by
  unfold Subscription.succeeds
  rw [handling_retold hjson]

end Process

/-! ## The error queues -/

namespace Deployment
variable {types : Amqp.ExchangeTypes} {process : Process} {contents : Outbox → List Bytes}
  {host : Amqp.Host Bytes} {events : List DeploymentEvent} {D : Deployment}

theorem rereads_example : Rereads exampleJson where
  callback s callback h := by
    by_cases hs : s = exampleCallbackJson
    · simp only [exampleJson, hs, if_true] at h ⊢
      exact h
    · simp only [exampleJson, hs, if_false] at h
      cases h
  email s email h := by
    by_cases hs : s = exampleEmailJson
    · simp only [exampleJson, hs, if_true] at h ⊢
      exact h
    · simp only [exampleJson, hs, if_false] at h
      cases h

end Deployment

/-! ## Whole runs -/

/-- The process cannot tell the messages from their retold texts. -/
def Process.retelling {process : Process} (hjson : Rereads process.crates.json) (q : Outbox) :
    Parties.Translation (instances (process.subscription q).succeeds) :=
  rewording (f := process.retold q) (Process.succeeds_retold hjson)

namespace Cluster
variable {κ : Type} [DecidableEq κ] {process : Process} {q : Outbox} {contents : List Bytes}
  {events : List (ClusterEvent κ (Conditions Wire))} {s : Cluster κ (Conditions Wire)}

/-- Every run over the messages is one over their retold texts, and what is done outside
is the same. -/
theorem reaches_retold (hjson : Rereads process.crates.json)
    (h : (machine (process.subscription q).succeeds contents).Reaches events s) :
    (machine (process.subscription q).succeeds (contents.map (process.retold q))).Reaches
        (events.map (Process.retelling hjson q).label) ((Process.retelling hjson q).state s) ∧
      ∀ i, (((Process.retelling hjson q).state s).parties i).handlings.map
          (fun h => (process.subscription q).handling h.1.message.data h.2) =
        (s.parties i).handlings.map fun h =>
          (process.subscription q).handling h.1.message.data h.2 := by
  have hreaches := (Process.retelling hjson q).reaches h
  rw [Process.retelling, start_reworded] at hreaches
  refine ⟨hreaches, fun i => ?_⟩
  have hhandlings : (((Process.retelling hjson q).state s).parties i).handlings =
      (s.parties i).handlings.map (Prod.map (Delivery.reworded (process.retold q)) id) := by
    show ((s.parties i).reworded (process.retold q)).handlings = _
    simp [Instance.handlings, Instance.reworded, Consumer.reworded, List.map_flatten]
  rw [hhandlings, List.map_map]
  exact List.map_congr_left fun h _ => Process.handling_retold hjson h.1.message.data h.2

theorem reaches_retold_example : ∃ (events : List (ClusterEvent Bool (Conditions Wire)))
    (s : Cluster Bool (Conditions Wire)),
    (machine (exampleProcess.subscription .emails).succeeds
        ([bytesOf exampleEmailJson].map (exampleProcess.retold .emails))).Reaches
      (events.map (@Process.retelling exampleProcess Deployment.rereads_example .emails).label)
      ((@Process.retelling exampleProcess Deployment.rereads_example .emails).state s) := by
  obtain ⟨events, s, h, -⟩ := exists_handled
  exact ⟨events, s, (reaches_retold Deployment.rereads_example h).1⟩

end Cluster

end PaymentsNotifications.Server
