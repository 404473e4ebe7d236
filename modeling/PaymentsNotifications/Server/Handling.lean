import PaymentsNotifications.Server.Process

/-! One handling of a message: `Timeout::new(handle_message(..), timeout)`
(`lib.rs`). When the time is over the future is dropped where it stands. -/

namespace PaymentsNotifications.Server
open Futures Futures.Fut Models Utils Transport External Services

/-- The error of a `Timeout`: the future's own, the time being over, or the timer's. -/
inductive TimeoutError where
  | inner (e : ServiceError)
  | elapsed
  | timer
  deriving DecidableEq, Repr

/-- What a handling meets: the answers to its calls, and the time at which the
timer of the timeout fails, if it does. -/
structure Conditions (σ : Signature) where
  env : Env σ
  timerFails : Option Nat

/-- The time at which the timeout ends the handling. -/
def Conditions.deadline {σ : Signature} (met : Conditions σ) (timeout : Nat) : Nat :=
  match met.timerFails with
  | none => secs timeout
  | some t => min t (secs timeout)

theorem Conditions.deadline_le {σ : Signature} (met : Conditions σ) (timeout : Nat) :
    met.deadline timeout ≤ secs timeout := by
  unfold deadline
  cases met.timerFails with
  | none => exact Nat.le_refl _
  | some t => exact Nat.min_le_right _ _

theorem Conditions.deadline_none {σ : Signature} {met : Conditions σ} (h : met.timerFails = none)
    (timeout : Nat) : met.deadline timeout = secs timeout := by
  rw [deadline, h]

/-- The consumer of one queue, with the parts that do not change: the notificator,
the queue's name and `restart_subscription_secs`. -/
structure Subscription (σ : Signature) where
  notificator : Notificator σ
  json : SerdeJson
  queueName : String
  timeout : Nat

namespace Subscription
variable {σ : Signature} (self : Subscription σ)

def handling (data : Bytes) (met : Conditions σ) : Execution σ (Except ServiceError Unit) :=
  (self.notificator.handleMessage self.json data self.queueName).runUntil
    (met.deadline self.timeout) met.env 0 0

/-- `Ok(_)` of the timeout: the handling was ready in time, and without error. -/
def succeeds (data : Bytes) (met : Conditions σ) : Bool :=
  match (self.handling data met).result with
  | some (.ok _, _) => true
  | _ => false

/-- What the timeout gives and when. -/
def outcome (data : Bytes) (met : Conditions σ) : Except TimeoutError Unit × Nat :=
  match (self.handling data met).result with
  | some (.ok _, t) => (.ok (), t)
  | some (.error e, t) => (.error (.inner e), t)
  | none =>
    match met.timerFails with
    | none => (.error .elapsed, met.deadline self.timeout)
    | some t => (.error (if t < secs self.timeout then .timer else .elapsed), met.deadline self.timeout)

theorem succeeds_eq_outcome (data : Bytes) (met : Conditions σ) :
    self.succeeds data met = (self.outcome data met).1.isOk := by
  unfold succeeds outcome
  rcases (self.handling data met).result with - | ⟨e | u, t⟩
  · cases met.timerFails <;> rfl
  · rfl
  · rfl

/-- The events of a handling, without their times. -/
def events (data : Bytes) (met : Conditions σ) : List (Event σ) :=
  (self.handling data met).log.map Entry.event

end Subscription

/-- The consumer task of a queue, as `start_server` spawns it. -/
def Process.subscription (self : Process) (q : Outbox) : Subscription Wire where
  notificator := self.notificator
  json := self.crates.json
  queueName := q.name
  timeout := self.config.rabbit.restartSubscriptionSecs

end PaymentsNotifications.Server
