import PaymentsNotifications.Server.Broker
import PaymentsNotifications.Server.Handling

/-! The notificator over the traits of its clients and publisher: a call is an
attempt, a pause or a publication as a whole. The notificator over the network
is this one with every call carried out. -/

namespace PaymentsNotifications.Server
open Futures Futures.Fut Models Utils Transport External Rabbit Services

inductive ServiceCall where
  | send (n : Notification)
  | delay (secs : Nat)
  | publishError (n : Notification)
  deriving DecidableEq, Repr

abbrev ServiceAnswer : ServiceCall → Type
  | .send _ => Except ClientError Unit
  | .delay _ => Except TimerError Unit
  | .publishError _ => Except RabbitError Unit

abbrev Service : Signature := ⟨ServiceCall, ServiceAnswer⟩

/-- The notificator whose clients and publisher are left open. -/
def callNotificator : Notificator Service where
  iosClient push := perform (σ := Service) (.send (.push push))
  callbackClient callback := perform (σ := Service) (.send (.callback callback))
  emailClient email := perform (σ := Service) (.send (.email email))
  publisher :=
    { errorCallbacks := fun callback => perform (σ := Service) (.publishError (.callback callback))
      errorEmails := fun email => perform (σ := Service) (.publishError (.email email))
      errorPushes := fun push => perform (σ := Service) (.publishError (.push push)) }
  delay secs := perform (σ := Service) (.delay secs)

/-- How a process carries out a call. -/
def carryOut (process : Process) : (c : ServiceCall) → Fut Wire (ServiceAnswer c)
  | .send n => process.notificator.send n
  | .delay secs => process.notificator.delay secs
  | .publishError n => process.notificator.park n

theorem interp_publishError (process : Process) (n : Notification) :
    interp (α := Except RabbitError Unit) (carryOut process)
      (perform (σ := Service) (.publishError n)) = process.notificator.park n :=
  interp_perform (σ := Service) (carryOut process) (.publishError n)

theorem interp_attempt (process : Process) (n : Notification) (secs : Nat) :
    (callNotificator.attempt (perform (σ := Service) (.send n)) secs).interp (carryOut process) =
      process.notificator.attempt (process.notificator.send n) secs := by
  rw [Notificator.attempt, interp_bind, interp_mapErr, interp_perform, Notificator.attempt]
  refine congrArg (((process.notificator.send n).mapErr convert).bind ·) ?_
  funext r
  cases r with
  | ok u => rfl
  | error e => exact interp_mapErr _ _ _

theorem interp_sendOrPark (process : Process) (n : Notification) :
    (callNotificator.sendOrPark (perform (σ := Service) (.send n))
      (perform (σ := Service) (.publishError n))).interp (carryOut process) =
        process.notificator.deliver n := by
  rw [Notificator.sendOrPark, interp_bind, interp_andThen, interp_forEach]
  simp only [interp_attempt, interp_mapErr, interp_publishError]
  rfl

/-- The process handles a message as the open notificator does, with its calls
carried out. -/
theorem interp_handleMessage (process : Process) (json : SerdeJson) (data : Bytes)
    (queueName : String) :
    (callNotificator.handleMessage json data queueName).interp (carryOut process) =
      process.notificator.handleMessage json data queueName := by
  unfold Notificator.handleMessage
  split
  · rfl
  · cases parse json.callbackFromStr data with
    | error e => rfl
    | ok callback => exact interp_sendOrPark process (.callback callback)
  · cases parse json.emailFromStr data with
    | error e => rfl
    | ok email => exact interp_sendOrPark process (.email email)
  · rfl

/-! ## The consumer of a queue -/

/-- The consumer of a queue over the traits of its clients and publisher. -/
def callSubscription (json : SerdeJson) (q : Outbox) (timeout : Nat) : Subscription Service where
  notificator := callNotificator
  json := json
  queueName := q.name
  timeout := timeout

/-- What the calls of a handling meet, when the process carries them out. -/
structure Carried (process : Process) (met : Conditions Wire) (met' : Conditions Service) : Prop where
  env : CarriedOut (carryOut process) met.env met'.env
  timeout : met'.timerFails = met.timerFails

/-- Every handling of a process is one of the open notificator, over the same time
and with the same end. -/
theorem Process.exists_carried (process : Process) (q : Outbox) (data : Bytes)
    (met : Conditions Wire) :
    ∃ met', Carried process met met' ∧
      ((callSubscription process.crates.json q
          process.config.rabbit.restartSubscriptionSecs).handling data met').result =
        ((process.subscription q).handling data met).result := by
  obtain ⟨env', hcarried, hresult⟩ := exists_runUntil_carriedOut (carryOut process) met.env
    (callNotificator.handleMessage process.crates.json data q.name) 0 0
    (Nat.zero_le (met.deadline process.config.rabbit.restartSubscriptionSecs))
  rw [interp_handleMessage] at hresult
  exact ⟨⟨env', met.timerFails⟩, ⟨hcarried, rfl⟩, hresult⟩

/-- Every run of a process's queue is one of the open notificator's, with the same
deliveries and frames. -/
theorem Process.reaches_calls (process : Process) (q : Outbox) {contents : List Bytes}
    {labels : List (SystemEvent (Conditions Wire))} {s : System (Conditions Wire)}
    (h : (System.machine (process.subscription q).succeeds contents).Reaches labels s) :
    ∃ labels' handled,
      (System.machine (callSubscription process.crates.json q
        process.config.rabbit.restartSubscriptionSecs).succeeds contents).Reaches labels'
          (s.withHandled handled) ∧
      System.Matched (fun _ met met' => Carried process met met') s.consumer.handled handled := by
  refine System.reaches_simulated (fun data met => ?_) h
  obtain ⟨met', hcarried, hresult⟩ := process.exists_carried q data met
  exact ⟨met', hcarried, by rw [Subscription.succeeds, hresult, Subscription.succeeds]⟩

end PaymentsNotifications.Server
