import PaymentsNotifications.Error
import PaymentsNotifications.External
import PaymentsNotifications.Rabbit.Publisher

/-! `Notificator` (`services/rabbit.rs`): a message of a queue is parsed and sent
by the queue's client, up to eleven times with growing pauses, and handed to the
error publisher when no attempt succeeds. The clients, the publisher and the
timer are trait objects in the source; here the notificator is generic in the
calls their futures make. -/

namespace PaymentsNotifications.Services
open Futures Futures.Fut Models Utils Transport External Rabbit

structure Notificator (σ : Signature) where
  iosClient : PushNotifications → Fut σ (Except ClientError Unit)
  callbackClient : Callback → Fut σ (Except ClientError Unit)
  emailClient : Email → Fut σ (Except ClientError Unit)
  publisher : TransactionPublisher σ
  /-- `Delay::new(Instant::now() + Duration::from_secs(delay))`. -/
  delay : Nat → Fut σ (Except TimerError Unit)

/-- The pauses after the attempts, in seconds. -/
def delays : List Nat := [2, 4, 8, 16, 32, 64, 128, 256, 512, 1024, 2048]

/-- `parse`. -/
def parse {T : Type} (fromStr : String → Except JsonError T) (data : Bytes) :
    Except ServiceError T := do
  let string ← (fromUtf8 data).mapError (ectx .internal (some .utf8))
  (fromStr string).mapError (ectx .internal (some .json))

theorem parse_bytesOf {T : Type} (fromStr : String → Except JsonError T) (s : String) :
    parse fromStr (bytesOf s) = (fromStr s).mapError (ectx .internal (some .json)) := by
  rw [parse, fromUtf8_bytesOf]
  rfl

/-- `map_err(ectx!(convert => ..))`. -/
def convert (e : ClientError) : ServiceError := ⟨e.kind.into, none⟩

/-- The queues whose messages are sent. -/
inductive Outbox where
  | callbacks
  | emails
  deriving DecidableEq, Repr

def Outbox.name : Outbox → String
  | .callbacks => "callbacks"
  | .emails => "emails"

/-- What a message of the queue says. -/
def Outbox.parse (json : SerdeJson) (data : Bytes) : Outbox → Except ServiceError Notification
  | .callbacks => (Services.parse json.callbackFromStr data).map .callback
  | .emails => (Services.parse json.emailFromStr data).map .email

namespace Notificator
variable {σ : Signature} (self : Notificator σ)

/-- One round of the retry stream: a success ends the stream with `Err(())`, a
failure is followed by the pause. -/
def attempt (send : Fut σ (Except ClientError Unit)) (delay : Nat) : Fut σ (Except Unit Unit) :=
  (send.mapErr convert).bind fun
    | .ok _ => .ready (.error ())
    | .error _ => (self.delay delay).mapErr fun _ => ()

/-- The body of `send_push`, `send_email` and `send_callback`. The final `then`
drops what went wrong before it. -/
def sendOrPark (send : Fut σ (Except ClientError Unit)) (park : Fut σ (Except RabbitError Unit)) :
    Fut σ (Except ServiceError Unit) :=
  (forEach (self.attempt send) delays)
    |>.andThen (fun _ => park.mapErr fun _ => ())
    |>.bind fun _ => .ready (.ok ())

def sendPush (push : PushNotifications) : Fut σ (Except ServiceError Unit) :=
  self.sendOrPark (self.iosClient push) (self.publisher.errorPushes push)

def sendEmail (email : Email) : Fut σ (Except ServiceError Unit) :=
  self.sendOrPark (self.emailClient email) (self.publisher.errorEmails email)

def sendCallback (callback : Callback) : Fut σ (Except ServiceError Unit) :=
  self.sendOrPark (self.callbackClient callback) (self.publisher.errorCallbacks callback)

def handleMessage (json : SerdeJson) (data : Bytes) (queueName : String) :
    Fut σ (Except ServiceError Unit) :=
  match queueName with
  -- push notifications are switched off
  | "pushes" => .ready (.ok ())
  | "callbacks" => (Fut.ready (parse json.callbackFromStr data)).andThen self.sendCallback
  | "emails" => (Fut.ready (parse json.emailFromStr data)).andThen self.sendEmail
  | _ => .ready (.error ⟨.internal, some .notSupported⟩)

/-! ## A queue's messages, whatever the queue -/

/-- The client's method that sends the notification. -/
def send : Notification → Fut σ (Except ClientError Unit)
  | .push push => self.iosClient push
  | .callback callback => self.callbackClient callback
  | .email email => self.emailClient email

/-- The publisher's method for the notification. -/
def park : Notification → Fut σ (Except RabbitError Unit)
  | .push push => self.publisher.errorPushes push
  | .callback callback => self.publisher.errorCallbacks callback
  | .email email => self.publisher.errorEmails email

/-- `send_push`, `send_callback` or `send_email`. -/
def deliver (n : Notification) : Fut σ (Except ServiceError Unit) :=
  self.sendOrPark (self.send n) (self.park n)

theorem handleMessage_outbox (json : SerdeJson) (data : Bytes) (q : Outbox) :
    self.handleMessage json data q.name =
      (Fut.ready (q.parse json data)).andThen self.deliver := by
  cases q with
  | callbacks =>
    change (Fut.ready (parse json.callbackFromStr data)).andThen self.sendCallback = _
    simp only [Outbox.parse, andThen, ready_bind]
    cases parse json.callbackFromStr data <;> rfl
  | emails =>
    change (Fut.ready (parse json.emailFromStr data)).andThen self.sendEmail = _
    simp only [Outbox.parse, andThen, ready_bind]
    cases parse json.emailFromStr data <;> rfl

/-! ## The rule of the retry loop

`I` holds before every attempt and before the publication, `J` between a failed
attempt and its pause. -/

variable {A : Assumption σ} {Q : Post σ (Except ServiceError Unit)}
  {I J : List (Event σ) → Prop} {send : Fut σ (Except ClientError Unit)}
  {park : Fut σ (Except RabbitError Unit)}

/-- What a round owes: to go on with `I`, or to stop with `Q`. -/
def AfterRound (Q : Post σ (Except ServiceError Unit)) (I : List (Event σ) → Prop) :
    Post σ (Except Unit Unit)
  | l, none => Q l none
  | l, some (.ok _) => I l
  | l, some (.error _) => Q l (some (.ok ()))

theorem wp_attempt {secs : Nat}
    (hsend : ∀ l, I l → send.wp A (fun l' (r : Option (Except ClientError Unit)) => match r with
      | none => Q l' none
      | some (.ok _) => Q l' (some (.ok ()))
      | some (.error _) => J l') l)
    (hdelay : ∀ l, J l → (self.delay secs).wp A
      (fun l' (r : Option (Except TimerError Unit)) => match r with
        | none => Q l' none
        | some (.ok _) => I l'
        | some (.error _) => Q l' (some (.ok ()))) l)
    {l : List (Event σ)} (h : I l) : (self.attempt send secs).wp A (AfterRound Q I) l := by
  rw [attempt, mapErr, wp_bind, wp_bind]
  refine wp_mono (fun l' r hr => ?_) (hsend l h)
  rcases r with - | (e | u)
  · exact hr
  · change ((self.delay secs).mapErr fun _ => ()).wp A (AfterRound Q I) l'
    rw [mapErr, wp_bind]
    refine wp_mono (fun l'' r' hr' => ?_) (hdelay l' hr)
    rcases r' with - | (e' | u')
    · exact hr'
    · exact hr'
    · exact hr'
  · exact hr

/-- Whatever the attempts, the pauses and the publication do one by one, the loop
does. -/
theorem wp_sendOrPark
    (hsend : ∀ l, I l → send.wp A (fun l' (r : Option (Except ClientError Unit)) => match r with
      | none => Q l' none
      | some (.ok _) => Q l' (some (.ok ()))
      | some (.error _) => J l') l)
    (hdelay : ∀ secs l, J l → (self.delay secs).wp A
      (fun l' (r : Option (Except TimerError Unit)) => match r with
        | none => Q l' none
        | some (.ok _) => I l'
        | some (.error _) => Q l' (some (.ok ()))) l)
    (hpark : ∀ l, I l → park.wp A (fun l' (r : Option (Except RabbitError Unit)) => match r with
      | none => Q l' none
      | some _ => Q l' (some (.ok ()))) l)
    {l : List (Event σ)} (h : I l) : (self.sendOrPark send park).wp A Q l := by
  rw [sendOrPark, wp_bind, andThen, wp_bind]
  have hloop : (forEach (self.attempt send) delays).wp A (AfterRound Q I) l := by
    refine wp_forEach (fun secs _ l' hl' => ?_) (fun l' hl' => hl') h
    refine wp_mono (fun l'' r hr => ?_) (self.wp_attempt hsend (hdelay secs) hl')
    rcases r with - | (e | u)
    · exact hr
    · exact hr
    · exact hr
  refine wp_mono (fun l' r hr => ?_) hloop
  rcases r with - | (e | u)
  · exact hr
  · exact hr
  · change (park.mapErr fun _ => ()).wp A _ l'
    rw [mapErr, wp_bind]
    refine wp_mono (fun l'' r' hr' => ?_) (hpark l' hr)
    rcases r' with - | (e' | u')
    · exact hr'
    · exact hr'
    · exact hr'

end Notificator

end PaymentsNotifications.Services
