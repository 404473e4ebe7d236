import PaymentsNotifications.Lib.Coupling
import PaymentsNotifications.Server.Fate
import PaymentsNotifications.Server.LogLevel

/-! The log level and the splitting of bodies, over whole handlings and whole runs. Where
no accepted email breaks off, nobody outside can tell the level of a process, nor does the
process see how the bodies were cut. -/

namespace PaymentsNotifications.Services
open Futures Futures.Fut

variable {σ : Signature} {A : Likeness σ}

/-- Attempts, pauses and a publication that are alike make retry loops that are. -/
theorem Notificator.sendOrPark_alike {self other : Notificator σ}
    {send send' : Fut σ (Except ClientError Unit)} {park park' : Fut σ (Except RabbitError Unit)}
    (hsend : Alike A SameSuccess send send')
    (hdelay : ∀ secs, Alike A SameSuccess (self.delay secs) (other.delay secs))
    (hpark : Alike A SameSuccess park park') :
    Alike A Eq (self.sendOrPark send park) (other.sendOrPark send' park') := by
  have hattempt : ∀ secs, Alike A SameSuccess (self.attempt send secs) (other.attempt send' secs) := by
    intro secs
    have hconverted : Alike A SameSuccess (send.mapErr convert) (send'.mapErr convert) :=
      hsend.mapErr fun _ _ _ => trivial
    refine hconverted.bind fun x y hxy => ?_
    cases hxy with
    | ok => exact .ready (.error trivial)
    | error => exact (hdelay secs).mapErr fun _ _ _ => trivial
  have hloop : Alike A SameSuccess (forEach (self.attempt send) delays)
      (forEach (other.attempt send') delays) :=
    Alike.forEach fun secs _ => hattempt secs
  have hparked : Alike A SameSuccess (park.mapErr fun _ => ()) (park'.mapErr fun _ => ()) :=
    hpark.mapErr fun _ _ _ => trivial
  exact (hloop.andThen fun _ _ _ => hparked).bind fun _ _ _ => .ready rfl

end PaymentsNotifications.Services

namespace PaymentsNotifications.Server
open Futures Futures.Fut Models Utils Transport External Client Services Rabbit

namespace Process

/-- Answers that differ in how their bodies are split, at most. -/
def SameAnswers : Likeness Wire
  | .http _ => SameUpToSplit
  | .delay _ => Eq
  | .basicPublish _ _ _ => Eq

/-- No email is accepted by a response that breaks off. -/
def Unbroken (q : Outbox) : Event Wire → Prop
  | ⟨.http _, some (.ok resp)⟩ =>
    q = .emails → accepted resp.status = true → resp.body.ending = .finished
  | _ => True

variable {self : Process} {q : Outbox} {n : Notification} {data : Bytes}

theorem Unbroken.not_breaksOff {req : Request} {answer : Except HyperError Response}
    (hparse : q.parse self.crates.json data = .ok n) (h : Unbroken q ⟨.http req, some answer⟩) :
    ¬ self.BreaksOff n answer := by
  rintro ⟨⟨email, rfl⟩, -, resp, rfl, haccepted, hfailed⟩
  have hq : q = .emails := by
    cases q with
    | emails => rfl
    | callbacks =>
      simp only [Outbox.parse] at hparse
      cases hp : Services.parse self.crates.json.callbackFromStr data with
      | error e => rw [hp] at hparse; cases hparse
      | ok callback => rw [hp] at hparse; cases hparse
  rw [h hq haccepted] at hfailed
  cases hfailed

/-- The same answer on both sides, with nothing broken off. -/
def Whole (q : Outbox) : Likeness Wire :=
  fun c r r' => SameAnswers c r r' ∧ Unbroken q ⟨c, some r⟩

theorem send_alike (hparse : q.parse self.crates.json data = .ok n) (level : LevelFilter) :
    Alike (Whole q) SameSuccess (self.notificator.send n) ((self.atLevel level).notificator.send n) := by
  cases hreq : self.request n with
  | error e =>
    rw [self.send_error hreq, (self.atLevel level).send_error ((self.request_atLevel n level).trans hreq)]
    exact .ready (.error trivial)
  | ok req =>
    rw [self.send_ok hreq, (self.atLevel level).send_ok ((self.request_atLevel n level).trans hreq)]
    refine .call fun answer answer' ⟨hsame, hwhole⟩ => .ready (sameSuccess_of_toBool ?_)
    have hlevel : self.accepts n answer = (self.atLevel level).accepts n answer :=
      self.accepts_level hreq (hwhole.not_breaksOff hparse) self.maxLevel level
    exact hlevel.trans (congrArg Except.toBool ((self.atLevel level).verdict_split n hsame))

theorem deliver_alike (hparse : q.parse self.crates.json data = .ok n) (level : LevelFilter) :
    Alike (Whole q) Eq (self.notificator.deliver n) ((self.atLevel level).notificator.deliver n) := by
  refine Notificator.sendOrPark_alike (send_alike hparse level) (fun secs => ?_) ?_
  · refine .call fun r r' ⟨hsame, _⟩ => .ready (sameSuccess_of_toBool ?_)
    exact congrArg Except.toBool (show r = r' from hsame)
  · rw [park_eq, park_eq]
    refine .call fun r r' ⟨hsame, _⟩ => .ready (sameSuccess_of_toBool ?_)
    exact congrArg (Except.toBool ∘ publication) (show r = r' from hsame)

theorem handleMessage_alike (data : Bytes) (level : LevelFilter) :
    Alike (Whole q) Eq (self.notificator.handleMessage self.crates.json data q.name)
      ((self.atLevel level).notificator.handleMessage self.crates.json data q.name) := by
  rw [Notificator.handleMessage_outbox, Notificator.handleMessage_outbox]
  cases hparse : q.parse self.crates.json data with
  | error e => exact .ready rfl
  | ok n => exact deliver_alike hparse level

end Process

/-- Conditions that answer alike, and end the handling at the same time. -/
structure Conditions.Alike (A : Likeness Wire) (met met' : Conditions Wire) : Prop where
  env : met.env.Alike A met'.env
  timerFails : met.timerFails = met'.timerFails

namespace Process
variable {self : Process} {q : Outbox}

theorem handling_coupled {B : Likeness Wire} (hB : ∀ c r r', B c r r' → SameAnswers c r r')
    (data : Bytes) (level : LevelFilter) {met met' : Conditions Wire} (hmet : met.Alike B met')
    (hwhole : ∀ e ∈ (self.subscription q).events data met, Unbroken q e) :
    ((self.subscription q).handling data met).Alike B Eq
      (((self.atLevel level).subscription q).handling data met') := by
  have hdeadline : met'.deadline self.config.rabbit.restartSubscriptionSecs =
      met.deadline self.config.rabbit.restartSubscriptionSecs := by
    rw [Conditions.deadline, Conditions.deadline, hmet.timerFails]
  unfold Subscription.handling
  rw [show ((self.atLevel level).subscription q).timeout =
    self.config.rabbit.restartSubscriptionSecs from rfl, hdeadline]
  refine (handleMessage_alike data level).runUntil hmet.env fun entry hmem r r' hr hsame =>
    ⟨hB _ _ _ hsame, ?_⟩
  have hunbroken := hwhole entry.event (List.mem_map_of_mem hmem)
  rw [Entry.event, hr] at hunbroken
  exact hunbroken

/-- Two handlings of one message, at different log levels and with the bodies cut in
different ways, make the same calls at the same times, and end alike. -/
theorem handling_alike (data : Bytes) (level : LevelFilter) {met met' : Conditions Wire}
    (hmet : met.Alike SameAnswers met')
    (hwhole : ∀ e ∈ (self.subscription q).events data met, Unbroken q e) :
    ((self.subscription q).handling data met).Alike SameAnswers Eq
      (((self.atLevel level).subscription q).handling data met') :=
  handling_coupled (fun _ _ _ h => h) data level hmet hwhole

/-- An answer with a body that ends has nothing broken off. -/
theorem unbroken_answering {resp : Response} (hend : resp.body.ending = .finished) (q : Outbox)
    (data : Bytes) : ∀ e ∈ (self.subscription q).events data ⟨answering resp, none⟩, Unbroken q e := by
  intro e hmem
  obtain ⟨⟨call, start, answer⟩, hentry, rfl⟩ := List.mem_map.mp hmem
  cases answer with
  | none => cases call <;> exact trivial
  | some answer =>
    obtain ⟨j, hj⟩ := runUntil_answer _ _ _ _ _ _ hentry _ rfl
    cases call with
    | http req =>
      obtain rfl : .ok resp = answer := hj
      exact fun _ _ => hend
    | delay secs => exact trivial
    | basicPublish exchange routingKey payload => exact trivial

/-- The callback's answer is `null`, in one chunk and byte by byte. -/
theorem handling_alike_example :
    ((exampleProcess.subscription .callbacks).handling (bytesOf exampleCallbackJson)
        ⟨answering ⟨⟨200⟩, Body.from (bytesOf "null")⟩, none⟩).Alike SameAnswers Eq
      (((exampleProcess.atLevel .trace).subscription .callbacks).handling
        (bytesOf exampleCallbackJson)
        ⟨answering ⟨⟨200⟩, ⟨(bytesOf "null").map fun b => [b], .finished⟩⟩, none⟩) := by
  refine handling_alike _ .trace ⟨fun i c => ?_, rfl⟩ (unbroken_answering rfl _ _)
  cases c with
  | http req => exact ⟨⟨rfl, rfl, by decide⟩, rfl⟩
  | delay secs => exact ⟨rfl, rfl⟩
  | basicPublish exchange routingKey payload => exact ⟨rfl, rfl⟩

end Process

/-! ## Whole runs -/

section Congruence
variable {ι : Type} {ok ok' : Bytes → ι → Bool}

end Congruence

namespace Deployment
variable {types : Amqp.ExchangeTypes} {process : Process} {contents : Outbox → List Bytes}
  {host : Amqp.Host Bytes} {events : List DeploymentEvent} {D : Deployment}

/-- In none of the handlings was an email accepted by a response that breaks off. -/
def Unbroken (process : Process) (D : Deployment) : Prop :=
  ∀ q, ∀ h ∈ (D.lives q).handlings, ∀ e ∈ process.handlingEvents q h, Process.Unbroken q e

end Deployment

end PaymentsNotifications.Server
