import PaymentsNotifications.Rabbit.ErrorQueues
import PaymentsNotifications.Server.ExactlyOnce

/-! The service and its broker: the queues of callbacks and emails, over lost channels
and restarts, and the virtual host with the error queues, which others use as well. What
comes into the queues of callbacks and emails is an event of their lives, whoever sends it
and however it is routed; the host is there for the rest. Pushes are left out.
What a handling publishes reaches the host when the handling ends, since it is the
last thing a handling does; without a confirmation it may have been lost on the way. A
process that dies in a handling is one whose handling was cut short there, by its
timeout's timer, and that is then started again. -/

namespace PaymentsNotifications.Server
open Futures Futures.Fut Models Utils Transport External Services Rabbit

/-- What a handling met, and whether a publication that was not confirmed has arrived. -/
abbrev Met := Conditions Wire × Bool

namespace Process
variable (self : Process)

def succeeds (q : Outbox) (data : Bytes) (met : Met) : Bool :=
  (self.subscription q).succeeds data met.1

def handlingEvents (q : Outbox) (h : Delivery × Met) : List (Event Wire) :=
  (self.subscription q).events h.1.message.data h.2.1

def errorQueueOf : Outbox → String
  | .callbacks => "error_callbacks"
  | .emails => "error_emails"

/-- What an event brings to the broker. The properties of a publication are the default
ones, so there is no delivery mode. -/
def publication? (arrived : Bool) : Event Wire → Option (Amqp.Command Bytes)
  | ⟨.basicPublish exchange routingKey payload, some (.ok _)⟩ =>
    some (.basicPublish exchange routingKey ⟨payload, false⟩)
  | ⟨.basicPublish exchange routingKey payload, _⟩ =>
    if arrived then some (.basicPublish exchange routingKey ⟨payload, false⟩) else none
  | _ => none

/-- What a handling brings to the broker. -/
def publications (q : Outbox) (h : Delivery × Met) : List (Amqp.Command Bytes) :=
  (self.handlingEvents q h).filterMap (publication? h.2.2)

/-- The messages of the publications. -/
def parkedMessages (q : Outbox) (h : Delivery × Met) : List (Amqp.Message Bytes) :=
  (self.publications q h).filterMap Amqp.Command.message?

variable {self} {n : Notification} {q : Outbox}

/-- The events of a course: the request of the notification, pauses, and its
publication. -/
theorem Course.event_cases {pauses : List Nat} {l : List (Event Wire)}
    {o : Option (Except ServiceError Unit)} (h : self.Course n pauses l o) {e : Event Wire}
    (he : e ∈ l) :
    (∃ req answer, self.request n = .ok req ∧ e = ⟨.http req, answer⟩) ∨
      (∃ secs answer, e = ⟨.delay secs, answer⟩) ∨ ∃ answer, e = ⟨self.parkCall n, answer⟩ := by
  have hattempt : ∀ {attempt}, self.Refused n attempt → e ∈ attempt →
      ∃ req answer, self.request n = .ok req ∧ e = ⟨.http req, answer⟩ := by
    intro attempt hrefused hmem
    cases hrefused with
    | built hreq => exact ⟨_, _, hreq, List.mem_singleton.mp hmem⟩
    | unbuilt => exact (List.not_mem_nil hmem).elim
  have hpause : ∀ {attempt secs answer}, self.Refused n attempt →
      e ∈ attempt ++ [⟨.delay secs, answer⟩] →
      (∃ req answer, self.request n = .ok req ∧ e = ⟨.http req, answer⟩) ∨
        (∃ secs answer, e = ⟨.delay secs, answer⟩) ∨ ∃ answer, e = ⟨self.parkCall n, answer⟩ := by
    intro attempt secs answer hrefused hmem
    rcases List.mem_append.mp hmem with hfirst | hlast
    · exact .inl (hattempt hrefused hfirst)
    · exact .inr (.inl ⟨_, _, List.mem_singleton.mp hlast⟩)
  induction h with
  | round hrefused _ ih =>
    rcases List.mem_append.mp he with hfirst | hrest
    · exact .inl (hattempt hrefused hfirst)
    · rcases List.mem_cons.mp hrest with rfl | hrest
      · exact .inr (.inl ⟨_, _, rfl⟩)
      · exact ih hrest
  | accepted hreq => exact .inl ⟨_, _, hreq, List.mem_singleton.mp he⟩
  | timerFailed hrefused => exact hpause hrefused he
  | parked => exact .inr (.inr ⟨_, List.mem_singleton.mp he⟩)
  | attemptDropped hreq => exact .inl ⟨_, _, hreq, List.mem_singleton.mp he⟩
  | pauseDropped hrefused => exact hpause hrefused he
  | parkingDropped => exact .inr (.inr ⟨_, List.mem_singleton.mp he⟩)

theorem errorQueue_of_parse {json : SerdeJson} {data : Bytes} (hparse : q.parse json data = .ok n) :
    errorQueue n = errorQueueOf q := by
  cases q with
  | callbacks =>
    simp only [Outbox.parse] at hparse
    cases hp : Services.parse json.callbackFromStr data with
    | error e => rw [hp] at hparse; cases hparse
    | ok callback => rw [hp] at hparse; cases hparse; rfl
  | emails =>
    simp only [Outbox.parse] at hparse
    cases hp : Services.parse json.emailFromStr data with
    | error e => rw [hp] at hparse; cases hparse
    | ok email => rw [hp] at hparse; cases hparse; rfl

/-- A message that is not understood is not sent anywhere. -/
theorem events_malformed {data : Bytes} {e : ServiceError}
    (hparse : q.parse self.crates.json data = .error e) (met : Conditions Wire) :
    (self.subscription q).events data met = [] := by
  have hfut := self.notificator.handleMessage_outbox self.crates.json data q
  rw [hparse] at hfut
  have hrun := congrArg
    (·.runUntil (met.deadline self.config.rabbit.restartSubscriptionSecs) met.env 0 0) hfut
  rw [Subscription.events]
  exact congrArg (fun run => run.log.map Entry.event) hrun

/-- Whatever a handling publishes is its notification, to the error queue. -/
theorem publications_eq (h : Delivery × Met) :
    self.publications q h =
      (self.parkedMessages q h).map (.basicPublish "notifications" (errorQueueOf q)) := by
  have hall : ∀ c ∈ self.publications q h,
      ∃ message, c = .basicPublish "notifications" (errorQueueOf q) message := by
    intro c hc
    obtain ⟨e, he, hsome⟩ := List.mem_filterMap.mp hc
    cases hparse : q.parse self.crates.json h.1.message.data with
    | error err =>
      rw [handlingEvents, events_malformed hparse] at he
      exact (List.not_mem_nil he).elim
    | ok n =>
      rcases (handling_course hparse h.2.1).event_cases he with
        ⟨req, answer, -, rfl⟩ | ⟨secs, answer, rfl⟩ | ⟨answer, rfl⟩
      · cases hsome
      · cases hsome
      · rw [← errorQueue_of_parse hparse]
        rcases answer with - | ⟨err | u⟩
        · simp only [publication?, parkCall, Option.ite_none_right_eq_some] at hsome
          exact ⟨_, (Option.some.inj hsome.2).symm⟩
        · simp only [publication?, parkCall, Option.ite_none_right_eq_some] at hsome
          exact ⟨_, (Option.some.inj hsome.2).symm⟩
        · exact ⟨_, (Option.some.inj hsome).symm⟩
  unfold parkedMessages
  generalize self.publications q h = cs at hall ⊢
  induction cs with
  | nil => rfl
  | cons c cs ih =>
    obtain ⟨message, rfl⟩ := hall c List.mem_cons_self
    exact congrArg (_ :: ·) (ih fun c' hc' => hall c' (List.mem_cons_of_mem _ hc'))

theorem errorQueueOf_mem (q : Outbox) : errorQueueOf q ∈ errorQueues := by
  cases q <;> decide

theorem errorQueueOf_inj {q q' : Outbox} (h : errorQueueOf q = errorQueueOf q') :
    q = q' := by
  revert h
  cases q <;> cases q' <;> decide

/-- What the handlings of one queue bring is in its error queue, and nowhere else. -/
theorem history_brought {types : Amqp.ExchangeTypes} {h h' : Amqp.Host Bytes} (hplace : InPlace h)
    (hown : Own h) {messages : List (Amqp.Message Bytes)}
    (hall : h.applyAll types (messages.map (.basicPublish "notifications" (errorQueueOf q))) = .ok h') :
    InPlace h' ∧ Own h' ∧
      (∀ q', h'.history (errorQueueOf q') =
        h.history (errorQueueOf q') ++ if q' = q then messages else []) ∧
      h'.history "error_pushes" = h.history "error_pushes" ∧
      ∀ name ∈ inputQueues, h'.queues name = h.queues name := by
  obtain ⟨hplace', hown', hhistory, hinputs⟩ := history_parked hplace hown hall
  refine ⟨hplace', hown', fun q' => ?_, ?_, hinputs⟩
  · rw [hhistory _ (errorQueueOf_mem q')]
    by_cases hq : q' = q
    · subst hq
      rw [if_pos rfl, if_pos rfl]
    · rw [if_neg hq, if_neg fun heq => hq (errorQueueOf_inj heq).symm]
  · rw [hhistory _ (by decide), if_neg (by cases q <;> decide), List.append_nil]

end Process

structure Deployment where
  lives : Outbox → Lives Met
  host : Amqp.Host Bytes

/-- What happens: on a queue, to the process as a whole, and to the virtual host by
others. -/
inductive DeploymentEvent where
  | queue (q : Outbox) (event : LivesEvent Met)
  | restarted (ds : List Amqp.Declaration)
  | others (c : Amqp.Command Bytes)

def DeploymentEvent.isRestart : DeploymentEvent → Bool
  | .restarted _ => true
  | _ => false

/-- The new process makes its declarations, and others leave the service's queues alone. -/
def DeploymentEvent.Proper : DeploymentEvent → Prop
  | .queue _ _ => True
  | .restarted ds => StartUp ds
  | .others c => Foreign c

namespace Deployment

def start (contents : Outbox → List Bytes) (host : Amqp.Host Bytes) : Deployment :=
  ⟨fun q => .start (contents q), host⟩

/-- What the handling that ends with the event brings to the broker. -/
def brings (process : Process) (self : Deployment) (q : Outbox) (event : LivesEvent Met) :
    List (Amqp.Command Bytes) :=
  ((self.lives q).ended event).flatMap (process.publications q)

def step (types : Amqp.ExchangeTypes) (process : Process) (self : Deployment) :
    DeploymentEvent → Option Deployment
  | .queue q event =>
    if event.isRestart then none
    else do
      let l ← (self.lives q).step (process.succeeds q) event
      let host ← (self.host.applyAll types (self.brings process q event)).toOption
      some ⟨Function.update self.lives q l, host⟩
  | .restarted ds =>
    (self.host.declareAll ds).toOption.map fun host => ⟨fun q => (self.lives q).restart, host⟩
  | .others c => (self.host.apply types c).toOption.map fun host => { self with host := host }

def machine (types : Amqp.ExchangeTypes) (process : Process) (contents : Outbox → List Bytes)
    (host : Amqp.Host Bytes) : Transition.Machine Deployment DeploymentEvent where
  init := start contents host
  step := step types process

/-- What a step does, case by case. -/
inductive Step (types : Amqp.ExchangeTypes) (process : Process) :
    Deployment → DeploymentEvent → Deployment → Prop where
  | queue {D q event l host} (halive : event.isRestart = false)
      (hs : (D.lives q).step (process.succeeds q) event = some l)
      (hhost : D.host.applyAll types (D.brings process q event) = .ok host) :
      Step types process D (.queue q event) ⟨Function.update D.lives q l, host⟩
  | restarted {D ds host} (hhost : D.host.declareAll ds = .ok host) :
      Step types process D (.restarted ds) ⟨fun q => (D.lives q).restart, host⟩
  | others {D c host} (hhost : D.host.apply types c = .ok host) :
      Step types process D (.others c) { D with host := host }

theorem step_spec {types : Amqp.ExchangeTypes} {process : Process} {D D' : Deployment}
    {event : DeploymentEvent} (h : D.step types process event = some D') :
    Step types process D event D' := by
  cases event with
  | queue q event =>
    simp only [step] at h
    by_cases halive : event.isRestart = true
    · rw [if_pos halive] at h
      cases h
    · rw [if_neg halive] at h
      obtain ⟨l, hs, h⟩ := Option.bind_eq_some_iff.mp h
      obtain ⟨host, hhost, h⟩ := Option.bind_eq_some_iff.mp h
      obtain rfl := Option.some.inj h
      exact .queue (Bool.eq_false_of_not_eq_true halive) hs (toOption_some hhost)
  | restarted ds =>
    obtain ⟨host, hhost, rfl⟩ := Option.map_eq_some_iff.mp h
    exact .restarted (toOption_some hhost)
  | others c =>
    obtain ⟨host, hhost, rfl⟩ := Option.map_eq_some_iff.mp h
    exact .others (toOption_some hhost)

theorem brings_eq (process : Process) (D : Deployment) (q : Outbox) (event : LivesEvent Met) :
    D.brings process q event = (((D.lives q).ended event).flatMap (process.parkedMessages q)).map
      (.basicPublish "notifications" (Process.errorQueueOf q)) := by
  rw [brings, List.map_flatMap]
  exact congrArg (List.flatMap · _) (funext fun h => Process.publications_eq h)

/-! ## Each queue by itself -/

variable {types : Amqp.ExchangeTypes} {process : Process} {contents : Outbox → List Bytes}
  {host : Amqp.Host Bytes} {events : List DeploymentEvent} {D : Deployment}

/-- A step takes a queue one step further, or leaves it alone; only restarts restart it. -/
theorem Step.lives {event : DeploymentEvent} {D' : Deployment}
    (hstep : Step types process D event D') (q : Outbox) :
    D'.lives q = D.lives q ∧ event.isRestart = false ∨
      ∃ label, (D.lives q).step (process.succeeds q) label = some (D'.lives q) ∧
        label.isRestart = event.isRestart := by
  cases hstep with
  | @queue q' event l host halive hs _ =>
    by_cases hq : q = q'
    · subst hq
      refine .inr ⟨event, ?_, halive⟩
      simp only [hs, Function.update_self]
    · exact .inl ⟨Function.update_of_ne hq .., rfl⟩
  | restarted => exact .inr ⟨.restarted, rfl, rfl⟩
  | others => exact .inl ⟨rfl, rfl⟩

/-- What happens to one queue is a run of its lives, with the restarts of the process. -/
theorem reaches_lives (h : (machine types process contents host).Reaches events D) (q : Outbox) :
    ∃ labels, (Lives.machine (process.succeeds q) (contents q)).Reaches labels (D.lives q) ∧
      labels.countP LivesEvent.isRestart = events.countP DeploymentEvent.isRestart := by
  refine h.history (P := fun events D =>
    ∃ labels, (Lives.machine (process.succeeds q) (contents q)).Reaches labels (D.lives q) ∧
      labels.countP LivesEvent.isRestart = events.countP DeploymentEvent.isRestart) ?_ ?_
  · exact ⟨[], rfl, rfl⟩
  rintro events D event D' ⟨labels, hreaches, hcount⟩ hs
  rcases (step_spec hs).lives q with ⟨hsame, hno⟩ | ⟨label, hlabel, hrestart⟩
  · refine ⟨labels, hsame ▸ hreaches, ?_⟩
    rw [List.countP_append, List.countP_singleton, hno, hcount]
    rfl
  · refine ⟨labels ++ [label], Transition.Machine.runFrom_trans _ hreaches ?_, ?_⟩
    · rw [Transition.Machine.runFrom_cons _ hlabel]
      rfl
    · rw [List.countP_append, List.countP_append, List.countP_singleton, List.countP_singleton,
        hrestart, hcount]

/-- The virtual host holds no queue up. -/
theorem runFrom_queue {process : Process} {D : Deployment} (hplace : InPlace D.host) (q : Outbox)
    {labels : List (LivesEvent Met)} {l : Lives Met}
    (hrun : (Lives.machine (process.succeeds q) (contents q)).runFrom (D.lives q) labels = some l)
    (halive : ∀ label ∈ labels, label.isRestart = false) :
    ∃ D', (machine types process contents host).runFrom D (labels.map (.queue q)) = some D' ∧
      D'.lives q = l := by
  induction labels generalizing D with
  | nil => exact ⟨D, rfl, Option.some.inj hrun⟩
  | cons label labels ih =>
    rw [Transition.Machine.runFrom] at hrun
    obtain ⟨l₁, hl₁, hrun⟩ := Option.bind_eq_some_iff.mp hrun
    obtain ⟨host₁, hhost₁⟩ := applyAll_parked types hplace (Process.errorQueueOf q)
      (((D.lives q).ended label).flatMap (process.parkedMessages q))
    have hstep : D.step types process (.queue q label) =
        some ⟨Function.update D.lives q l₁, host₁⟩ := by
      have hl : (D.lives q).step (process.succeeds q) label = some l₁ := hl₁
      simp [step, halive label List.mem_cons_self, hl, brings_eq, hhost₁, Except.toOption]
    obtain ⟨D', hrest, hD'⟩ := ih (D := ⟨Function.update D.lives q l₁, host₁⟩)
      (hplace.mono (Amqp.Host.applyAll_extends hhost₁))
      (by simpa only [Function.update_self] using hrun)
      fun label' hmem => halive label' (List.mem_cons_of_mem _ hmem)
    refine ⟨D', ?_, hD'⟩
    rw [List.map_cons, Transition.Machine.runFrom_cons _ hstep]
    exact hrest

/-! ## The error queues -/

/-- What the error queues have got is what the handlings have published, in their order;
nobody publishes pushes. The queues that are consumed are not touched on the host. -/
structure Accounts (process : Process) (host : Amqp.Host Bytes) (D : Deployment) : Prop where
  inPlace : InPlace D.host
  parked : ∀ q, D.host.history (Process.errorQueueOf q) =
    host.history (Process.errorQueueOf q) ++ (D.lives q).handlings.flatMap (process.parkedMessages q)
  pushes : D.host.history "error_pushes" = host.history "error_pushes"
  inputs : ∀ name ∈ inputQueues, D.host.queues name = host.queues name

/-- A step that brings nothing into the queues and handles nothing. -/
theorem Accounts.moved {D D' : Deployment} (h : Accounts process host D)
    (hplace : InPlace D'.host)
    (hhistory : ∀ name ∈ errorQueues, D'.host.history name = D.host.history name)
    (hinputs : ∀ name ∈ inputQueues, D'.host.queues name = D.host.queues name)
    (hhandlings : ∀ q, (D'.lives q).handlings = (D.lives q).handlings) :
    Accounts process host D' where
  inPlace := hplace
  parked q := by rw [hhistory _ (Process.errorQueueOf_mem q), hhandlings q, h.parked q]
  pushes := by rw [hhistory _ (by decide), h.pushes]
  inputs name hname := (hinputs name hname).trans (h.inputs name hname)

theorem Step.accounted {event : DeploymentEvent} {D' : Deployment}
    (hstep : Step types process D event D') (hproper : event.Proper) (hown : Own D.host)
    (h : Accounts process host D) : Own D'.host ∧ Accounts process host D' := by
  cases hstep with
  | @queue q event l host' halive hs hhost =>
    rw [brings_eq] at hhost
    obtain ⟨hplace, hown', hhistory, hpushes, hinputs⟩ :=
      Process.history_brought h.inPlace hown hhost
    refine ⟨hown', hplace, fun q' => ?_, hpushes.trans h.pushes,
      fun name hname => (hinputs name hname).trans (h.inputs name hname)⟩
    show host'.history _ = _ ++ ((Function.update D.lives q l q').handlings).flatMap _
    rw [hhistory, h.parked q', List.append_assoc]
    by_cases hq : q' = q
    · subst hq
      rw [if_pos rfl, Function.update_self, (Lives.step_spec hs).handlings_eq, List.flatMap_append]
    · rw [if_neg hq, List.append_nil, Function.update_of_ne hq]
  | @restarted ds host' hhost =>
    obtain rfl := kept_startUp h.inPlace hproper hhost
    refine ⟨hown, h.moved h.inPlace (fun _ _ => rfl) (fun _ _ => rfl) fun q => ?_⟩
    simp [Lives.handlings, Lives.restart, Consumer.start]
  | @others c host' hhost =>
    obtain ⟨hplace, hown', hhistory, hinputs⟩ := kept_foreign h.inPlace hown hproper hhost
    exact ⟨hown', h.moved hplace hhistory hinputs fun _ => rfl⟩

theorem reaches_accounts (h : (machine types process contents host).Reaches events D)
    (hproper : ∀ event ∈ events, event.Proper) (hplace : InPlace host) (hown : Own host) :
    Own D.host ∧ Accounts process host D := by
  have hstart : Accounts process host (start contents host) :=
    { inPlace := hplace
      parked := fun _ => (List.append_nil _).symm
      pushes := rfl
      inputs := fun _ _ => rfl }
  refine h.history (P := fun events D =>
    (∀ event ∈ events, event.Proper) → Own D.host ∧ Accounts process host D)
    (fun _ => ⟨hown, hstart⟩) (fun events D event D' ih hs hproper => ?_) hproper
  obtain ⟨hown, haccounts⟩ := ih fun e he => hproper e (List.mem_append_left _ he)
  exact (step_spec hs).accounted
    (hproper event (List.mem_append_right _ (List.mem_singleton.mpr rfl))) hown haccounts

end Deployment

end PaymentsNotifications.Server
