import PaymentsNotifications.Server.Deployment

/-! What becomes of a message. It waits in its queue, or is outstanding, or the client of an
attempt to send it has taken the answer for a success, or it was published to its error
queue; there it stays until somebody takes it, or the broker is restarted. What a service
has made of a request is not known here: an email passes with a redirect. -/

namespace PaymentsNotifications.Server
open Futures Futures.Fut Models Utils Transport External Client Services Rabbit

namespace Process
variable {self : Process} {n : Notification} {q : Outbox}

/-- An event that decides about the notification is an accepted attempt to send it, or
its confirmed publication. -/
theorem Course.resolves_cases {pauses : List Nat} {l : List (Event Wire)}
    {o : Option (Except ServiceError Unit)} (h : self.Course n pauses l o) {e : Event Wire}
    (he : e ∈ l) (hyes : self.resolves n e = true) :
    (∃ req answer, self.request n = .ok req ∧ e = ⟨.http req, some answer⟩ ∧
        self.accepts n answer = true) ∨ e = ⟨self.parkCall n, some (.ok ())⟩ := by
  rcases h.event_cases he with ⟨req, answer, hreq, rfl⟩ | ⟨secs, answer, rfl⟩ | ⟨answer, rfl⟩
  · cases answer with
    | none => cases hyes
    | some answer => exact .inl ⟨req, answer, hreq, rfl, hyes⟩
  · cases hyes
  · rcases answer with - | ⟨e | u⟩
    · cases hyes
    · cases hyes
    · exact .inr rfl

/-- An attempt in the handling was answered, and its client took that for a success: the
status is not 4xx or 5xx, and the client is satisfied with the body. -/
def Answered (self : Process) (q : Outbox) (h : Delivery × Met) (n : Notification) : Prop :=
  ∃ req resp, self.request n = .ok req ∧ ⟨.http req, some (.ok resp)⟩ ∈ self.handlingEvents q h ∧
    accepted resp.status = true ∧ self.takes n resp.body = true

/-- The handling published the notification to its error queue, and this was confirmed. -/
def Parked (self : Process) (q : Outbox) (h : Delivery × Met) (n : Notification) : Prop :=
  ⟨self.parkCall n, some (.ok ())⟩ ∈ self.handlingEvents q h

theorem parkedMessages_mem {h : Delivery × Met} (hparked : self.Parked q h n) :
    ⟨self.payload n, false⟩ ∈ self.parkedMessages q h :=
  List.mem_filterMap.mpr ⟨.basicPublish "notifications" (errorQueue n) ⟨self.payload n, false⟩,
    List.mem_filterMap.mpr ⟨_, hparked, rfl⟩, rfl⟩

/-- A handling that ends well had an attempt answered, or has parked its notification. -/
theorem decided {h : Delivery × Met} (hok : self.succeeds q h.1.message.data h.2 = true)
    (hfaithful : ∀ e ∈ self.handlingEvents q h, Faithful e) :
    ∃ n, q.parse self.crates.json h.1.message.data = .ok n ∧
      (self.Answered q h n ∨ self.Parked q h n) := by
  obtain ⟨n, t, hparse, -, hresult⟩ := self.succeeds_deliver hok
  have hcourse := handling_course hparse h.2.1
  rw [hresult] at hcourse
  obtain ⟨e, he, hyes⟩ := List.countP_pos_iff.mp (hcourse.resolved rfl hfaithful)
  refine ⟨n, hparse, ?_⟩
  rcases hcourse.resolves_cases he hyes with ⟨req, answer, hreq, rfl, haccepts⟩ | rfl
  · obtain ⟨resp, rfl, hstatus, hbody⟩ := self.accepts_iff.mp haccepts
    exact .inl ⟨req, resp, hreq, he, hstatus, hbody⟩
  · exact .inr he

end Process

namespace Deployment

inductive Fate (process : Process) (D : Deployment) (q : Outbox) (m : Message) : Prop where
  | ready (h : m ∈ (D.lives q).system.broker.ready)
  | outstanding {d : Delivery} (h : d ∈ (D.lives q).system.broker.unacked) (hd : d.message = m)
  | answered {h : Delivery × Met} {n : Notification} (hmem : h ∈ (D.lives q).handlings)
      (hmessage : h.1.message = m) (hparse : q.parse process.crates.json m.data = .ok n)
      (hanswered : process.Answered q h n)
  | parked {h : Delivery × Met} {n : Notification} (hmem : h ∈ (D.lives q).handlings)
      (hmessage : h.1.message = m) (hparse : q.parse process.crates.json m.data = .ok n)
      (hparked : process.Parked q h n)
      (harrived : ⟨process.payload n, false⟩ ∈ D.host.history (Process.errorQueueOf q))

variable {types : Amqp.ExchangeTypes} {process : Process} {contents : Outbox → List Bytes}
  {host : Amqp.Host Bytes} {events : List DeploymentEvent} {D : Deployment}

/-- Every message that was ever in a queue, at any time, when timers fire and
publications are confirmed in its handlings. -/
theorem fate (h : (machine types process contents host).Reaches events D)
    (hproper : ∀ event ∈ events, event.Proper) (hplace : InPlace host) (hown : Own host)
    {q : Outbox} {m : Message} (hm : m ∈ (D.lives q).system.broker.published)
    (hfaithful : ∀ h ∈ (D.lives q).handlings, h.1.message = m →
      ∀ e ∈ process.handlingEvents q h, Process.Faithful e) : Fate process D q m := by
  obtain ⟨labels, hlives, -⟩ := reaches_lives h q
  rw [← (Lives.reaches_inv hlives).standing.accounted.1.messages, List.append_assoc] at hm
  rcases List.mem_append.mp hm with hacked | hrest
  · obtain ⟨d, met, hmem, rfl, hok⟩ :=
      Lives.successes_pos.mp ((Lives.reaches_history hlives).2.1 m hacked)
    obtain ⟨n, hparse, hanswered | hparked⟩ :=
      process.decided hok (hfaithful (d, met) hmem rfl)
    · exact .answered hmem rfl hparse hanswered
    · refine .parked hmem rfl hparse hparked ?_
      rw [(reaches_accounts h hproper hplace hown).2.parked q]
      exact List.mem_append_right _
        (List.mem_flatMap.mpr ⟨(d, met), hmem, Process.parkedMessages_mem hparked⟩)
  · rcases List.mem_append.mp hrest with hunacked | hready
    · obtain ⟨d, hd, hmessage⟩ := List.mem_map.mp hunacked
      exact .outstanding hd hmessage
    · exact .ready hready

/-! ## An email nobody takes

The mail service answers 500 to every attempt; timers fire and the publication is
confirmed. -/

def refusing500 : Met := (⟨answering ⟨⟨500⟩, Body.from []⟩, none⟩, true)

def exampleContents : Outbox → List Bytes
  | .callbacks => []
  | .emails => [bytesOf exampleEmailJson]

theorem faithful_answering (resp : Response) (q : Outbox) (data : Bytes) :
    ∀ e ∈ (process.subscription q).events data ⟨answering resp, none⟩, Process.Faithful e := by
  intro e hmem
  obtain ⟨⟨call, start, answer⟩, hentry, rfl⟩ := List.mem_map.mp hmem
  cases answer with
  | none => cases call <;> exact trivial
  | some answer =>
    obtain ⟨j, hj⟩ := runUntil_answer _ _ _ _ _ _ hentry _ rfl
    cases call with
    | http req => exact trivial
    | delay secs => exact hj.symm
    | basicPublish exchange routingKey payload => exact hj.symm

theorem own_emptyHost : Own emptyHost := fun _ hb => (List.not_mem_nil hb).elim

/-- A new broker, on which the service has started, and handled the email. -/
theorem exists_refused : ∃ host D, InPlace host ∧ Own host ∧
    (∀ name, host.history name = []) ∧
    (machine directTypes patientProcess exampleContents host).Reaches
      ((Lives.ackedLabels refusing500).map (.queue .emails)) D ∧
    D.lives .emails = Lives.acked (bytesOf exampleEmailJson) refusing500 := by
  obtain ⟨host, hall, hplace⟩ := exists_inPlace
  have hok : patientProcess.succeeds .emails (bytesOf exampleEmailJson) refusing500 = true := by
    decide
  have halive : ∀ label ∈ Lives.ackedLabels refusing500, label.isRestart = false := by
    intro label hmem
    obtain ⟨e, -, rfl⟩ := List.mem_map.mp hmem
    rfl
  obtain ⟨D, hrun, hlives⟩ : ∃ D, (machine directTypes patientProcess exampleContents host).Reaches
      ((Lives.ackedLabels refusing500).map (.queue .emails)) D ∧
      D.lives .emails = Lives.acked (bytesOf exampleEmailJson) refusing500 :=
    runFrom_queue hplace .emails (Lives.reaches_acked hok) halive
  refine ⟨host, D, hplace, own_emptyHost.started (Amqp.Host.declareAll_extendsBy hall),
    fun name => ?_, hrun, hlives⟩
  exact Amqp.Host.history_declareAll hall name

theorem proper_queue {q : Outbox} {labels : List (LivesEvent Met)} :
    ∀ event ∈ labels.map (DeploymentEvent.queue q), event.Proper := by
  intro event hmem
  obtain ⟨label, -, rfl⟩ := List.mem_map.mp hmem
  exact trivial

theorem fate_example : ∃ D, Fate patientProcess D .emails ⟨0, bytesOf exampleEmailJson⟩ := by
  obtain ⟨host, D, hplace, hown, -, hreaches, hlives⟩ := exists_refused
  refine ⟨D, fate hreaches proper_queue hplace hown ?_ fun h hmem _ e he => ?_⟩
  · rw [hlives]
    exact List.mem_cons_self
  · rw [hlives] at hmem
    rw [List.mem_singleton.mp hmem] at he
    exact faithful_answering _ .emails _ e he

/-! ## A restart of the broker -/

end Deployment

end PaymentsNotifications.Server
