import PaymentsNotifications.Lib.Parties
import PaymentsNotifications.Server.Conservation

/-! Several instances of the service on one queue. Each has its own channel and its own
loop, as in `Lives`; the messages that wait are shared. A message that a channel held
when it was lost goes back to its place, and the next free instance gets it. -/

namespace PaymentsNotifications.Server
open Utils

/-- The queue, apart from the channels, and its history: what was published, what was
acknowledged, and what was put back because its channel was gone. -/
structure Backlog where
  ready : List Message
  published : List Message
  acked : List Message
  reclaimed : List Message

/-- An instance: `Lives` without the queue. -/
structure Instance (ι : Type) where
  unacked : List Delivery
  delivered : Nat
  settled : List Nat
  toClient : List Delivery
  toBroker : List (Delivery × Frame)
  consumer : Consumer ι
  connected : Bool
  past : List (List (Delivery × ι))

def Backlog.publish (self : Backlog) (data : Bytes) : Backlog :=
  let m : Message := ⟨self.published.length, data⟩
  { self with ready := self.ready ++ [m], published := self.published ++ [m] }

/-- Messages of a channel that is gone. -/
def Backlog.putBack (self : Backlog) (ms : List Message) : Backlog :=
  { self with ready := ms.foldr Broker.requeue self.ready, reclaimed := self.reclaimed ++ ms }

namespace Instance
variable {ι : Type} {ok : Bytes → ι → Bool}

/-- Not started yet. -/
def absent : Instance ι := ⟨[], 0, [], [], [], ⟨.ended, [], [], []⟩, false, []⟩

/-- The instance at the queue, as if it were alone there. -/
def on (self : Instance ι) (b : Backlog) : Lives ι where
  system := ⟨⟨b.ready, self.unacked, self.delivered, b.published, b.acked, self.settled⟩,
    self.toClient, self.toBroker, self.consumer⟩
  connected := self.connected
  past := self.past

def of (l : Lives ι) : Instance ι where
  unacked := l.system.broker.unacked
  delivered := l.system.broker.delivered
  settled := l.system.broker.settled
  toClient := l.system.toClient
  toBroker := l.system.toBroker
  consumer := l.system.consumer
  connected := l.connected
  past := l.past

/-- What the broker puts back. -/
def takenBack (self : Instance ι) : LivesEvent ι → List Message
  | .channelLost => self.unacked.map Delivery.message
  | .restarted => self.unacked.map Delivery.message
  | _ => []

def step (ok : Bytes → ι → Bool) (b : Backlog) (self : Instance ι) (event : LivesEvent ι) :
    Option (Backlog × Instance ι) :=
  if event.published?.isSome then none
  else ((self.on b).step ok event).map fun l =>
    (⟨l.system.broker.ready, l.system.broker.published, l.system.broker.acked,
      b.reclaimed ++ self.takenBack event⟩, of l)

/-- All handlings, of all lives. -/
def handlings (self : Instance ι) : List (Delivery × ι) :=
  self.past.flatten ++ self.consumer.handled

/-! ## What a step makes of an instance -/

/-- A delivery is on its way. -/
def took (self : Instance ι) (m : Message) : Instance ι :=
  { self with unacked := [⟨self.delivered + 1, m⟩]
              delivered := self.delivered + 1
              toClient := self.toClient ++ [⟨self.delivered + 1, m⟩] }

/-- The loop has it. -/
def begun (self : Instance ι) (d : Delivery) (rest : List Delivery) : Instance ι :=
  { self with toClient := rest
              consumer := { self.consumer with phase := .handling d,
                                               received := self.consumer.received ++ [d] } }

/-- It has handled it. -/
def ended (self : Instance ι) (d : Delivery) (met : ι) (phase : Phase) : Instance ι :=
  { self with consumer := { self.consumer with phase := phase,
                                               handled := self.consumer.handled ++ [(d, met)] } }

def turned (self : Instance ι) (phase : Phase) : Instance ι :=
  { self with consumer := { self.consumer with phase := phase } }

/-- The frame is on its way. -/
def answered (self : Instance ι) (d : Delivery) (frame : Frame) : Instance ι :=
  { self with toBroker := self.toBroker ++ [(d, frame)]
              consumer := { self.consumer with phase := .waiting,
                                               sent := self.consumer.sent ++ [(d, frame)] } }

/-- The broker has it. -/
def freed (self : Instance ι) (d : Delivery) : Instance ι :=
  { self with unacked := [], settled := self.settled ++ [d.deliveryTag], toBroker := [] }

def cutOff (self : Instance ι) : Instance ι :=
  { self with unacked := [], delivered := 0, settled := [], toBroker := [], connected := false }

def restart (self : Instance ι) : Instance ι :=
  ⟨[], 0, [], [], [], Consumer.start, true, self.past ++ [self.consumer.handled]⟩

/-- What a step does, case by case, when at most one delivery is outstanding. -/
inductive Step (ok : Bytes → ι → Bool) (b : Backlog) (c : Instance ι) :
    LivesEvent ι → Backlog → Instance ι → Prop where
  | deliver {m rest} (hready : b.ready = m :: rest) (hfree : c.unacked = [])
      (hup : c.connected = true) :
      Step ok b c (.event .deliver) { b with ready := rest } (c.took m)
  | receive {d rest} (hin : c.toClient = d :: rest) (hp : c.consumer.phase = .waiting) :
      Step ok b c (.event .receive) b (c.begun d rest)
  | succeeded {d met} (hp : c.consumer.phase = .handling d) (hok : ok d.message.data met = true) :
      Step ok b c (.event (.handled met)) b
        (c.ended d met (.settling d (.basicAck d.deliveryTag false)))
  | failed {d met} (hp : c.consumer.phase = .handling d) (hok : ok d.message.data met = false) :
      Step ok b c (.event (.handled met)) b (c.ended d met (.delaying d))
  | delayed {d} (hp : c.consumer.phase = .delaying d) :
      Step ok b c (.event .delayed) b (c.turned (.settling d (.basicNack 0 true true)))
  | settle {d frame} (hp : c.consumer.phase = .settling d frame) (hup : c.connected = true) :
      Step ok b c (.event .settle) b (c.answered d frame)
  | acked {d} (hin : c.toBroker = [(d, .basicAck d.deliveryTag false)]) (hd : c.unacked = [d])
      (hhandled : Handled ok c.consumer.handled d true) :
      Step ok b c (.event .process) { b with acked := b.acked ++ [d.message] } (c.freed d)
  | nacked {d} (hin : c.toBroker = [(d, .basicNack 0 true true)]) (hd : c.unacked = [d])
      (hhandled : Handled ok c.consumer.handled d false) :
      Step ok b c (.event .process) { b with ready := Broker.requeue d.message b.ready } (c.freed d)
  | channelLost (hup : c.connected = true) :
      Step ok b c .channelLost (b.putBack (c.unacked.map Delivery.message)) c.cutOff
  | consumerEnded {e} (hfatal : e.isFatal = true) (hlive : c.consumer.phase ≠ .ended) :
      Step ok b c (.consumerEnded e) b (c.turned .ended)
  | restarted : Step ok b c .restarted (b.putBack (c.unacked.map Delivery.message)) c.restart

/-- The frames on their way: none, or the one for the delivery that is outstanding. -/
def Framed (ok : Bytes → ι → Bool) (c : Instance ι) : Prop :=
  c.toBroker = [] ∨ ∃ d frame, c.toBroker = [(d, frame)] ∧ c.unacked = [d] ∧
    Justified ok c.consumer.handled d frame

/-- The invariant of an instance, whatever the others do: its loop works, or is over, or
its channel is gone. -/
inductive Standing (ok : Bytes → ι → Bool) (c : Instance ι) : Prop where
  | working (hup : c.connected = true) (hshape : ∀ b, System.Shape (c.on b).system)
      (hjust : c.consumer.Justifying ok)
  | deserted (hended : c.consumer.phase = .ended) (hone : c.unacked.length ≤ 1)
      (hframed : c.Framed ok)
  | down (hdown : c.connected = false) (hunacked : c.unacked = []) (hframes : c.toBroker = [])

theorem standing_absent : Standing ok (absent : Instance ι) := .down rfl rfl rfl

/-- The shape of an instance does not depend on the queue. -/
theorem shape_on {c : Instance ι} {b : Backlog} (h : System.Shape (c.on b).system) (b' : Backlog) :
    System.Shape (c.on b').system := by
  cases h with
  | idle hunacked hclient hbroker hphase hsent htags =>
    exact .idle hunacked hclient hbroker hphase hsent htags
  | inFlight d hunacked hclient hbroker hphase hsent htags =>
    exact .inFlight d hunacked hclient hbroker hphase hsent htags
  | busy d hunacked hclient hbroker hphase hsent htags =>
    exact .busy d hunacked hclient hbroker hphase hsent htags
  | settled d frame hunacked hclient hbroker hphase hmem hsent htags =>
    exact .settled d frame hunacked hclient hbroker hphase hmem hsent htags

theorem framed_of_shape {c : Instance ι} {b : Backlog} (h : System.Shape (c.on b).system)
    (hjust : c.consumer.Justifying ok) : c.Framed ok := by
  cases h with
  | idle _ _ hbroker => exact .inl hbroker
  | inFlight _ _ _ hbroker => exact .inl hbroker
  | busy _ _ _ hbroker => exact .inl hbroker
  | settled d frame hunacked _ hbroker _ hmem =>
    exact .inr ⟨d, frame, hbroker, hunacked, hjust.sent d frame hmem⟩

theorem Standing.framed {c : Instance ι} (h : Standing ok c) : c.Framed ok := by
  cases h with
  | working _ hshape hjust => exact framed_of_shape (hshape ⟨[], [], [], []⟩) hjust
  | deserted _ _ hframed => exact hframed
  | down _ _ hframes => exact .inl hframes

theorem Standing.one_unacked {c : Instance ι} (h : Standing ok c) : c.unacked.length ≤ 1 := by
  cases h with
  | working _ hshape =>
    cases hshape ⟨[], [], [], []⟩ with
    | idle hunacked => exact (congrArg List.length hunacked).le.trans (Nat.zero_le 1)
    | inFlight d hunacked => exact (congrArg List.length hunacked).le
    | busy d hunacked => exact (congrArg List.length hunacked).le
    | settled d frame hunacked => exact (congrArg List.length hunacked).le
  | deserted _ hone => exact hone
  | down _ hunacked =>
    rw [hunacked]
    exact Nat.zero_le 1

/-- The system's steps, seen from the instance. -/
theorem step_of_system {b : Backlog} {c : Instance ι} {e : SystemEvent ι} {s : System ι}
    (hframed : c.Framed ok) (hup : e.needsChannel = true → c.connected = true)
    (hno : (LivesEvent.event e).published? = none) (hs : System.Step ok (c.on b).system e s) :
    Step ok b c (.event e)
      ⟨s.broker.ready, s.broker.published, s.broker.acked, b.reclaimed ++ []⟩
      (of ⟨s, c.connected, c.past⟩) := by
  rw [List.append_nil]
  cases hs with
  | publish => cases hno
  | deliver hd =>
    obtain ⟨m, rest, hready, hroom, rfl, rfl⟩ := Broker.deliver_some hd
    have hfree : c.unacked = [] := List.eq_nil_of_length_eq_zero (Nat.lt_one_iff.mp hroom)
    have hstep : Step ok b c _ _ _ := .deliver hready hfree (hup rfl)
    simpa [of, on, took, hfree] using hstep
  | receive hin hc =>
    cases hc with
    | received hp => exact .receive hin hp
  | handled hc =>
    cases hc with
    | succeeded hp hok => exact .succeeded hp hok
    | failed hp hok => exact .failed hp hok
  | delayed hc =>
    cases hc with
    | delayed hp => exact .delayed hp
  | settle hp hc =>
    cases hc with
    | settled hpc =>
      obtain ⟨rfl, rfl⟩ := Phase.settling.inj (hp.symm.trans hpc)
      exact .settle hp (hup rfl)
  | @process d frame rest b' hin hb =>
    rcases hframed with hnone | ⟨d', frame', hone, hd, hjust⟩
    · rw [show (c.on b).system.toBroker = c.toBroker from rfl, hnone] at hin
      cases hin
    · rw [show (c.on b).system.toBroker = c.toBroker from rfl, hone] at hin
      obtain ⟨hhead, rfl⟩ := List.cons.inj hin
      cases hhead
      cases hjust with
      | ack hok =>
        rw [Broker.process_ack hd] at hb
        obtain rfl := Option.some.inj hb
        exact .acked hone hd hok
      | nack hfailed =>
        rw [Broker.process_nack hd] at hb
        obtain rfl := Option.some.inj hb
        exact .nacked hone hd hfailed

theorem step_spec {b b' : Backlog} {c c' : Instance ι} {event : LivesEvent ι} (h : Standing ok c)
    (hs : c.step ok b event = some (b', c')) : Step ok b c event b' c' := by
  unfold step at hs
  by_cases hpublished : event.published?.isSome = true
  · rw [if_pos hpublished] at hs
    cases hs
  rw [if_neg hpublished] at hs
  have hno : event.published? = none := by simpa using hpublished
  obtain ⟨l, hl, heq⟩ := Option.map_eq_some_iff.mp hs
  obtain ⟨rfl, rfl⟩ := Prod.mk.inj heq
  cases Lives.step_spec hl with
  | up hup hsystem => exact step_of_system h.framed (fun _ => hup) hno hsystem
  | down hdown hfree hsystem =>
    refine step_of_system h.framed (fun hneeds => ?_) hno hsystem
    rw [hfree] at hneeds
    cases hneeds
  | channelLost hup =>
    have hstep : Step ok b c _ _ _ := .channelLost hup
    simpa [of, on, takenBack, cutOff, Backlog.putBack, Broker.reclaim, List.foldr_map] using hstep
  | @consumerEnded e consumer hfatal hc =>
    have hsame : consumer = { c.consumer with phase := .ended } := by
      cases hc with
      | settleFailed => rfl
      | streamFailed => rfl
      | streamEnded => rfl
      | received => cases hfatal
      | succeeded => cases hfatal
      | failed => cases hfatal
      | delayed => cases hfatal
      | settled => cases hfatal
    have hstep : Step ok b c _ _ _ := .consumerEnded hfatal hc.not_ended
    rw [hsame]
    simpa [of, on, takenBack, turned] using hstep
  | restarted =>
    have hstep : Step ok b c _ _ _ := .restarted
    simpa [of, on, takenBack, restart, Backlog.putBack, Lives.restart, Broker.reclaim,
      List.foldr_map] using hstep

/-- The frame on its way was for the delivery of the shape. -/
theorem shape_settled {b : Backlog} {c : Instance ι} {d : Delivery} {frame : Frame}
    (h : System.Shape (c.on b).system) (hin : c.toBroker = [(d, frame)]) (b' : Backlog) :
    System.Shape ((c.freed d).on b').system := by
  have hin' : (c.on b).system.toBroker = [(d, frame)] := hin
  cases h with
  | settled d' frame' hunacked hclient hbroker hphase hmem hsent htags =>
    rw [hbroker] at hin'
    obtain ⟨hhead, -⟩ := List.cons.inj hin'
    cases hhead
    exact .idle rfl hclient rfl hphase hsent htags
  | idle _ _ hbroker => rw [hbroker] at hin'; cases hin'
  | inFlight _ _ _ hbroker => rw [hbroker] at hin'; cases hin'
  | busy _ _ _ hbroker => rw [hbroker] at hin'; cases hin'

/-- An instance that works goes on working, until its channel or its loop ends. -/
theorem Step.working {b b' : Backlog} {c c' : Instance ι} {event : LivesEvent ι}
    (hstep : Step ok b c event b' c') (hup : c.connected = true)
    (hshape : ∀ b, System.Shape (c.on b).system) (hjust : c.consumer.Justifying ok) :
    Standing ok c' := by
  cases hstep with
  | @deliver m rest hready hfree =>
    have hd : (c.on b).system.broker.deliver = some (⟨c.delivered + 1, m⟩,
        { (c.on b).system.broker with
          ready := rest
          unacked := [⟨c.delivered + 1, m⟩]
          delivered := c.delivered + 1 }) := by
      simp [on, Broker.deliver, hready, hfree, consumerPrefetchCount]
    exact .working hup (shape_on (b := ⟨rest, b.published, b.acked, b.reclaimed⟩)
      (System.shape_deliver (hshape b) hd)) hjust
  | @receive d rest hin hp =>
    have hc : Consumer.Step ok c.consumer (.received d) _ := .received hp
    exact .working hup (shape_on (b := b) (System.shape_receive (hshape b) hin hc)) (hc.justifying hjust)
  | succeeded hp hok =>
    have hc := Consumer.Step.succeeded hp hok
    exact .working hup (shape_on (b := b) (System.shape_handled (hshape b) hc)) (hc.justifying hjust)
  | failed hp hok =>
    have hc := Consumer.Step.failed hp hok
    exact .working hup (shape_on (b := b) (System.shape_handled (hshape b) hc)) (hc.justifying hjust)
  | delayed hp =>
    have hc : Consumer.Step ok _ _ _ := .delayed hp
    exact .working hup (shape_on (b := b) (System.shape_delayed (hshape b) hc)) (hc.justifying hjust)
  | settle hp =>
    have hc : Consumer.Step ok _ _ _ := .settled hp
    exact .working hup (shape_on (b := b) (System.shape_settle (hshape b) hp hc)) (hc.justifying hjust)
  | acked hin hd => exact .working hup (shape_settled (hshape b) hin) hjust
  | nacked hin hd => exact .working hup (shape_settled (hshape b) hin) hjust
  | channelLost => exact .down rfl rfl rfl
  | consumerEnded =>
    have hframed : c.Framed ok := framed_of_shape (hshape b) hjust
    exact .deserted rfl (Standing.working hup hshape hjust).one_unacked hframed
  | restarted => exact .working rfl (fun _ => .idle rfl rfl rfl rfl rfl rfl) Consumer.justifying_start

theorem Step.standing {b b' : Backlog} {c c' : Instance ι} {event : LivesEvent ι}
    (hstep : Step ok b c event b' c') (h : Standing ok c) : Standing ok c' := by
  cases h with
  | working hup hshape hjust => exact hstep.working hup hshape hjust
  | deserted hended hone hframed =>
    cases hstep with
    | deliver hready hfree =>
      refine .deserted hended (Nat.le_refl 1) (.inl ?_)
      rcases hframed with hnone | ⟨d, frame, -, hd, -⟩
      · exact hnone
      · rw [hfree] at hd
        cases hd
    | receive _ hp => rw [hended] at hp; cases hp
    | succeeded hp => rw [hended] at hp; cases hp
    | failed hp => rw [hended] at hp; cases hp
    | delayed hp => rw [hended] at hp; cases hp
    | settle hp => rw [hended] at hp; cases hp
    | acked => exact .deserted hended (Nat.zero_le 1) (.inl rfl)
    | nacked => exact .deserted hended (Nat.zero_le 1) (.inl rfl)
    | channelLost => exact .down rfl rfl rfl
    | consumerEnded _ hlive => exact (hlive hended).elim
    | restarted =>
      exact .working rfl (fun _ => .idle rfl rfl rfl rfl rfl rfl) Consumer.justifying_start
  | down hdown hunacked hframes =>
    cases hstep with
    | deliver _ _ hup => rw [hdown] at hup; cases hup
    | receive => exact .down hdown hunacked hframes
    | succeeded => exact .down hdown hunacked hframes
    | failed => exact .down hdown hunacked hframes
    | delayed => exact .down hdown hunacked hframes
    | settle _ hup => rw [hdown] at hup; cases hup
    | acked hin => rw [hframes] at hin; cases hin
    | nacked hin => rw [hframes] at hin; cases hin
    | channelLost hup => rw [hdown] at hup; cases hup
    | consumerEnded => exact .down hdown hunacked hframes
    | restarted =>
      exact .working rfl (fun _ => .idle rfl rfl rfl rfl rfl rfl) Consumer.justifying_start

end Instance
end PaymentsNotifications.Server
