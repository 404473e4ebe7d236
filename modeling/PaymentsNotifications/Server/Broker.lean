import Mathlib.Data.List.Sort
import PaymentsNotifications.Server.Consumer

/-! One queue of the broker and its consumer, with the frames between them. The
broker hands out at most `CONSUMER_PREFETCH_COUNT` messages that are not settled,
numbers its deliveries, puts a message that is given back where it was, and keeps
the order of frames. There is one channel, and this consumer is alone on it. -/

namespace PaymentsNotifications.Server
open Utils

/-- `CONSUMER_PREFETCH_COUNT` (`rabbit/r2d2.rs`). -/
def consumerPrefetchCount : Nat := 1

/-- The queue and the channel's outstanding deliveries, with their history: all
messages published, those whose `basic_ack` was processed, the tags settled. -/
structure Broker where
  ready : List Message
  unacked : List Delivery
  delivered : Nat
  published : List Message
  acked : List Message
  settled : List Nat
  deriving DecidableEq, Repr

/-- Tag 0 with `multiple` stands for everything outstanding on the channel. -/
def Frame.covers (d : Delivery) : Frame → Bool
  | .basicAck tag multiple => if multiple then tag == 0 || d.deliveryTag ≤ tag else d.deliveryTag == tag
  | .basicNack tag multiple _ => if multiple then tag == 0 || d.deliveryTag ≤ tag else d.deliveryTag == tag

namespace Broker

def publish (self : Broker) (data : Bytes) : Broker :=
  let m : Message := ⟨self.published.length, data⟩
  { self with ready := self.ready ++ [m], published := self.published ++ [m] }

/-- The next delivery, when the channel has room for one. -/
def deliver (self : Broker) : Option (Delivery × Broker) :=
  match self.ready with
  | [] => none
  | m :: rest =>
    if self.unacked.length < consumerPrefetchCount then
      let d : Delivery := ⟨self.delivered + 1, m⟩
      some (d, { self with ready := rest, unacked := self.unacked ++ [d],
                           delivered := self.delivered + 1 })
    else none

/-- Back to the original position. -/
def requeue (m : Message) (ready : List Message) : List Message :=
  ready.orderedInsert (fun a b => a.position ≤ b.position) m

/-- A frame that settles nothing names an unknown tag, which closes the channel. -/
def process (self : Broker) (frame : Frame) : Option Broker :=
  let covered := self.unacked.filter fun d => frame.covers d
  if covered = [] then none
  else
    let rest := { self with unacked := self.unacked.filter fun d => !frame.covers d,
                            settled := self.settled ++ covered.map Delivery.deliveryTag }
    match frame with
    | .basicAck _ _ => some { rest with acked := self.acked ++ covered.map Delivery.message }
    | .basicNack _ _ true =>
      some { rest with ready := covered.foldr (fun d ready => requeue d.message ready) self.ready }
    | .basicNack _ _ false => some rest

theorem deliver_some {b b' : Broker} {d : Delivery} (h : b.deliver = some (d, b')) :
    ∃ m rest, b.ready = m :: rest ∧ b.unacked.length < consumerPrefetchCount ∧
      d = ⟨b.delivered + 1, m⟩ ∧
      b' = { b with ready := rest, unacked := b.unacked ++ [d], delivered := b.delivered + 1 } := by
  unfold deliver at h
  split at h
  · cases h
  · rename_i m rest hready
    by_cases hroom : b.unacked.length < consumerPrefetchCount
    · rw [if_pos hroom] at h
      obtain ⟨rfl, rfl⟩ := Prod.mk.inj (Option.some.inj h)
      exact ⟨m, rest, hready, hroom, rfl, rfl⟩
    · rw [if_neg hroom] at h
      cases h

/-- An acknowledgement of the only delivery outstanding. -/
theorem process_ack {b : Broker} {d : Delivery} (h : b.unacked = [d]) :
    b.process (.basicAck d.deliveryTag false) =
      some { b with unacked := [], acked := b.acked ++ [d.message],
                    settled := b.settled ++ [d.deliveryTag] } := by
  simp [process, h, Frame.covers]

/-- Everything is given back, and that is one delivery. -/
theorem process_nack {b : Broker} {d : Delivery} (h : b.unacked = [d]) :
    b.process (.basicNack 0 true true) =
      some { b with unacked := [], ready := requeue d.message b.ready,
                    settled := b.settled ++ [d.deliveryTag] } := by
  simp [process, h, Frame.covers]

/-- A message that comes before all that are ready goes to the front. -/
theorem requeue_front {m : Message} {ready : List Message}
    (h : ∀ m' ∈ ready, m.position < m'.position) : requeue m ready = m :: ready := by
  cases ready with
  | nil => rfl
  | cons m' rest =>
    have hle : m.position ≤ m'.position := Nat.le_of_lt (h m' List.mem_cons_self)
    exact List.orderedInsert_cons_of_le _ _ hle

end Broker

/-- The queue, the consumer, and the frames on their way. A frame to the broker
is noted with the delivery the loop sent it for; the broker does not see the note. -/
structure System (ι : Type) where
  broker : Broker
  toClient : List Delivery
  toBroker : List (Delivery × Frame)
  consumer : Consumer ι

inductive SystemEvent (ι : Type) where
  | publish (data : Bytes)
  | deliver
  | receive
  | handled (met : ι)
  | delayed
  | settle
  | process

namespace System
variable {ι : Type}

/-- A queue with these contents, before the consumer's first delivery. -/
def start (contents : List Bytes) : System ι :=
  let messages := contents.mapIdx Message.mk
  ⟨⟨messages, [], 0, messages, [], []⟩, [], [], Consumer.start⟩

def step (ok : Bytes → ι → Bool) (self : System ι) : SystemEvent ι → Option (System ι)
  | .publish data => some { self with broker := self.broker.publish data }
  | .deliver =>
    self.broker.deliver.map fun (d, b) =>
      { self with broker := b, toClient := self.toClient ++ [d] }
  | .receive =>
    match self.toClient with
    | [] => none
    | d :: rest =>
      (self.consumer.step ok (.received d)).map fun c =>
        { self with toClient := rest, consumer := c }
  | .handled met =>
    (self.consumer.step ok (.handled met)).map fun c => { self with consumer := c }
  | .delayed => (self.consumer.step ok .delayed).map fun c => { self with consumer := c }
  | .settle =>
    match self.consumer.phase with
    | .settling d frame =>
      (self.consumer.step ok .settled).map fun c =>
        { self with consumer := c, toBroker := self.toBroker ++ [(d, frame)] }
    | _ => none
  | .process =>
    match self.toBroker with
    | [] => none
    | (_, frame) :: rest =>
      (self.broker.process frame).map fun b => { self with broker := b, toBroker := rest }

/-- What a step does, case by case. -/
inductive Step (ok : Bytes → ι → Bool) : System ι → SystemEvent ι → System ι → Prop where
  | publish {s data} : Step ok s (.publish data) { s with broker := s.broker.publish data }
  | deliver {s d b} (hd : s.broker.deliver = some (d, b)) :
      Step ok s .deliver { s with broker := b, toClient := s.toClient ++ [d] }
  | receive {s d rest c} (hin : s.toClient = d :: rest)
      (hc : Consumer.Step ok s.consumer (.received d) c) :
      Step ok s .receive { s with toClient := rest, consumer := c }
  | handled {s met c} (hc : Consumer.Step ok s.consumer (.handled met) c) :
      Step ok s (.handled met) { s with consumer := c }
  | delayed {s c} (hc : Consumer.Step ok s.consumer .delayed c) :
      Step ok s .delayed { s with consumer := c }
  | settle {s d frame c} (hp : s.consumer.phase = .settling d frame)
      (hc : Consumer.Step ok s.consumer .settled c) :
      Step ok s .settle { s with consumer := c, toBroker := s.toBroker ++ [(d, frame)] }
  | process {s d frame rest b} (hin : s.toBroker = (d, frame) :: rest)
      (hb : s.broker.process frame = some b) :
      Step ok s .process { s with broker := b, toBroker := rest }

theorem step_spec {ok : Bytes → ι → Bool} {s s' : System ι} {event : SystemEvent ι}
    (h : s.step ok event = some s') : Step ok s event s' := by
  cases event with
  | publish data =>
    obtain rfl := Option.some.inj h
    exact .publish
  | deliver =>
    obtain ⟨⟨d, b⟩, hd, rfl⟩ := Option.map_eq_some_iff.mp h
    exact .deliver hd
  | receive =>
    simp only [step] at h
    split at h
    · cases h
    · rename_i d rest hin
      obtain ⟨c, hc, rfl⟩ := Option.map_eq_some_iff.mp h
      exact .receive hin (Consumer.step_spec hc)
  | handled met =>
    obtain ⟨c, hc, rfl⟩ := Option.map_eq_some_iff.mp h
    exact .handled (Consumer.step_spec hc)
  | delayed =>
    obtain ⟨c, hc, rfl⟩ := Option.map_eq_some_iff.mp h
    exact .delayed (Consumer.step_spec hc)
  | settle =>
    simp only [step] at h
    split at h
    · rename_i d frame hp
      obtain ⟨c, hc, rfl⟩ := Option.map_eq_some_iff.mp h
      exact .settle hp (Consumer.step_spec hc)
    · cases h
  | process =>
    simp only [step] at h
    split at h
    · cases h
    · rename_i d frame rest hin
      obtain ⟨b, hb, rfl⟩ := Option.map_eq_some_iff.mp h
      exact .process hin hb

/-- The system as a machine, from a queue with these contents. -/
def machine (ok : Bytes → ι → Bool) (contents : List Bytes) :
    Transition.Machine (System ι) (SystemEvent ι) where
  init := start contents
  step := step ok

/-! ## One message, from its delivery to its settlement -/

/-- Nothing is under way. -/
structure Idle (s : System ι) : Prop where
  unacked : s.broker.unacked = []
  toClient : s.toClient = []
  toBroker : s.toBroker = []
  phase : s.consumer.phase = .waiting

theorem idle_start (contents : List Bytes) : (start contents : System ι).Idle :=
  ⟨rfl, rfl, rfl, rfl⟩

/-- The way of a delivery that is handled well, and of one that is not. -/
def takenLabels (met : ι) : List (SystemEvent ι) :=
  [.deliver, .receive, .handled met, .settle, .process]

def givenBackLabels (met : ι) : List (SystemEvent ι) :=
  [.deliver, .receive, .handled met, .delayed, .settle, .process]

/-- After the message in front was handled well. -/
def taken (s : System ι) (m : Message) (rest : List Message) (met : ι) : System ι :=
  let d : Delivery := ⟨s.broker.delivered + 1, m⟩
  { broker := { s.broker with ready := rest, delivered := s.broker.delivered + 1,
                              acked := s.broker.acked ++ [m],
                              settled := s.broker.settled ++ [d.deliveryTag] }
    toClient := []
    toBroker := []
    consumer := ⟨.waiting, s.consumer.received ++ [d], s.consumer.handled ++ [(d, met)],
      s.consumer.sent ++ [(d, .basicAck d.deliveryTag false)]⟩ }

/-- After the message in front was handled without success. -/
def givenBack (s : System ι) (m : Message) (met : ι) : System ι :=
  let d : Delivery := ⟨s.broker.delivered + 1, m⟩
  { broker := { s.broker with delivered := s.broker.delivered + 1,
                              settled := s.broker.settled ++ [d.deliveryTag] }
    toClient := []
    toBroker := []
    consumer := ⟨.waiting, s.consumer.received ++ [d], s.consumer.handled ++ [(d, met)],
      s.consumer.sent ++ [(d, .basicNack 0 true true)]⟩ }

/-- After the message in front was handled without success so many times. -/
def givenBackTimes (s : System ι) (m : Message) (met : ι) : Nat → System ι
  | 0 => s
  | k + 1 => (s.givenBackTimes m met k).givenBack m met

section Cycle
variable {ok : Bytes → ι → Bool} {s : System ι} {m : Message} {rest : List Message} {met : ι}

theorem Idle.taken (h : s.Idle) (m : Message) (rest : List Message) (met : ι) :
    (s.taken m rest met).Idle :=
  ⟨h.unacked, rfl, rfl, rfl⟩

theorem Idle.givenBack (h : s.Idle) (m : Message) (met : ι) : (s.givenBack m met).Idle :=
  ⟨h.unacked, rfl, rfl, rfl⟩

theorem runFrom_taken (contents : List Bytes) (h : s.Idle) (hready : s.broker.ready = m :: rest)
    (hok : ok m.data met = true) :
    (machine ok contents).runFrom s (takenLabels met) = some (s.taken m rest met) := by
  obtain ⟨⟨ready, unacked, delivered, published, acked, settled⟩, toClient, toBroker,
    ⟨phase, received, handled, sent⟩⟩ := s
  obtain ⟨rfl, rfl, rfl, rfl⟩ := h
  subst hready
  simp [takenLabels, Transition.Machine.runFrom, machine, step, Consumer.step, Broker.deliver,
    Broker.process, Frame.covers, System.taken, consumerPrefetchCount, hok]

/-- The message goes back in front of those behind it. -/
theorem runFrom_givenBack (contents : List Bytes) (h : s.Idle) (hready : s.broker.ready = m :: rest)
    (hrest : ∀ m' ∈ rest, m.position < m'.position) (hno : ok m.data met = false) :
    (machine ok contents).runFrom s (givenBackLabels met) = some (s.givenBack m met) := by
  obtain ⟨⟨ready, unacked, delivered, published, acked, settled⟩, toClient, toBroker,
    ⟨phase, received, handled, sent⟩⟩ := s
  obtain ⟨rfl, rfl, rfl, rfl⟩ := h
  subst hready
  simp [givenBackLabels, Transition.Machine.runFrom, machine, step, Consumer.step, Broker.deliver,
    Broker.process, Frame.covers, System.givenBack, consumerPrefetchCount, hno, Broker.requeue_front hrest]

theorem Idle.givenBackTimes (h : s.Idle) (m : Message) (met : ι) (k : Nat) :
    (s.givenBackTimes m met k).Idle := by
  induction k with
  | zero => exact h
  | succ k ih => exact ih.givenBack m met

theorem givenBackTimes_ready (s : System ι) (m : Message) (met : ι) (k : Nat) :
    (s.givenBackTimes m met k).broker.ready = s.broker.ready := by
  induction k with
  | zero => rfl
  | succ k ih => exact ih

/-- It is handled again and again. -/
theorem runFrom_givenBackTimes (contents : List Bytes) (h : s.Idle)
    (hready : s.broker.ready = m :: rest) (hrest : ∀ m' ∈ rest, m.position < m'.position)
    (hno : ok m.data met = false) (k : Nat) :
    (machine ok contents).runFrom s (List.replicate k (givenBackLabels met)).flatten =
      some (s.givenBackTimes m met k) := by
  induction k with
  | zero => rfl
  | succ k ih =>
    have hagain := runFrom_givenBack contents (h.givenBackTimes m met k)
      ((givenBackTimes_ready s m met k).trans hready) hrest hno
    rw [List.replicate_succ', List.flatten_append, List.flatten_singleton]
    exact Transition.Machine.runFrom_trans _ ih hagain

end Cycle

/-! ## Systems that decide alike -/

section Simulation
variable {κ : Type} {ok : Bytes → ι → Bool} {ok' : Bytes → κ → Bool}
  {R : Bytes → ι → κ → Prop}

/-- The same system, with other handlings behind it. -/
def withHandled (s : System ι) (handled : List (Delivery × κ)) : System κ where
  broker := s.broker
  toClient := s.toClient
  toBroker := s.toBroker
  consumer := ⟨s.consumer.phase, s.consumer.received, handled, s.consumer.sent⟩

/-- The handlings of the same deliveries, one by one in the relation. -/
def Matched (R : Bytes → ι → κ → Prop) : List (Delivery × ι) → List (Delivery × κ) → Prop :=
  List.Forall₂ fun h h' => h'.1 = h.1 ∧ R h.1.message.data h.2 h'.2

/-- When every handling is matched by one with the same outcome, every step is. -/
theorem Step.simulated (hR : ∀ data met, ∃ met', R data met met' ∧ ok' data met' = ok data met)
    {s t : System ι} {event : SystemEvent ι} (hstep : Step ok s event t)
    {handled : List (Delivery × κ)} (h : Matched R s.consumer.handled handled) :
    ∃ event' handled', (s.withHandled handled).step ok' event' = some (t.withHandled handled') ∧
      Matched R t.consumer.handled handled' := by
  cases hstep with
  | @publish data => exact ⟨.publish data, handled, rfl, h⟩
  | deliver hd =>
    refine ⟨.deliver, handled, ?_, h⟩
    simp only [step, withHandled, hd, Option.map_some]
  | receive hin hc =>
    cases hc with
    | received hp =>
      refine ⟨.receive, handled, ?_, h⟩
      simp only [step, withHandled, hin, Consumer.step, hp, Option.map_some]
  | @handled met c hc =>
    cases hc with
    | @succeeded d _ hp hok =>
      obtain ⟨met', hmet, hok'⟩ := hR d.message.data met
      refine ⟨.handled met', handled ++ [(d, met')], ?_,
        List.rel_append h (.cons ⟨rfl, hmet⟩ .nil)⟩
      simp only [step, withHandled, Consumer.step, hp, hok', hok, if_true, Option.map_some]
    | @failed d _ hp hno =>
      obtain ⟨met', hmet, hok'⟩ := hR d.message.data met
      refine ⟨.handled met', handled ++ [(d, met')], ?_,
        List.rel_append h (.cons ⟨rfl, hmet⟩ .nil)⟩
      simp only [step, withHandled, Consumer.step, hp, hok', hno, Bool.false_eq_true, if_false,
        Option.map_some]
  | delayed hc =>
    cases hc with
    | delayed hp =>
      refine ⟨.delayed, handled, ?_, h⟩
      simp only [step, withHandled, Consumer.step, hp, Option.map_some]
  | settle hp hc =>
    cases hc with
    | settled hpc =>
      obtain ⟨rfl, rfl⟩ := Phase.settling.inj (hp.symm.trans hpc)
      refine ⟨.settle, handled, ?_, h⟩
      simp only [step, withHandled, Consumer.step, hpc, Option.map_some]
  | process hin hb =>
    refine ⟨.process, handled, ?_, h⟩
    simp only [step, withHandled, hin, hb, Option.map_some]

/-- Then every run is. -/
theorem reaches_simulated (hR : ∀ data met, ∃ met', R data met met' ∧ ok' data met' = ok data met)
    {contents : List Bytes} {labels : List (SystemEvent ι)} {s : System ι}
    (h : (machine ok contents).Reaches labels s) :
    ∃ labels' handled, (machine ok' contents).Reaches labels' (s.withHandled handled) ∧
      Matched R s.consumer.handled handled := by
  have hstart : (machine ok' contents).Reaches []
      ((start contents : System ι).withHandled ([] : List (Delivery × κ))) := rfl
  refine h.invariant (P := fun s => ∃ labels' handled,
    (machine ok' contents).Reaches labels' (s.withHandled handled) ∧
      Matched R s.consumer.handled handled) ?_ ?_
  · exact ⟨[], [], hstart, List.Forall₂.nil⟩
  rintro s event t ⟨labels', handled, hreaches, hmatched⟩ hstep
  obtain ⟨event', handled', hstep', hmatched'⟩ := (step_spec hstep).simulated hR hmatched
  have hlast : (machine ok' contents).runFrom (s.withHandled handled) [event'] =
      some (t.withHandled handled') := by
    rw [Transition.Machine.runFrom_cons _ hstep']
    rfl
  exact ⟨labels' ++ [event'], handled', Transition.Machine.runFrom_trans _ hreaches hlast, hmatched'⟩

end Simulation

end System

end PaymentsNotifications.Server
