import PaymentsNotifications.Server.Cluster

/-! A queue whose messages say the same in other words. The broker never looks into a
message, and the loop only asks whether a handling succeeds: when that does not depend
on the words, every step with the one text is a step with the other. -/

namespace PaymentsNotifications.Server
open Utils

variable {ι : Type} (f : Bytes → Bytes)

def Message.reworded (self : Message) : Message := ⟨self.position, f self.data⟩

def Delivery.reworded (self : Delivery) : Delivery := ⟨self.deliveryTag, self.message.reworded f⟩

def Phase.reworded : Phase → Phase
  | .waiting => .waiting
  | .handling d => .handling (d.reworded f)
  | .delaying d => .delaying (d.reworded f)
  | .settling d frame => .settling (d.reworded f) frame
  | .ended => .ended

def Consumer.reworded (self : Consumer ι) : Consumer ι where
  phase := self.phase.reworded f
  received := self.received.map (Delivery.reworded f)
  handled := self.handled.map (Prod.map (Delivery.reworded f) id)
  sent := self.sent.map (Prod.map (Delivery.reworded f) id)

def Broker.reworded (self : Broker) : Broker where
  ready := self.ready.map (Message.reworded f)
  unacked := self.unacked.map (Delivery.reworded f)
  delivered := self.delivered
  published := self.published.map (Message.reworded f)
  acked := self.acked.map (Message.reworded f)
  settled := self.settled

def System.reworded (self : System ι) : System ι where
  broker := self.broker.reworded f
  toClient := self.toClient.map (Delivery.reworded f)
  toBroker := self.toBroker.map (Prod.map (Delivery.reworded f) id)
  consumer := self.consumer.reworded f

def Lives.reworded (self : Lives ι) : Lives ι where
  system := self.system.reworded f
  connected := self.connected
  past := self.past.map (·.map (Prod.map (Delivery.reworded f) id))

def SystemEvent.reworded : SystemEvent ι → SystemEvent ι
  | .publish data => .publish (f data)
  | e => e

def ConsumerEvent.reworded : ConsumerEvent ι → ConsumerEvent ι
  | .received d => .received (d.reworded f)
  | e => e

def LivesEvent.reworded : LivesEvent ι → LivesEvent ι
  | .event e => .event (e.reworded f)
  | .consumerEnded e => .consumerEnded (e.reworded f)
  | e => e

/-! ## The broker -/

namespace Broker

theorem publish_reworded (b : Broker) (data : Bytes) :
    (b.publish data).reworded f = (b.reworded f).publish (f data) := by
  simp [publish, reworded, Message.reworded]

theorem deliver_reworded (b : Broker) :
    (b.reworded f).deliver = b.deliver.map (Prod.map (Delivery.reworded f) (Broker.reworded f)) := by
  cases hready : b.ready with
  | nil => simp [deliver, reworded, hready]
  | cons m rest =>
    by_cases hroom : b.unacked.length < consumerPrefetchCount
    · simp [deliver, reworded, hready, hroom, Delivery.reworded]
    · simp [deliver, reworded, hready, hroom]

theorem requeue_reworded (m : Message) (ready : List Message) :
    (requeue m ready).map (Message.reworded f) =
      requeue (m.reworded f) (ready.map (Message.reworded f)) :=
  List.map_orderedInsert _ _ _ ready m (fun _ _ => Iff.rfl) fun _ _ => Iff.rfl

theorem putBack_reworded (ds : List Delivery) (ready : List Message) :
    (ds.foldr (fun d ready => requeue d.message ready) ready).map (Message.reworded f) =
      (ds.map (Delivery.reworded f)).foldr (fun d ready => requeue d.message ready)
        (ready.map (Message.reworded f)) := by
  induction ds with
  | nil => rfl
  | cons d ds ih =>
    rw [List.foldr_cons, requeue_reworded, ih]
    rfl

theorem covers_reworded (d : Delivery) (frame : Frame) :
    frame.covers (d.reworded f) = frame.covers d := by
  cases frame <;> rfl

theorem covered_reworded (p : Bool → Bool) (frame : Frame) (ds : List Delivery) :
    ((ds.map (Delivery.reworded f)).filter fun d => p (frame.covers d)) =
      (ds.filter fun d => p (frame.covers d)).map (Delivery.reworded f) := by
  rw [List.filter_map]
  exact congrArg (List.map _) (List.filter_congr fun d _ => congrArg p (covers_reworded f d frame))

theorem process_reworded (b : Broker) (frame : Frame) :
    (b.reworded f).process frame = (b.process frame).map (Broker.reworded f) := by
  have hcovered := covered_reworded f id frame b.unacked
  have hrest := covered_reworded f not frame b.unacked
  simp only [id_eq] at hcovered
  have hmessages : ∀ ds : List Delivery, (ds.map (Delivery.reworded f)).map Delivery.message =
      (ds.map Delivery.message).map (Message.reworded f) := fun ds => by
    simp [Delivery.reworded, Function.comp_def]
  have htags : ∀ ds : List Delivery, (ds.map (Delivery.reworded f)).map Delivery.deliveryTag =
      ds.map Delivery.deliveryTag := fun ds => by
    simp [Delivery.reworded, Function.comp_def]
  unfold process
  simp only [reworded, hcovered, hrest, List.map_eq_nil_iff, htags]
  by_cases hnone : (b.unacked.filter fun d => frame.covers d) = []
  · simp only [hnone, if_true, Option.map_none]
  · simp only [hnone, if_false]
    rcases frame with ⟨tag, multiple⟩ | ⟨tag, multiple, requeue⟩
    · simp only [hmessages, Option.map_some, List.map_append, reworded]
    · cases requeue with
      | true => simp only [Option.map_some, reworded, putBack_reworded]
      | false => simp only [Option.map_some, reworded]

theorem reclaim_reworded (b : Broker) : b.reclaim.reworded f = (b.reworded f).reclaim := by
  simp only [reclaim, reworded, putBack_reworded, List.map_nil]

end Broker

/-! ## The consumer -/

variable {f} {ok : Bytes → ι → Bool}

theorem Consumer.step_reworded (hok : ∀ data met, ok (f data) met = ok data met) (c : Consumer ι)
    (e : ConsumerEvent ι) :
    (c.reworded f).step ok (e.reworded f) = (c.step ok e).map (Consumer.reworded f) := by
  obtain ⟨phase, received, handled, sent⟩ := c
  cases phase with
  | waiting => cases e <;> simp [step, reworded, ConsumerEvent.reworded, Phase.reworded]
  | handling d =>
    cases e with
    | handled met =>
      have hsame : ok (d.reworded f).message.data met = ok d.message.data met := hok d.message.data met
      simp only [step, reworded, ConsumerEvent.reworded, Phase.reworded, hsame, Option.map_some,
        List.map_append, List.map_cons, List.map_nil, Prod.map_apply, id_eq]
      cases ok d.message.data met <;> rfl
    | _ => rfl
  | delaying d => cases e <;> rfl
  | settling d frame => cases e <;> simp [step, reworded, ConsumerEvent.reworded, Phase.reworded]
  | ended => cases e <;> rfl

/-! ## The system, and its lives -/

theorem System.step_reworded (hok : ∀ data met, ok (f data) met = ok data met) (s : System ι)
    (e : SystemEvent ι) :
    (s.reworded f).step ok (e.reworded f) = (s.step ok e).map (System.reworded f) := by
  have hconsumer := Consumer.step_reworded hok s.consumer
  cases e with
  | publish data => simp [step, reworded, SystemEvent.reworded, Broker.publish_reworded]
  | deliver =>
    simp only [step, reworded, SystemEvent.reworded, Broker.deliver_reworded]
    cases s.broker.deliver with
    | none => rfl
    | some db => simp [reworded]
  | receive =>
    cases hin : s.toClient with
    | nil => simp [step, reworded, SystemEvent.reworded, hin]
    | cons d rest =>
      have hreceived := hconsumer (.received d)
      simp only [ConsumerEvent.reworded] at hreceived
      simp only [step, reworded, SystemEvent.reworded, hin, List.map_cons, hreceived, Option.map_map]
      cases s.consumer.step ok (.received d) <;> rfl
  | handled met =>
    have hhandled := hconsumer (.handled met)
    simp only [ConsumerEvent.reworded] at hhandled
    simp only [step, reworded, SystemEvent.reworded, hhandled, Option.map_map]
    cases s.consumer.step ok (.handled met) <;> rfl
  | delayed =>
    have hdelayed := hconsumer .delayed
    simp only [ConsumerEvent.reworded] at hdelayed
    simp only [step, reworded, SystemEvent.reworded, hdelayed, Option.map_map]
    cases s.consumer.step ok .delayed <;> rfl
  | settle =>
    have hsettled := hconsumer .settled
    simp only [ConsumerEvent.reworded] at hsettled
    have hphase : (s.reworded f).consumer.phase = s.consumer.phase.reworded f := rfl
    cases hp : s.consumer.phase with
    | settling d frame =>
      rw [hp] at hphase
      simp only [Phase.reworded] at hphase
      simp only [step, SystemEvent.reworded, hphase, hp]
      rw [show (s.reworded f).consumer = s.consumer.reworded f from rfl, hsettled]
      cases s.consumer.step ok .settled with
      | none => rfl
      | some c => simp [reworded]
    | _ =>
      rw [hp] at hphase
      simp only [Phase.reworded] at hphase
      simp only [step, SystemEvent.reworded, hphase, hp, Option.map_none]
  | process =>
    cases hin : s.toBroker with
    | nil => simp [step, reworded, SystemEvent.reworded, hin]
    | cons sent rest =>
      simp only [step, reworded, SystemEvent.reworded, hin, List.map_cons, Prod.map, id_eq,
        Broker.process_reworded, Option.map_map]
      cases s.broker.process sent.2 <;> rfl

theorem Lives.step_reworded (hok : ∀ data met, ok (f data) met = ok data met) (l : Lives ι)
    (event : LivesEvent ι) :
    (l.reworded f).step ok (event.reworded f) = (l.step ok event).map (Lives.reworded f) := by
  cases event with
  | event e =>
    have hneeds : (e.reworded f).needsChannel = e.needsChannel := by cases e <;> rfl
    simp only [step, reworded, LivesEvent.reworded, hneeds, System.step_reworded hok]
    by_cases hlost : (e.needsChannel && !l.connected) = true
    · simp [hlost]
    · simp only [hlost, Bool.false_eq_true, if_false, Option.map_map]
      cases l.system.step ok e <;> rfl
  | channelLost =>
    simp only [step, reworded, LivesEvent.reworded]
    by_cases hup : l.connected = true
    · simp [hup, reworded, System.reworded, Broker.reclaim_reworded]
    · simp [hup]
  | consumerEnded e =>
    have hfatal : (e.reworded f).isFatal = e.isFatal := by cases e <;> rfl
    have hconsumer := Consumer.step_reworded hok l.system.consumer e
    simp only [step, reworded, LivesEvent.reworded, hfatal, System.reworded, hconsumer]
    by_cases hends : e.isFatal = true
    · simp only [hends, if_true, Option.map_map]
      cases l.system.consumer.step ok e <;> rfl
    · simp [hends]
  | restarted =>
    simp [step, reworded, LivesEvent.reworded, restart, System.reworded, Broker.reclaim_reworded,
      Consumer.reworded, Consumer.start, Phase.reworded]

/-! ## Several instances -/

def Backlog.reworded (f : Bytes → Bytes) (self : Backlog) : Backlog where
  ready := self.ready.map (Message.reworded f)
  published := self.published.map (Message.reworded f)
  acked := self.acked.map (Message.reworded f)
  reclaimed := self.reclaimed.map (Message.reworded f)

def Instance.reworded (f : Bytes → Bytes) (self : Instance ι) : Instance ι where
  unacked := self.unacked.map (Delivery.reworded f)
  delivered := self.delivered
  settled := self.settled
  toClient := self.toClient.map (Delivery.reworded f)
  toBroker := self.toBroker.map (Prod.map (Delivery.reworded f) id)
  consumer := self.consumer.reworded f
  connected := self.connected
  past := self.past.map (·.map (Prod.map (Delivery.reworded f) id))

theorem Instance.takenBack_reworded (c : Instance ι) (event : LivesEvent ι) :
    (c.reworded f).takenBack (event.reworded f) = (c.takenBack event).map (Message.reworded f) := by
  cases event <;> simp [takenBack, LivesEvent.reworded, reworded, Delivery.reworded, Function.comp_def]

theorem Instance.step_reworded (hok : ∀ data met, ok (f data) met = ok data met) (b : Backlog)
    (c : Instance ι) (event : LivesEvent ι) :
    (c.reworded f).step ok (b.reworded f) (event.reworded f) =
      (c.step ok b event).map (Prod.map (Backlog.reworded f) (Instance.reworded f)) := by
  have hpublished : (event.reworded f).published?.isSome = event.published?.isSome := by
    rcases event with e | - | - | -
    · cases e <;> rfl
    · rfl
    · rfl
    · rfl
  have hlives : ((c.reworded f).on (b.reworded f)).step ok (event.reworded f) =
      ((c.on b).step ok event).map (Lives.reworded f) := Lives.step_reworded hok (c.on b) event
  unfold step
  rw [hpublished, hlives, takenBack_reworded]
  by_cases hyes : event.published?.isSome = true
  · rw [if_pos hyes, if_pos hyes, Option.map_none]
  · rw [if_neg hyes, if_neg hyes, Option.map_map, Option.map_map]
    refine congrArg (Option.map · _) (funext fun l => ?_)
    simp [Backlog.reworded, Instance.reworded, Instance.of, Lives.reworded, System.reworded,
      Broker.reworded]

/-- To the instances the words make no difference. -/
def rewording (hok : ∀ data met, ok (f data) met = ok data met) :
    Parties.Translation (instances ok) where
  shared := Backlog.reworded f
  party := Instance.reworded f
  event := LivesEvent.reworded f
  outside := f
  step := Instance.step_reworded hok
  others b data := by
    simp [instances, Backlog.publish, Backlog.reworded, Message.reworded]

theorem Cluster.start_reworded {κ : Type} (hok : ∀ data met, ok (f data) met = ok data met)
    (contents : List Bytes) :
    (rewording hok).state (start contents : Cluster κ ι) = start (contents.map f) := by
  have hmessages : (contents.mapIdx Message.mk).map (Message.reworded f) =
      (contents.map f).mapIdx Message.mk :=
    List.ext_getElem (by simp) fun i _ _ => by simp [Message.reworded]
  simp [Parties.Translation.state, rewording, start, Backlog.reworded, hmessages]
  rfl

end PaymentsNotifications.Server
