import PaymentsNotifications.Server.Broker

/-! Settlement of deliveries. The loop gives back "everything outstanding", so it
is right only if that is the delivery it means. The invariant: at most one
delivery is outstanding, and it is on its way to the client, in the loop, or its
frame is on its way to the broker. -/

namespace PaymentsNotifications.Server
open Utils

variable {ι : Type} {ok : Bytes → ι → Bool}

namespace System

/-- Where the outstanding delivery is, and which deliveries the loop has settled. -/
inductive Shape (s : System ι) : Prop where
  | idle (hunacked : s.broker.unacked = []) (hclient : s.toClient = [])
      (hbroker : s.toBroker = []) (hphase : s.consumer.phase = .waiting)
      (hsent : s.consumer.received = s.consumer.sent.map Prod.fst)
      (htags : s.consumer.sent.map (·.1.deliveryTag) = s.broker.settled)
  | inFlight (d : Delivery) (hunacked : s.broker.unacked = [d]) (hclient : s.toClient = [d])
      (hbroker : s.toBroker = []) (hphase : s.consumer.phase = .waiting)
      (hsent : s.consumer.received = s.consumer.sent.map Prod.fst)
      (htags : s.consumer.sent.map (·.1.deliveryTag) = s.broker.settled)
  | busy (d : Delivery) (hunacked : s.broker.unacked = [d]) (hclient : s.toClient = [])
      (hbroker : s.toBroker = []) (hphase : s.consumer.phase.delivery? = some d)
      (hsent : s.consumer.received = s.consumer.sent.map Prod.fst ++ [d])
      (htags : s.consumer.sent.map (·.1.deliveryTag) = s.broker.settled)
  | settled (d : Delivery) (frame : Frame) (hunacked : s.broker.unacked = [d])
      (hclient : s.toClient = []) (hbroker : s.toBroker = [(d, frame)])
      (hphase : s.consumer.phase = .waiting) (hmem : (d, frame) ∈ s.consumer.sent)
      (hsent : s.consumer.received = s.consumer.sent.map Prod.fst)
      (htags : s.consumer.sent.map (·.1.deliveryTag) = s.broker.settled ++ [d.deliveryTag])

/-- The messages are where they should be: settled, outstanding or ready, in the
order of publication; tags are given out in order and settled in order. -/
structure Accounted (s : System ι) : Prop where
  messages : s.broker.acked ++ s.broker.unacked.map Delivery.message ++ s.broker.ready =
    s.broker.published
  positions : s.broker.published.map Message.position = List.range s.broker.published.length
  tags : s.broker.settled ++ s.broker.unacked.map Delivery.deliveryTag =
    List.range' 1 s.broker.delivered

/-- What comes before a ready message was published before it. -/
theorem Accounted.outstanding_first {s : System ι} (h : s.Accounted) {d : Delivery}
    (hd : s.broker.unacked = [d]) : ∀ m ∈ s.broker.ready, d.message.position < m.position := by
  have hsorted : (s.broker.published.map Message.position).Pairwise (· < ·) := by
    rw [h.positions]
    exact List.pairwise_lt_range
  rw [← h.messages, hd, List.map_append, List.map_append, List.append_assoc] at hsorted
  have hrest := (List.pairwise_append.mp hsorted).2.1
  intro m hm
  exact List.rel_of_pairwise_cons hrest (List.mem_map_of_mem hm)

theorem accounted_publish {s : System ι} (h : s.Accounted) (data : Bytes) :
    ({ s with broker := s.broker.publish data } : System ι).Accounted where
  messages := by
    simp only [Broker.publish]
    rw [← h.messages]
    simp only [List.append_assoc]
  positions := by
    simp only [Broker.publish, List.map_append, List.length_append, List.length_singleton,
      List.range_succ, h.positions, List.map_singleton]
  tags := h.tags

theorem accounted_deliver {s : System ι} (h : s.Accounted) {d : Delivery} {b : Broker}
    (hd : s.broker.deliver = some (d, b)) (toClient : List Delivery) :
    ({ s with broker := b, toClient := toClient } : System ι).Accounted := by
  obtain ⟨m, rest, hready, -, rfl, rfl⟩ := Broker.deliver_some hd
  have hmessages := h.messages
  have htags := h.tags
  rw [hready] at hmessages
  refine ⟨?_, h.positions, ?_⟩
  · rw [← hmessages]
    simp
  · rw [List.range'_concat, ← htags]
    simp [Nat.add_comm]

/-- What the broker makes of a frame for the only outstanding delivery: the message
is taken, or it goes back in front of all that are ready. -/
inductive Processed (ok : Bytes → ι → Bool) (s : System ι) (d : Delivery) : Frame → Broker → Prop where
  | ack (hok : Handled ok s.consumer.handled d true) :
      Processed ok s d (.basicAck d.deliveryTag false)
        { s.broker with unacked := [], acked := s.broker.acked ++ [d.message],
                        settled := s.broker.settled ++ [d.deliveryTag] }
  | nack (hfailed : Handled ok s.consumer.handled d false) :
      Processed ok s d (.basicNack 0 true true)
        { s.broker with unacked := [], ready := d.message :: s.broker.ready,
                        settled := s.broker.settled ++ [d.deliveryTag] }

theorem Accounted.processed {s : System ι} (h : s.Accounted) {d : Delivery} {frame : Frame}
    {b : Broker} (hd : s.broker.unacked = [d]) (hjust : Justified ok s.consumer.handled d frame)
    (hb : s.broker.process frame = some b) : Processed ok s d frame b := by
  cases hjust with
  | ack hok =>
    rw [Broker.process_ack hd] at hb
    obtain rfl := Option.some.inj hb
    exact .ack hok
  | nack hfailed =>
    rw [Broker.process_nack hd, Broker.requeue_front (h.outstanding_first hd)] at hb
    obtain rfl := Option.some.inj hb
    exact .nack hfailed

/-- Settling the only outstanding delivery keeps the account. -/
theorem accounted_process {s : System ι} (h : s.Accounted) {d : Delivery} {frame : Frame}
    {b : Broker} (hd : s.broker.unacked = [d]) (hjust : Justified ok s.consumer.handled d frame)
    (hb : s.broker.process frame = some b) (toBroker : List (Delivery × Frame)) :
    ({ s with broker := b, toBroker := toBroker } : System ι).Accounted := by
  have hmessages := h.messages
  have htags := h.tags
  rw [hd] at hmessages htags
  cases h.processed hd hjust hb with
  | ack hok =>
    refine ⟨?_, h.positions, ?_⟩
    · rw [← hmessages]
      simp
    · rw [← htags]
      simp
  | nack hfailed =>
    refine ⟨?_, h.positions, ?_⟩
    · rw [← hmessages]
      simp
    · rw [← htags]
      simp

theorem shape_publish {s : System ι} (h : Shape s) (data : Bytes) :
    Shape { s with broker := s.broker.publish data } := by
  cases h with
  | idle hunacked hclient hbroker hphase hsent htags =>
    exact .idle hunacked hclient hbroker hphase hsent htags
  | inFlight d hunacked hclient hbroker hphase hsent htags =>
    exact .inFlight d hunacked hclient hbroker hphase hsent htags
  | busy d hunacked hclient hbroker hphase hsent htags =>
    exact .busy d hunacked hclient hbroker hphase hsent htags
  | settled d frame hunacked hclient hbroker hphase hmem hsent htags =>
    exact .settled d frame hunacked hclient hbroker hphase hmem hsent htags

/-- A delivery goes out only when nothing is outstanding. -/
theorem shape_deliver {s : System ι} (h : Shape s) {d : Delivery} {b : Broker}
    (hd : s.broker.deliver = some (d, b)) :
    Shape { s with broker := b, toClient := s.toClient ++ [d] } := by
  obtain ⟨m, rest, -, hroom, rfl, rfl⟩ := Broker.deliver_some hd
  have hfull : ∀ d', s.broker.unacked = [d'] → False := by
    intro d' hunacked
    rw [hunacked] at hroom
    exact Nat.lt_irrefl 1 hroom
  cases h with
  | idle hunacked hclient hbroker hphase hsent htags =>
    refine .inFlight ⟨s.broker.delivered + 1, m⟩ ?_ ?_ hbroker hphase hsent htags
    · show s.broker.unacked ++ _ = _
      rw [hunacked]
      rfl
    · show s.toClient ++ _ = _
      rw [hclient]
      rfl
  | inFlight d' hunacked => exact (hfull d' hunacked).elim
  | busy d' hunacked => exact (hfull d' hunacked).elim
  | settled d' frame hunacked => exact (hfull d' hunacked).elim

/-- The loop takes a delivery when it has settled all before it. -/
theorem shape_receive {s : System ι} (h : Shape s) {d : Delivery} {rest : List Delivery}
    {c : Consumer ι} (hin : s.toClient = d :: rest)
    (hc : Consumer.Step ok s.consumer (.received d) c) :
    Shape { s with toClient := rest, consumer := c } := by
  cases hc
  cases h with
  | inFlight d' hunacked hclient hbroker hphase hsent htags =>
    rw [hclient] at hin
    obtain ⟨rfl, rfl⟩ := List.cons.inj hin
    refine .busy d' hunacked rfl hbroker rfl ?_ htags
    show s.consumer.received ++ _ = _
    rw [hsent]
  | idle hunacked hclient => rw [hclient] at hin; cases hin
  | busy d' hunacked hclient => rw [hclient] at hin; cases hin
  | settled d' frame hunacked hclient => rw [hclient] at hin; cases hin

/-- The delivery the loop works on is the one outstanding. -/
theorem Shape.works {s : System ι} (h : Shape s) {d : Delivery}
    (hp : s.consumer.phase.delivery? = some d) :
    s.broker.unacked = [d] ∧ s.toClient = [] ∧ s.toBroker = [] ∧
      s.consumer.received = s.consumer.sent.map Prod.fst ++ [d] ∧
      s.consumer.sent.map (·.1.deliveryTag) = s.broker.settled := by
  cases h with
  | busy d' hunacked hclient hbroker hphase hsent htags =>
    obtain rfl : d' = d := Option.some.inj (hphase.symm.trans hp)
    exact ⟨hunacked, hclient, hbroker, hsent, htags⟩
  | idle _ _ _ hphase => rw [hphase] at hp; cases hp
  | inFlight _ _ _ _ hphase => rw [hphase] at hp; cases hp
  | settled _ _ _ _ _ hphase => rw [hphase] at hp; cases hp

/-- From phase to phase within the work on one delivery. -/
theorem shape_work {s : System ι} (h : Shape s) {d : Delivery} {c : Consumer ι}
    (hp : s.consumer.phase.delivery? = some d) (hp' : c.phase.delivery? = some d)
    (hreceived : c.received = s.consumer.received) (hsent : c.sent = s.consumer.sent) :
    Shape { s with consumer := c } := by
  obtain ⟨hunacked, hclient, hbroker, hrec, htags⟩ := h.works hp
  rw [← hreceived, ← hsent] at hrec
  rw [← hsent] at htags
  exact .busy d hunacked hclient hbroker hp' hrec htags

theorem shape_handled {s : System ι} (h : Shape s) {met : ι} {c : Consumer ι}
    (hc : Consumer.Step ok s.consumer (.handled met) c) : Shape { s with consumer := c } := by
  cases hc with
  | @succeeded d met hp hok => exact shape_work h (d := d) (by rw [hp]; rfl) rfl rfl rfl
  | @failed d met hp hok => exact shape_work h (d := d) (by rw [hp]; rfl) rfl rfl rfl

theorem shape_delayed {s : System ι} (h : Shape s) {c : Consumer ι}
    (hc : Consumer.Step ok s.consumer .delayed c) : Shape { s with consumer := c } := by
  cases hc with
  | @delayed d hp => exact shape_work h (d := d) (by rw [hp]; rfl) rfl rfl rfl

theorem shape_settle {s : System ι} (h : Shape s) {d : Delivery} {frame : Frame}
    {c : Consumer ι} (hp : s.consumer.phase = .settling d frame)
    (hc : Consumer.Step ok s.consumer .settled c) :
    Shape { s with consumer := c, toBroker := s.toBroker ++ [(d, frame)] } := by
  obtain ⟨hunacked, hclient, hbroker, hrec, htags⟩ := h.works (d := d) (by rw [hp]; rfl)
  cases hc with
  | @settled d' frame' hp' =>
    obtain ⟨rfl, rfl⟩ := Phase.settling.inj (hp.symm.trans hp')
    refine .settled d frame hunacked hclient ?_ rfl ?_ ?_ ?_
    · rw [hbroker]
      rfl
    · exact List.mem_append_right _ (List.mem_singleton.mpr rfl)
    · show s.consumer.received = (s.consumer.sent ++ [(d, frame)]).map Prod.fst
      rw [hrec, List.map_append]
      rfl
    · show (s.consumer.sent ++ [(d, frame)]).map (·.1.deliveryTag) = _
      rw [List.map_append, htags]
      rfl

/-- The frame in front of the broker is for the only delivery outstanding. -/
theorem Shape.frame {s : System ι} (h : Shape s) {d : Delivery} {frame : Frame}
    {rest : List (Delivery × Frame)} (hin : s.toBroker = (d, frame) :: rest) :
    s.broker.unacked = [d] ∧ (d, frame) ∈ s.consumer.sent := by
  cases h with
  | settled d' frame' hunacked hclient hbroker hphase hmem =>
    rw [hbroker] at hin
    obtain ⟨hhead, -⟩ := List.cons.inj hin
    cases hhead
    exact ⟨hunacked, hmem⟩
  | idle _ _ hbroker => rw [hbroker] at hin; cases hin
  | inFlight _ _ _ hbroker => rw [hbroker] at hin; cases hin
  | busy _ _ _ hbroker => rw [hbroker] at hin; cases hin

theorem shape_process {s : System ι} (h : Shape s) (ha : s.Accounted) {d : Delivery}
    {frame : Frame} {rest : List (Delivery × Frame)} {b : Broker}
    (hin : s.toBroker = (d, frame) :: rest) (hjust : Justified ok s.consumer.handled d frame)
    (hb : s.broker.process frame = some b) : Shape { s with broker := b, toBroker := rest } := by
  cases h with
  | settled d' frame' hunacked hclient hbroker hphase hmem hsent htags =>
    rw [hbroker] at hin
    obtain ⟨hhead, rfl⟩ := List.cons.inj hin
    cases hhead
    cases ha.processed hunacked hjust hb with
    | ack hok => exact .idle rfl hclient rfl hphase hsent htags
    | nack hfailed => exact .idle rfl hclient rfl hphase hsent htags
  | idle _ _ hbroker => rw [hbroker] at hin; cases hin
  | inFlight _ _ _ hbroker => rw [hbroker] at hin; cases hin
  | busy _ _ _ hbroker => rw [hbroker] at hin; cases hin

/-- The invariant of the system. -/
structure Sound (ok : Bytes → ι → Bool) (s : System ι) : Prop where
  accounted : s.Accounted
  shape : Shape s
  justifying : s.consumer.Justifying ok

theorem sound_start (contents : List Bytes) : Sound ok (start contents) where
  accounted :=
    { messages := rfl
      positions := List.ext_getElem (by simp [start]) fun i _ _ => by simp [start]
      tags := rfl }
  shape := .idle rfl rfl rfl rfl rfl rfl
  justifying := Consumer.justifying_start

theorem Step.sound {s s' : System ι} {event : SystemEvent ι} (hs : Step ok s event s')
    (h : Sound ok s) : Sound ok s' := by
  obtain ⟨haccounted, hshape, hjust⟩ := h
  have hsame : ∀ (toClient : List Delivery) (toBroker : List (Delivery × Frame)) (c : Consumer ι),
      ({ s with toClient := toClient, toBroker := toBroker, consumer := c } : System ι).Accounted :=
    fun _ _ _ => ⟨haccounted.messages, haccounted.positions, haccounted.tags⟩
  cases hs with
  | publish => exact ⟨accounted_publish haccounted _, shape_publish hshape _, hjust⟩
  | deliver hd => exact ⟨accounted_deliver haccounted hd _, shape_deliver hshape hd, hjust⟩
  | receive hin hc => exact ⟨hsame _ _ _, shape_receive hshape hin hc, hc.justifying hjust⟩
  | handled hc => exact ⟨hsame _ _ _, shape_handled hshape hc, hc.justifying hjust⟩
  | delayed hc => exact ⟨hsame _ _ _, shape_delayed hshape hc, hc.justifying hjust⟩
  | settle hp hc => exact ⟨hsame _ _ _, shape_settle hshape hp hc, hc.justifying hjust⟩
  | process hin hb =>
    obtain ⟨hd, hmem⟩ := hshape.frame hin
    have hframe := hjust.sent _ _ hmem
    exact ⟨accounted_process haccounted hd hframe hb _,
      shape_process hshape haccounted hin hframe hb, hjust⟩

/-- A processed frame: its delivery was outstanding, and what came of it. -/
theorem Sound.processed {s : System ι} (h : Sound ok s) {d : Delivery} {frame : Frame}
    {rest : List (Delivery × Frame)} {b : Broker} (hin : s.toBroker = (d, frame) :: rest)
    (hb : s.broker.process frame = some b) : Processed ok s d frame b := by
  obtain ⟨hunacked, hmem⟩ := h.shape.frame hin
  exact h.accounted.processed hunacked (h.justifying.sent _ _ hmem) hb

theorem reaches_sound {contents : List Bytes} {labels : List (SystemEvent ι)} {s : System ι}
    (h : (machine ok contents).Reaches labels s) : Sound ok s :=
  h.invariant (P := Sound ok) (sound_start contents) fun _ _ _ hs hstep =>
    (step_spec hstep).sound hs

/-! ## What follows for every reachable state -/

/-- Settlement is exact and in order. -/
structure SettledExactly (ok : Bytes → ι → Bool) (s : System ι) : Prop where
  in_order : s.broker.acked ++ s.broker.unacked.map Delivery.message ++ s.broker.ready =
    s.broker.published
  positions : s.broker.published.map Message.position = List.range s.broker.published.length
  one_unacked : s.broker.unacked.length ≤ 1
  settled_once : s.broker.settled.Nodup ∧ (s.consumer.sent.map (·.1.deliveryTag)).Nodup
  /-- When a delivery is taken, all taken before it have been settled. -/
  one_at_a_time : ∀ s', s.step ok .receive = some s' →
    s.consumer.received = s.consumer.sent.map Prod.fst
  /-- A `basic_nack` gives back the delivery it was sent for, whose handling failed. -/
  nack_exact : ∀ d rest, s.toBroker = (d, .basicNack 0 true true) :: rest →
    Handled ok s.consumer.handled d false ∧ s.broker.unacked = [d] ∧
      ∃ s', s.step ok .process = some s' ∧ s'.broker.ready = d.message :: s.broker.ready ∧
        s'.broker.unacked = [] ∧ s'.broker.acked = s.broker.acked

theorem Sound.one_unacked {s : System ι} (h : Sound ok s) : s.broker.unacked.length ≤ 1 := by
  cases h.shape with
  | idle hunacked => rw [hunacked]; exact Nat.zero_le 1
  | inFlight d hunacked => rw [hunacked]; exact Nat.le_refl 1
  | busy d hunacked => rw [hunacked]; exact Nat.le_refl 1
  | settled d frame hunacked => rw [hunacked]; exact Nat.le_refl 1

theorem Sound.tags_nodup {s : System ι} (h : Sound ok s) :
    (s.broker.settled ++ s.broker.unacked.map Delivery.deliveryTag).Nodup := by
  rw [h.accounted.tags]
  exact List.nodup_range'

theorem Sound.sent_nodup {s : System ι} (h : Sound ok s) :
    (s.consumer.sent.map (·.1.deliveryTag)).Nodup := by
  have hsettled := h.tags_nodup
  cases h.shape with
  | idle _ _ _ _ _ htags => rw [htags]; exact (List.nodup_append.mp hsettled).1
  | inFlight _ _ _ _ _ _ htags => rw [htags]; exact (List.nodup_append.mp hsettled).1
  | busy _ _ _ _ _ _ htags => rw [htags]; exact (List.nodup_append.mp hsettled).1
  | settled d _ hunacked _ _ _ _ _ htags =>
    rw [hunacked] at hsettled
    rw [htags]
    exact hsettled

theorem Sound.one_at_a_time {s s' : System ι} (h : Sound ok s)
    (hs : s.step ok .receive = some s') : s.consumer.received = s.consumer.sent.map Prod.fst := by
  cases step_spec hs with
  | receive hin hc =>
    cases h.shape with
    | idle _ _ _ _ hsent => exact hsent
    | inFlight _ _ _ _ _ hsent => exact hsent
    | busy _ _ hclient => rw [hclient] at hin; cases hin
    | settled _ _ _ _ _ _ _ hsent => exact hsent

theorem Sound.nack_exact {s : System ι} (h : Sound ok s) {d : Delivery}
    {rest : List (Delivery × Frame)} (hin : s.toBroker = (d, .basicNack 0 true true) :: rest) :
    Handled ok s.consumer.handled d false ∧ s.broker.unacked = [d] ∧
      ∃ s', s.step ok .process = some s' ∧ s'.broker.ready = d.message :: s.broker.ready ∧
        s'.broker.unacked = [] ∧ s'.broker.acked = s.broker.acked := by
  obtain ⟨hunacked, hmem⟩ := h.shape.frame hin
  have hfailed : Handled ok s.consumer.handled d false := by
    cases h.justifying.sent _ _ hmem with
    | nack hfailed => exact hfailed
  have hprocess := Broker.process_nack hunacked
  rw [Broker.requeue_front (h.accounted.outstanding_first hunacked)] at hprocess
  let b : Broker :=
    { s.broker with unacked := [], ready := d.message :: s.broker.ready,
                    settled := s.broker.settled ++ [d.deliveryTag] }
  have hstep : s.step ok .process = some { s with broker := b, toBroker := rest } := by
    simp only [step, hin, hprocess, Option.map_some, b]
  exact ⟨hfailed, hunacked, _, hstep, rfl, rfl, rfl⟩

/-- Whatever is published, however handlings end and in whatever order the steps
come, settlement is exact and in order. -/
theorem settledExactly {contents : List Bytes} {labels : List (SystemEvent ι)} {s : System ι}
    (h : (machine ok contents).Reaches labels s) : SettledExactly ok s := by
  have hsound := reaches_sound h
  exact
    { in_order := hsound.accounted.messages
      positions := hsound.accounted.positions
      one_unacked := hsound.one_unacked
      settled_once := ⟨(List.nodup_append.mp hsound.tags_nodup).1, hsound.sent_nodup⟩
      one_at_a_time := fun _ => hsound.one_at_a_time
      nack_exact := fun _ _ => hsound.nack_exact }

/-- Two messages, the first handled without success: its `basic_nack` is on its way. -/
theorem settledExactly_example :
    SettledExactly (fun _ met => met)
      (⟨⟨[⟨1, [2]⟩], [⟨1, ⟨0, [1]⟩⟩], 1, [⟨0, [1]⟩, ⟨1, [2]⟩], [], []⟩, [],
        [(⟨1, ⟨0, [1]⟩⟩, .basicNack 0 true true)],
        ⟨.waiting, [⟨1, ⟨0, [1]⟩⟩], [(⟨1, ⟨0, [1]⟩⟩, false)],
          [(⟨1, ⟨0, [1]⟩⟩, .basicNack 0 true true)]⟩⟩ : System Bool) :=
  @settledExactly _ _ [[1]] [.publish [2], .deliver, .receive, .handled false, .delayed, .settle] _
    rfl

/-! ## A message handled well is not handled again -/

/-- The acknowledgement of a delivery is in the making or on its way. -/
def Acking (s : System ι) (d : Delivery) : Prop :=
  s.consumer.phase = .settling d (.basicAck d.deliveryTag false) ∨
    (d, .basicAck d.deliveryTag false) ∈ s.toBroker

structure Finished (ok : Bytes → ι → Bool) (s : System ι) : Prop where
  placed : ∀ d, Handled ok s.consumer.handled d true → d.message ∈ s.broker.acked ∨ s.Acking d
  once : s.consumer.handled.Pairwise fun a b =>
    a.1.message = b.1.message → ok a.1.message.data a.2 = false

theorem Accounted.outstanding_not_acked {s : System ι} (h : s.Accounted) {d : Delivery}
    (hd : s.broker.unacked = [d]) : d.message ∉ s.broker.acked := by
  have hnodup : (s.broker.published.map Message.position).Nodup := by
    rw [h.positions]
    exact List.nodup_range
  have hmessages := List.Nodup.of_map _ hnodup
  rw [← h.messages, hd, List.append_assoc] at hmessages
  intro hmem
  exact (List.nodup_append.mp hmessages).2.2 _ hmem _ List.mem_cons_self rfl

/-- Before the end of a handling, what was handled well is acknowledged. -/
theorem Finished.acked {s : System ι} (hf : Finished ok s) (hs : Sound ok s) {d d' : Delivery}
    (hp : s.consumer.phase = .handling d) (hd' : Handled ok s.consumer.handled d' true) :
    d'.message ∈ s.broker.acked := by
  have hworks := hs.shape.works (d := d) (by rw [hp]; rfl)
  rcases hf.placed d' hd' with hacked | hphase | hframe
  · exact hacked
  · rw [hp] at hphase
    cases hphase
  · rw [hworks.2.2.1] at hframe
    exact (List.not_mem_nil hframe).elim

theorem finished_handled {s : System ι} (hf : Finished ok s) (hs : Sound ok s) {d : Delivery}
    {met : ι} {phase : Phase} (hp : s.consumer.phase = .handling d)
    (hphase : ok d.message.data met = true → phase = .settling d (.basicAck d.deliveryTag false)) :
    Finished ok { s with consumer :=
      { s.consumer with phase := phase, handled := s.consumer.handled ++ [(d, met)] } } where
  placed := by
    rintro d' ⟨met', hmem, hok⟩
    rcases List.mem_append.mp hmem with hold | hnew
    · exact .inl (hf.acked hs hp ⟨met', hold, hok⟩)
    · cases List.mem_singleton.mp hnew
      exact .inr (.inl (hphase hok))
  once := by
    refine List.pairwise_append.mpr ⟨hf.once, List.pairwise_singleton _ _, ?_⟩
    rintro ⟨d', met'⟩ hmem b hb hsame
    cases List.mem_singleton.mp hb
    by_contra hok
    have hacked := hf.acked hs hp ⟨met', hmem, Bool.eq_true_of_not_eq_false hok⟩
    have hworks := hs.shape.works (d := d) (by rw [hp]; rfl)
    rw [show d'.message = d.message from hsame] at hacked
    exact hs.accounted.outstanding_not_acked hworks.1 hacked

/-- A step that handles and acknowledges nothing only has to keep what is on its way. -/
theorem Finished.moved {s s' : System ι} (hf : Finished ok s)
    (hhandled : s'.consumer.handled = s.consumer.handled)
    (hacked : s'.broker.acked = s.broker.acked) (hacking : ∀ d, s.Acking d → s'.Acking d) :
    Finished ok s' := by
  refine ⟨fun d hd => ?_, by rw [hhandled]; exact hf.once⟩
  rw [hhandled] at hd
  rw [hacked]
  rcases hf.placed d hd with hold | hway
  · exact .inl hold
  · exact .inr (hacking d hway)

theorem Step.finished {s s' : System ι} {event : SystemEvent ι} (hstep : Step ok s event s')
    (hs : Sound ok s) (hf : Finished ok s) : Finished ok s' := by
  cases hstep with
  | publish => exact hf.moved rfl rfl fun _ => id
  | deliver hd =>
    obtain ⟨m, rest, -, -, rfl, rfl⟩ := Broker.deliver_some hd
    exact hf.moved rfl rfl fun _ => id
  | receive hin hc =>
    cases hc with
    | received hp =>
      refine hf.moved rfl rfl fun d hway => ?_
      rcases hway with hphase | hframe
      · rw [hp] at hphase
        cases hphase
      · exact .inr hframe
  | handled hc =>
    cases hc with
    | succeeded hp hok => exact finished_handled hf hs hp fun _ => rfl
    | failed hp hok =>
      refine finished_handled hf hs hp fun hyes => ?_
      rw [hok] at hyes
      cases hyes
  | delayed hc =>
    cases hc with
    | delayed hp =>
      refine hf.moved rfl rfl fun d hway => ?_
      rcases hway with hphase | hframe
      · rw [hp] at hphase
        cases hphase
      · exact .inr hframe
  | settle hp hc =>
    cases hc with
    | settled hpc =>
      refine hf.moved rfl rfl fun d hway => ?_
      rcases hway with hphase | hframe
      · rw [hp] at hphase
        cases hphase
        exact .inr (List.mem_append_right _ (List.mem_singleton.mpr rfl))
      · exact .inr (List.mem_append_left _ hframe)
  | process hin hb =>
    cases hs.processed hin hb with
    | ack hok =>
      refine ⟨fun d hd => ?_, hf.once⟩
      rcases hf.placed d hd with hacked | hphase | hframe
      · exact .inl (List.mem_append_left _ hacked)
      · exact .inr (.inl hphase)
      · rw [hin] at hframe
        rcases List.mem_cons.mp hframe with hhead | htail
        · cases hhead
          exact .inl (List.mem_append_right _ (List.mem_singleton.mpr rfl))
        · exact .inr (.inr htail)
    | nack hfailed =>
      refine hf.moved rfl rfl fun d hway => ?_
      rcases hway with hphase | hframe
      · exact .inl hphase
      · rw [hin] at hframe
        rcases List.mem_cons.mp hframe with hhead | htail
        · cases hhead
        · exact .inr htail

theorem reaches_finished {contents : List Bytes} {labels : List (SystemEvent ι)} {s : System ι}
    (h : (machine ok contents).Reaches labels s) : Sound ok s ∧ Finished ok s := by
  refine h.invariant (P := fun s => Sound ok s ∧ Finished ok s) ⟨sound_start contents, ?_⟩ ?_
  · exact ⟨fun d ⟨_, hmem, _⟩ => (List.not_mem_nil hmem).elim, List.Pairwise.nil⟩
  · rintro s event s' ⟨hs, hf⟩ hstep
    have hspec := step_spec hstep
    exact ⟨hspec.sound hs, hspec.finished hs hf⟩

end System

end PaymentsNotifications.Server
