import PaymentsNotifications.Server.Parking

/-! Draining a queue. When every attempt succeeds at once, a message costs five
steps, and a queue of well-formed messages is empty after one delivery of each. A
message that does not parse is given back to the front of the queue every time. -/

namespace PaymentsNotifications.Server
open Futures Futures.Fut Models Utils Transport External Services

/-- Every attempt succeeds at once, and the timer of the timeout does not fail. -/
structure Prompt (met : Conditions Service) : Prop where
  sends : ∀ i n, met.env i (.send n) = (.ok (), 0)
  timeout : met.timerFails = none

section Handling
variable {json : SerdeJson} {q : Outbox} {timeout : Nat} {data : Bytes} {n : Notification}
  {met : Conditions Service}

/-- The first attempt ends the handling. -/
theorem exec_deliver_prompt (h : Prompt met) :
    (callNotificator.deliver n).exec met.env 0 0 =
      ⟨[⟨.send n, 0, some (.ok ())⟩], 0, .ok ()⟩ := by
  rw [Notificator.deliver, Notificator.sendOrPark, delays, forEach, attempt_call]
  simp only [andThen, call_bind, exec_call, h.sends]
  rfl

theorem handling_prompt (hparse : q.parse json data = .ok n) (h : Prompt met) :
    (callSubscription json q timeout).handling data met =
      ⟨[⟨.send n, 0, some (.ok ())⟩], some (.ok (), 0)⟩ := by
  have hexec := exec_deliver_prompt (n := n) h
  have hrun : (callNotificator.deliver n).runUntil (secs timeout) met.env 0 0 = _ :=
    runUntil_inTime (by rw [hexec]; exact Nat.zero_le _)
  rw [handling_deliver hparse, Conditions.deadline_none h.timeout, hrun, hexec]
  rfl

/-- A message that does not parse is never handled well. -/
theorem malformed_fails {e : ServiceError} (hparse : q.parse json data = .error e)
    (met : Conditions Service) : (callSubscription json q timeout).succeeds data met = false := by
  have hmessage : callNotificator.handleMessage json data q.name = .ready (.error e) := by
    rw [Notificator.handleMessage_outbox, hparse]
    rfl
  have hhandling : (callSubscription json q timeout).handling data met =
      ⟨[], some (.error e, 0)⟩ := by
    show (callNotificator.handleMessage json data q.name).runUntil _ _ 0 0 = _
    rw [hmessage]
    rfl
  rw [Subscription.succeeds, hhandling]

theorem wellFormed_succeeds (hparse : q.parse json data = .ok n) (h : Prompt met) :
    (callSubscription json q timeout).succeeds data met = true := by
  rw [Subscription.succeeds, handling_prompt hparse h]

end Handling

/-! ## Runs in which the handlings of well-formed messages succeed -/

/-- The messages of a queue with these contents. -/
def queued (contents : List Bytes) : List Message := contents.mapIdx Message.mk

/-- Nothing is published, and handlings meet only `good` conditions. -/
def Quiet {ι : Type} (good : ι → Prop) : SystemEvent ι → Prop
  | .publish _ => False
  | .handled met => good met
  | _ => True

/-- The steps that a consumer in this phase still owes. -/
def Phase.owed : Phase → Nat
  | .handling _ => 3
  | .settling _ _ => 2
  | .waiting => 0
  | .delaying _ => 0
  | .ended => 0

namespace System
variable {ι : Type} {ok : Bytes → ι → Bool} {good : ι → Prop} {contents : List Bytes}

/-- The steps it takes to empty the queue. -/
def owed (s : System ι) : Nat :=
  5 * s.broker.ready.length + 4 * s.toClient.length + s.consumer.phase.owed + s.toBroker.length

/-- The queue is being emptied: each message is taken once and handled well. -/
structure Draining (ok : Bytes → ι → Bool) (good : ι → Prop) (contents : List Bytes)
    (s : System ι) : Prop where
  published : s.broker.published = queued contents
  order : s.consumer.received.map Delivery.message ++ s.toClient.map Delivery.message ++
    s.broker.ready = s.broker.published
  well : ∀ h ∈ s.consumer.handled, ok h.1.message.data h.2 = true
  quiet : ∀ h ∈ s.consumer.handled, good h.2
  acked : ∀ m ∈ s.broker.acked, ∃ d, d.message = m ∧ Handled ok s.consumer.handled d true

theorem draining_start : Draining ok good contents (start contents : System ι) where
  published := rfl
  order := rfl
  well _ hmem := (List.not_mem_nil hmem).elim
  quiet _ hmem := (List.not_mem_nil hmem).elim
  acked _ hmem := (List.not_mem_nil hmem).elim

theorem owed_start : (start contents : System ι).owed = 5 * contents.length := by
  simp [owed, start, Consumer.start, Phase.owed]

theorem Draining.not_failed {s : System ι} (h : Draining ok good contents s) {d : Delivery} :
    ¬ Handled ok s.consumer.handled d false := by
  rintro ⟨met, hmem, hno⟩
  have hyes := h.well _ hmem
  rw [hno] at hyes
  cases hyes

/-- What is outstanding is one of the messages of the queue. -/
theorem Draining.outstanding_queued {s : System ι} (h : Draining ok good contents s) (hs : Sound ok s)
    {d : Delivery} (hd : s.broker.unacked = [d]) : d.message ∈ queued contents := by
  rw [← h.published, ← hs.accounted.messages, hd]
  exact List.mem_append_left _ (List.mem_append_right _ List.mem_cons_self)

/-- A handling that ends under good conditions went well, and is one step of progress. -/
theorem draining_handled {s : System ι} {met : ι} {c : Consumer ι}
    (hc : Consumer.Step ok s.consumer (.handled met) c)
    (hgood : ∀ m ∈ queued contents, ∀ met, good met → ok m.data met = true)
    (hmet : good met) (hs : Sound ok s) (h : Draining ok good contents s) :
    Draining ok good contents { s with consumer := c } ∧
      ({ s with consumer := c } : System ι).owed + 1 = s.owed := by
  cases hc with
  | succeeded hp hok =>
    refine ⟨⟨h.published, h.order, ?_, ?_, ?_⟩, ?_⟩
    · exact List.forall_mem_append.mpr ⟨h.well, List.forall_mem_singleton.mpr hok⟩
    · exact List.forall_mem_append.mpr ⟨h.quiet, List.forall_mem_singleton.mpr hmet⟩
    · intro m hm
      obtain ⟨d', hd', hhandled⟩ := h.acked m hm
      exact ⟨d', hd', hhandled.append _⟩
    · simp only [owed, hp, Phase.owed]
      omega
  | @failed d _ hp hno =>
    have hworks := hs.shape.works (d := d) (by rw [hp]; rfl)
    have hok := hgood _ (h.outstanding_queued hs hworks.1) met hmet
    rw [hno] at hok
    cases hok

/-- Every step of a quiet run is progress: one of the steps that are owed. -/
theorem Step.draining {s s' : System ι} {event : SystemEvent ι} (hstep : Step ok s event s')
    (hgood : ∀ m ∈ queued contents, ∀ met, good met → ok m.data met = true)
    (hquiet : Quiet good event) (hs : Sound ok s) (h : Draining ok good contents s) :
    Draining ok good contents s' ∧ s'.owed + 1 = s.owed := by
  cases hstep with
  | publish => exact hquiet.elim
  | deliver hd =>
    obtain ⟨m, rest, hready, -, rfl, rfl⟩ := Broker.deliver_some hd
    refine ⟨⟨h.published, ?_, h.well, h.quiet, h.acked⟩, ?_⟩
    · have horder := h.order
      rw [hready] at horder
      rw [← horder]
      simp
    · simp only [owed, hready, List.length_append, List.length_cons, List.length_nil]
      omega
  | receive hin hc =>
    cases hc with
    | received hp =>
      refine ⟨⟨h.published, ?_, h.well, h.quiet, h.acked⟩, ?_⟩
      · have horder := h.order
        rw [hin] at horder
        rw [← horder]
        simp
      · simp only [owed, hin, hp, Phase.owed, List.length_cons]
        omega
  | handled hc => exact draining_handled hc hgood hquiet hs h
  | delayed hc =>
    cases hc with
    | delayed hp => exact (h.not_failed (hs.justifying.delaying _ hp)).elim
  | settle hp hc =>
    cases hc with
    | settled hpc =>
      refine ⟨⟨h.published, h.order, h.well, h.quiet, h.acked⟩, ?_⟩
      simp only [owed, hp, Phase.owed, List.length_append, List.length_singleton]
      omega
  | process hin hb =>
    cases hs.processed hin hb with
    | ack hhandled =>
      refine ⟨⟨h.published, h.order, h.well, h.quiet, ?_⟩, ?_⟩
      · exact List.forall_mem_append.mpr
          ⟨h.acked, List.forall_mem_singleton.mpr ⟨_, rfl, hhandled⟩⟩
      · simp only [owed, hin, List.length_cons]
        omega
    | nack hfailed => exact (h.not_failed hfailed).elim

/-- A quiet run from contents that are handled well: what it did and what it owes. -/
theorem reaches_draining {labels : List (SystemEvent ι)} {s : System ι}
    (hgood : ∀ m ∈ queued contents, ∀ met, good met → ok m.data met = true)
    (hrun : (machine ok contents).Reaches labels s) (hquiet : ∀ l ∈ labels, Quiet good l) :
    Draining ok good contents s ∧ labels.length + s.owed = 5 * contents.length := by
  have hall := hrun.history
    (P := fun ls s => (∀ l ∈ ls, Quiet good l) →
      Sound ok s ∧ Draining ok good contents s ∧ ls.length + s.owed = 5 * contents.length)
    (fun _ => ⟨sound_start contents, draining_start, by
      rw [List.length_nil, Nat.zero_add]
      exact owed_start⟩)
    (fun ls s l s' hP hstep hls => by
      obtain ⟨hs, hd, hlen⟩ := hP fun l' hl' => hls l' (List.mem_append_left _ hl')
      have hl := hls l (List.mem_append_right _ (List.mem_singleton.mpr rfl))
      have hspec := step_spec hstep
      obtain ⟨hd', howed⟩ := hspec.draining hgood hl hs hd
      refine ⟨hspec.sound hs, hd', ?_⟩
      rw [List.length_append, List.length_singleton]
      omega)
  exact (hall hquiet).2

/-- A system that can do nothing quietly has nothing under way and nothing ready. -/
theorem Sound.exhausted {s : System ι} (hs : Sound ok s) {met : ι} (hmet : good met)
    (hstuck : ∀ event, Quiet good event → s.step ok event = none) :
    s.Idle ∧ s.broker.ready = [] := by
  cases hs.shape with
  | idle hunacked hclient hbroker hphase =>
    refine ⟨⟨hunacked, hclient, hbroker, hphase⟩, ?_⟩
    have hdeliver := hstuck .deliver trivial
    cases hready : s.broker.ready with
    | nil => rfl
    | cons m rest =>
      simp [step, Broker.deliver, hready, hunacked, consumerPrefetchCount] at hdeliver
  | inFlight d hunacked hclient hbroker hphase =>
    have hreceive := hstuck .receive trivial
    simp [step, Consumer.step, hclient, hphase] at hreceive
  | busy d hunacked hclient hbroker hphase =>
    cases hp : s.consumer.phase with
    | handling d' =>
      have hhandled := hstuck (.handled met) hmet
      simp [step, Consumer.step, hp] at hhandled
    | delaying d' =>
      have hdelayed := hstuck .delayed trivial
      simp [step, Consumer.step, hp] at hdelayed
    | settling d' frame =>
      have hsettle := hstuck .settle trivial
      simp [step, Consumer.step, hp] at hsettle
    | waiting =>
      rw [hp] at hphase
      cases hphase
    | ended =>
      rw [hp] at hphase
      cases hphase
  | settled d frame hunacked hclient hbroker hphase hmem =>
    have hprocess := hstuck .process trivial
    cases hs.justifying.sent _ _ hmem with
    | ack => simp [step, hbroker, Broker.process_ack hunacked] at hprocess
    | nack => simp [step, hbroker, Broker.process_nack hunacked] at hprocess

/-! ## A malformed message at the front -/

theorem queued_positions (contents : List Bytes) :
    (queued contents).map Message.position = List.range contents.length := by
  have h := (sound_start contents : Sound (fun _ (_ : Unit) => true) _).accounted.positions
  rw [show (start contents : System Unit).broker.published = queued contents from rfl] at h
  rw [h, queued, List.length_mapIdx]

theorem queued_sorted (contents : List Bytes) :
    (queued contents).Pairwise fun m m' => m.position < m'.position := by
  rw [← List.pairwise_map, queued_positions]
  exact List.pairwise_lt_range

theorem queued_nodup (contents : List Bytes) : (queued contents).Nodup := by
  refine List.Nodup.of_map Message.position ?_
  rw [queued_positions]
  exact List.nodup_range

theorem quiet_takenLabels {met : ι} (hmet : good met) : ∀ l ∈ takenLabels met, Quiet good l := by
  simp [takenLabels, Quiet, hmet]

theorem quiet_givenBackLabels {met : ι} (hmet : good met) :
    ∀ l ∈ givenBackLabels met, Quiet good l := by
  simp [givenBackLabels, Quiet, hmet]

/-- From the front of the queue up to the first message that fails, and then that
message twice. -/
theorem exists_received_twice (ok : Bytes → ι → Bool) (contents : List Bytes) {met : ι}
    (hmet : good met) {ready : List Message} {s : System ι} (hidle : s.Idle)
    (hready : s.broker.ready = ready)
    (hsorted : ready.Pairwise fun m m' => m.position < m'.position)
    (hbad : ∃ m ∈ ready, ok m.data met = false) :
    ∃ labels s', (machine ok contents).runFrom s labels = some s' ∧
      (∀ l ∈ labels, Quiet good l) ∧
      ∃ before m, s'.consumer.received.map Delivery.message = before ++ [m, m] := by
  induction ready generalizing s with
  | nil =>
    obtain ⟨m, hmem, -⟩ := hbad
    exact (List.not_mem_nil hmem).elim
  | cons m rest ih =>
    obtain ⟨hfront, hrest⟩ := List.pairwise_cons.mp hsorted
    cases hok : ok m.data met with
    | true =>
      have hbad' : ∃ m' ∈ rest, ok m'.data met = false := by
        obtain ⟨m', hmem, hno⟩ := hbad
        rcases List.mem_cons.mp hmem with rfl | hmem
        · rw [hok] at hno
          cases hno
        · exact ⟨m', hmem, hno⟩
      obtain ⟨labels, s', hrun, hquiet, htwice⟩ := ih (hidle.taken m rest met) rfl hrest hbad'
      exact ⟨_, s', Transition.Machine.runFrom_trans _ (runFrom_taken contents hidle hready hok) hrun,
        List.forall_mem_append.mpr ⟨quiet_takenLabels hmet, hquiet⟩, htwice⟩
    | false =>
      refine ⟨_, _, runFrom_givenBackTimes contents hidle hready hfront hok 2, fun l hl => ?_,
        s.consumer.received.map Delivery.message, m, ?_⟩
      · obtain ⟨labels, hlabels, hmem⟩ := List.mem_flatten.mp hl
        rw [List.eq_of_mem_replicate hlabels] at hmem
        exact quiet_givenBackLabels hmet l hmem
      · simp [givenBackTimes, givenBack]

/-- A message that is never handled well stays in the queue, and nothing behind it
has been received. -/
structure Blocked (ok : Bytes → ι → Bool) (bad : Message) (s : System ι) : Prop where
  present : bad ∈ s.broker.published
  acked : ∀ m ∈ s.broker.acked, ∃ met, ok m.data met = true
  received : ∀ d ∈ s.consumer.received, d.message.position ≤ bad.position

/-- The outstanding delivery is not behind the message. -/
theorem Blocked.outstanding {s : System ι} {bad : Message} (h : Blocked ok bad s)
    (hs : Sound ok s) (hfails : ∀ met, ok bad.data met = false) {d : Delivery}
    (hd : s.broker.unacked = [d]) : d.message.position ≤ bad.position := by
  have hmem := h.present
  rw [← hs.accounted.messages, hd] at hmem
  rcases List.mem_append.mp hmem with hmem | hready
  · rcases List.mem_append.mp hmem with hacked | hhead
    · obtain ⟨met, hok⟩ := h.acked bad hacked
      rw [hfails met] at hok
      cases hok
    · rw [List.mem_singleton.mp hhead]
  · exact Nat.le_of_lt (hs.accounted.outstanding_first hd bad hready)

theorem Step.blocked {s s' : System ι} {event : SystemEvent ι} {bad : Message}
    (hstep : Step ok s event s') (hfails : ∀ met, ok bad.data met = false) (hs : Sound ok s)
    (h : Blocked ok bad s) : Blocked ok bad s' := by
  cases hstep with
  | publish => exact ⟨List.mem_append_left _ h.present, h.acked, h.received⟩
  | deliver hd =>
    obtain ⟨m, rest, -, -, rfl, rfl⟩ := Broker.deliver_some hd
    exact ⟨h.present, h.acked, h.received⟩
  | receive hin hc =>
    have hshape := shape_receive hs.shape hin hc
    cases hc with
    | received hp =>
      have hhead := h.outstanding hs hfails (hshape.works rfl).1
      exact ⟨h.present, h.acked,
        List.forall_mem_append.mpr ⟨h.received, List.forall_mem_singleton.mpr hhead⟩⟩
  | handled hc =>
    cases hc with
    | succeeded hp hok => exact ⟨h.present, h.acked, h.received⟩
    | failed hp hno => exact ⟨h.present, h.acked, h.received⟩
  | delayed hc =>
    cases hc with
    | delayed hp => exact ⟨h.present, h.acked, h.received⟩
  | settle hp hc =>
    cases hc with
    | settled hpc => exact ⟨h.present, h.acked, h.received⟩
  | process hin hb =>
    cases hs.processed hin hb with
    | ack hhandled =>
      obtain ⟨met, -, hok⟩ := hhandled
      exact ⟨h.present,
        List.forall_mem_append.mpr ⟨h.acked, List.forall_mem_singleton.mpr ⟨met, hok⟩⟩, h.received⟩
    | nack hfailed => exact ⟨h.present, h.acked, h.received⟩

/-- In every run whatever: a message that is never handled well keeps all that is
behind it from being received. -/
theorem reaches_blocked {labels : List (SystemEvent ι)} {s : System ι} {bad : Message}
    (hrun : (machine ok contents).Reaches labels s) (hqueued : bad ∈ queued contents)
    (hfails : ∀ met, ok bad.data met = false) : Blocked ok bad s := by
  have hall := hrun.invariant (P := fun s => Sound ok s ∧ Blocked ok bad s)
    ⟨sound_start contents, hqueued, fun _ hm => (List.not_mem_nil hm).elim,
      fun _ hd => (List.not_mem_nil hd).elim⟩
    (by
      rintro s event s' ⟨hs, hb⟩ hstep
      have hspec := step_spec hstep
      exact ⟨hspec.sound hs, hspec.blocked hfails hs hb⟩)
  exact hall.2

end System

/-! ## Which queues drain -/

/-- A run without publications, timeouts and broker errors, in which every attempt
succeeds at once. -/
structure QuietRun (sub : Subscription Service) (contents : List Bytes)
    (labels : List (SystemEvent (Conditions Service))) (s : System (Conditions Service)) : Prop where
  reaches : (System.machine sub.succeeds contents).Reaches labels s
  quiet : ∀ l ∈ labels, Quiet Prompt l

/-- The run cannot go on. -/
def Exhausted (sub : Subscription Service) (s : System (Conditions Service)) : Prop :=
  ∀ event, Quiet Prompt event → s.step sub.succeeds event = none

/-- The queue drains: every quiet run comes to an end, each message is delivered
once and in order, as many deliveries as messages leave nothing ready, and in the
end everything is acknowledged and every well-formed message has been sent. -/
structure Drains (json : SerdeJson) (q : Outbox) (timeout : Nat) (contents : List Bytes) : Prop where
  once : ∀ labels s, QuietRun (callSubscription json q timeout) contents labels s →
    s.consumer.received.map Delivery.message <+: queued contents
  emptied : ∀ labels s, QuietRun (callSubscription json q timeout) contents labels s →
    s.consumer.received.length = contents.length → s.broker.ready = []
  ends : ∀ labels s, QuietRun (callSubscription json q timeout) contents labels s →
    labels.length ≤ 5 * contents.length
  delivered : ∀ labels s, QuietRun (callSubscription json q timeout) contents labels s →
    Exhausted (callSubscription json q timeout) s →
    s.consumer.received.map Delivery.message = queued contents ∧
      s.broker.acked = queued contents
  sent : ∀ labels s, QuietRun (callSubscription json q timeout) contents labels s →
    Exhausted (callSubscription json q timeout) s →
    ∀ m ∈ queued contents, ∀ n, q.parse json m.data = .ok n →
      ∃ d met, (d, met) ∈ s.consumer.handled ∧ d.message = m ∧
        ⟨.send n, 0, some (.ok ())⟩ ∈ ((callSubscription json q timeout).handling m.data met).log

section Drains
variable {json : SerdeJson} {q : Outbox} {timeout : Nat} {contents : List Bytes}

/-- A server that accepts every attempt at once. -/
def prompt : Conditions Service where
  env _ c :=
    match c with
    | .send _ => (.ok (), 0)
    | .delay t => (.ok (), secs t)
    | .publishError _ => (.ok (), 0)
  timerFails := none

theorem prompt_prompt : Prompt prompt := ⟨fun _ _ => rfl, rfl⟩

theorem mem_queued {m : Message} (h : m ∈ queued contents) : m.data ∈ contents := by
  obtain ⟨i, hi, rfl⟩ := List.mem_mapIdx.mp h
  exact List.getElem_mem hi

theorem exists_queued {data : Bytes} (h : data ∈ contents) : ∃ m ∈ queued contents, m.data = data := by
  obtain ⟨i, hi, rfl⟩ := List.getElem_of_mem h
  exact ⟨⟨i, contents[i]⟩, List.mem_mapIdx.mpr ⟨i, hi, rfl⟩, rfl⟩

/-- With a malformed message the queue does not drain. -/
theorem not_drains {data : Bytes} {e : ServiceError} (hmem : data ∈ contents)
    (hparse : q.parse json data = .error e) : ¬ Drains json q timeout contents := by
  intro hdrains
  obtain ⟨m, hm, rfl⟩ := exists_queued hmem
  obtain ⟨labels, s, hrun, hquiet, before, m', htwice⟩ :=
    System.exists_received_twice (callSubscription json q timeout).succeeds contents prompt_prompt
      (System.idle_start contents) rfl
      (System.queued_sorted contents) ⟨m, hm, malformed_fails hparse prompt⟩
  have hbegins := hdrains.once labels s ⟨hrun, hquiet⟩
  have hnodup := (System.queued_nodup contents).sublist hbegins.sublist
  rw [htwice] at hnodup
  exact absurd (List.nodup_append.mp hnodup).2.1 (by simp)

/-- In every run, whatever its handlings meet, nothing behind a malformed message is
ever received. -/
theorem nothing_behind_malformed {labels : List (SystemEvent (Conditions Service))}
    {s : System (Conditions Service)}
    (hrun : (System.machine (callSubscription json q timeout).succeeds contents).Reaches labels s)
    {m : Message} {e : ServiceError} (hm : m ∈ queued contents)
    (hparse : q.parse json m.data = .error e) :
    ∀ d ∈ s.consumer.received, d.message.position ≤ m.position :=
  (System.reaches_blocked hrun hm (malformed_fails hparse)).received

/-- A queue of well-formed messages drains. -/
theorem drains_of_wellFormed (hparse : ∀ data ∈ contents, ∃ n, q.parse json data = .ok n) :
    Drains json q timeout contents := by
  have hgood : ∀ m ∈ queued contents, ∀ met, Prompt met →
      (callSubscription json q timeout).succeeds m.data met = true := by
    intro m hm met hmet
    obtain ⟨n, hn⟩ := hparse _ (mem_queued hm)
    exact wellFormed_succeeds hn hmet
  have hdone : ∀ labels s, QuietRun (callSubscription json q timeout) contents labels s →
      Exhausted (callSubscription json q timeout) s →
      s.Draining (callSubscription json q timeout).succeeds Prompt contents ∧
        s.consumer.received.map Delivery.message = queued contents ∧
        s.broker.acked = queued contents := by
    rintro labels s ⟨hrun, hquiet⟩ hstuck
    have hs := System.reaches_sound hrun
    have hd := (System.reaches_draining hgood hrun hquiet).1
    obtain ⟨hidle, hready⟩ := hs.exhausted prompt_prompt hstuck
    refine ⟨hd, ?_, ?_⟩
    · have horder := hd.order
      rw [hidle.toClient, hready, hd.published, List.map_nil, List.append_nil,
        List.append_nil] at horder
      exact horder
    · have hmessages := hs.accounted.messages
      rw [hidle.unacked, hready, hd.published, List.map_nil, List.append_nil,
        List.append_nil] at hmessages
      exact hmessages
  refine ⟨?_, ?_, ?_, fun labels s hrun hstuck => (hdone labels s hrun hstuck).2, ?_⟩
  · rintro labels s ⟨hrun, hquiet⟩
    have hd := (System.reaches_draining hgood hrun hquiet).1
    rw [← hd.published, ← hd.order, List.append_assoc]
    exact List.prefix_append _ _
  · rintro labels s ⟨hrun, hquiet⟩ hlength
    have hd := (System.reaches_draining hgood hrun hquiet).1
    have hall := congrArg List.length hd.order
    rw [hd.published, queued, List.length_mapIdx, List.length_append, List.length_append,
      List.length_map, hlength] at hall
    exact List.eq_nil_of_length_eq_zero (by omega)
  · rintro labels s ⟨hrun, hquiet⟩
    have hlength := (System.reaches_draining hgood hrun hquiet).2
    omega
  · intro labels s hrun hstuck m hm n hn
    obtain ⟨hd, -, hacked⟩ := hdone labels s hrun hstuck
    rw [← hacked] at hm
    obtain ⟨d, rfl, met, hmem, -⟩ := hd.acked m hm
    refine ⟨d, met, hmem, rfl, ?_⟩
    rw [handling_prompt hn (hd.quiet _ hmem)]
    exact List.mem_cons_self

/-- A queue drains if and only if all its messages are well formed. -/
theorem drains_iff (json : SerdeJson) (q : Outbox) (timeout : Nat) (contents : List Bytes) :
    Drains json q timeout contents ↔ ∀ data ∈ contents, ∃ n, q.parse json data = .ok n := by
  constructor
  · intro hdrains data hmem
    cases hparse : q.parse json data with
    | ok n => exact ⟨n, rfl⟩
    | error e => exact (not_drains hmem hparse hdrains).elim
  · exact drains_of_wellFormed

/-- One byte that is not UTF-8, and a callback behind it. -/
theorem malformed_message_blocks_queue :
    ¬ Drains exampleJson .callbacks exampleConfig.rabbit.restartSubscriptionSecs
      [[0xff], exampleMessage.data] := by
  have hparse : Outbox.callbacks.parse exampleJson [0xff] =
      .error ⟨.internal, some .utf8⟩ := by rfl
  exact not_drains List.mem_cons_self hparse

end Drains

end PaymentsNotifications.Server
