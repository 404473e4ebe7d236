import PaymentsNotifications.Lib.WorkQueue
import PaymentsNotifications.Server.Runtime
import PaymentsNotifications.Server.Settlement

/-! A queue and the service over lost channels and restarts. When a channel is lost the
broker puts back what is outstanding on it. The loop may still be at work on a
delivery, but can settle nothing any more; or it has ended, and the broker has not
noticed. Only a new process subscribes again. Seen from outside, all of this is a
work queue. -/

namespace PaymentsNotifications.Server
open Utils

/-- The channel is gone: what is outstanding goes back to its place, and the next
channel numbers its deliveries anew. -/
def Broker.reclaim (self : Broker) : Broker :=
  { self with ready := self.unacked.foldr (fun d ready => requeue d.message ready) self.ready,
              unacked := [], delivered := 0, settled := [] }

theorem Consumer.Step.handled_eq {ι : Type} {ok : Bytes → ι → Bool} {c c' : Consumer ι}
    {e : ConsumerEvent ι} (h : Consumer.Step ok c e c') (hfatal : e.isFatal = true) :
    c'.handled = c.handled := by
  cases h with
  | succeeded => cases hfatal
  | failed => cases hfatal
  | _ => rfl

/-- What takes the channel: the broker's deliveries, and the frames of the client. -/
def SystemEvent.needsChannel {ι : Type} : SystemEvent ι → Bool
  | .deliver => true
  | .settle => true
  | .process => true
  | _ => false

inductive LivesEvent (ι : Type) where
  | event (e : SystemEvent ι)
  | channelLost
  | consumerEnded (e : ConsumerEvent ι)
  | restarted

/-- The service on a queue, with the handlings of the lives before this one. -/
structure Lives (ι : Type) where
  system : System ι
  connected : Bool
  past : List (List (Delivery × ι))

namespace Lives
variable {ι : Type}

def start (contents : List Bytes) : Lives ι := ⟨.start contents, true, []⟩

/-- A new process, on a new channel. -/
def restart (self : Lives ι) : Lives ι where
  system := ⟨self.system.broker.reclaim, [], [], Consumer.start⟩
  connected := true
  past := self.past ++ [self.system.consumer.handled]

def step (ok : Bytes → ι → Bool) (self : Lives ι) : LivesEvent ι → Option (Lives ι)
  | .event e =>
    if e.needsChannel && !self.connected then none
    else (self.system.step ok e).map fun s => { self with system := s }
  | .channelLost =>
    if self.connected then
      some { self with
        system := { self.system with broker := self.system.broker.reclaim, toBroker := [] }
        connected := false }
    else none
  | .consumerEnded e =>
    if e.isFatal then
      (self.system.consumer.step ok e).map fun c =>
        { self with system := { self.system with consumer := c } }
    else none
  | .restarted => some self.restart

/-- What a step does, case by case. -/
inductive Step (ok : Bytes → ι → Bool) : Lives ι → LivesEvent ι → Lives ι → Prop where
  | up {l e s} (hup : l.connected = true) (hs : System.Step ok l.system e s) :
      Step ok l (.event e) { l with system := s }
  | down {l e s} (hdown : l.connected = false) (hfree : e.needsChannel = false)
      (hs : System.Step ok l.system e s) : Step ok l (.event e) { l with system := s }
  | channelLost {l} (hup : l.connected = true) : Step ok l .channelLost
      { l with
        system := { l.system with broker := l.system.broker.reclaim, toBroker := [] }
        connected := false }
  | consumerEnded {l e c} (hfatal : e.isFatal = true)
      (hc : Consumer.Step ok l.system.consumer e c) :
      Step ok l (.consumerEnded e) { l with system := { l.system with consumer := c } }
  | restarted {l} : Step ok l .restarted l.restart

theorem step_spec {ok : Bytes → ι → Bool} {l l' : Lives ι} {event : LivesEvent ι}
    (h : l.step ok event = some l') : Step ok l event l' := by
  cases event with
  | event e =>
    simp only [step] at h
    by_cases hneeds : (e.needsChannel && !l.connected) = true
    · rw [if_pos hneeds] at h
      cases h
    · rw [if_neg hneeds] at h
      obtain ⟨s, hs, rfl⟩ := Option.map_eq_some_iff.mp h
      by_cases hup : l.connected = true
      · exact .up hup (System.step_spec hs)
      · rw [Bool.not_eq_true] at hup
        rw [hup, Bool.not_false, Bool.and_true, Bool.not_eq_true] at hneeds
        exact .down hup hneeds (System.step_spec hs)
  | channelLost =>
    simp only [step] at h
    by_cases hup : l.connected = true
    · rw [if_pos hup] at h
      obtain rfl := Option.some.inj h
      exact .channelLost hup
    · rw [if_neg hup] at h
      cases h
  | consumerEnded e =>
    simp only [step] at h
    by_cases hfatal : e.isFatal = true
    · rw [if_pos hfatal] at h
      obtain ⟨c, hc, rfl⟩ := Option.map_eq_some_iff.mp h
      exact .consumerEnded hfatal (Consumer.step_spec hc)
    · rw [if_neg hfatal] at h
      cases h
  | restarted =>
    obtain rfl := Option.some.inj h
    exact .restarted

def machine (ok : Bytes → ι → Bool) (contents : List Bytes) :
    Transition.Machine (Lives ι) (LivesEvent ι) where
  init := start contents
  step := step ok

end Lives

/-! ## What is put back -/

namespace System
variable {ι : Type} {ok : Bytes → ι → Bool}

theorem Accounted.reclaim_ready {s : System ι} (h : s.Accounted)
    (hone : s.broker.unacked.length ≤ 1) :
    s.broker.reclaim.ready = s.broker.unacked.map Delivery.message ++ s.broker.ready := by
  unfold Broker.reclaim
  cases hunacked : s.broker.unacked with
  | nil => rfl
  | cons d rest =>
    rw [hunacked, List.length_cons] at hone
    obtain rfl : rest = [] := List.eq_nil_of_length_eq_zero (by omega)
    exact Broker.requeue_front (h.outstanding_first hunacked)

/-- The account stays right when the channel goes. -/
theorem accounted_reclaim {s : System ι} (h : s.Accounted) (hone : s.broker.unacked.length ≤ 1)
    (toClient : List Delivery) (toBroker : List (Delivery × Frame)) (c : Consumer ι) :
    (⟨s.broker.reclaim, toClient, toBroker, c⟩ : System ι).Accounted where
  messages := by
    show s.broker.acked ++ [] ++ s.broker.reclaim.ready = s.broker.published
    rw [h.reclaim_ready hone, List.append_nil, ← List.append_assoc, h.messages]
  positions := h.positions
  tags := rfl

/-- A new life on the queue begins as the first one did. -/
theorem sound_resume {s : System ι} (h : s.Accounted) (hone : s.broker.unacked.length ≤ 1) :
    Sound ok ⟨s.broker.reclaim, [], [], Consumer.start⟩ where
  accounted := accounted_reclaim h hone _ _ _
  shape := .idle rfl rfl rfl rfl rfl rfl
  justifying := Consumer.justifying_start

theorem finished_resume (broker : Broker) :
    Finished ok (⟨broker, [], [], Consumer.start⟩ : System ι) where
  placed := fun _ ⟨_, hmem, _⟩ => (List.not_mem_nil hmem).elim
  once := List.Pairwise.nil

/-- The first message that is not acknowledged. -/
theorem Accounted.next {s : System ι} (h : s.Accounted) {m : Message} {rest : List Message}
    (hsplit : s.broker.acked ++ m :: rest = s.broker.published) :
    s.broker.published[s.broker.acked.length]? = some m ∧ m.position = s.broker.acked.length := by
  have hget : s.broker.published[s.broker.acked.length]? = some m := by
    rw [← hsplit, List.getElem?_append_right (Nat.le_refl _), Nat.sub_self, List.getElem?_cons_zero]
  have hlt := (List.getElem?_eq_some_iff.mp hget).1
  have hposition := congrArg (·[s.broker.acked.length]?) h.positions
  simp only [List.getElem?_map, hget, Option.map_some, List.getElem?_range hlt] at hposition
  exact ⟨hget, Option.some.inj hposition⟩

/-- In one life, what was handled well is not handled again. -/
def Once (ok : Bytes → ι → Bool) (handled : List (Delivery × ι)) : Prop :=
  handled.Pairwise fun a b => a.1.message = b.1.message → ok a.1.message.data a.2 = false

/-- The loop is at work on the delivery, or will be. -/
def Pending (s : System ι) (d : Delivery) : Prop :=
  s.consumer.phase = .handling d ∨ s.consumer.phase = .waiting ∧ d ∈ s.toClient

theorem not_pending {s : System ι} (hhandling : ∀ d, s.consumer.phase ≠ .handling d)
    (hwaiting : s.consumer.phase ≠ .waiting) (d : Delivery) : ¬ s.Pending d := by
  rintro (hp | ⟨hp, -⟩)
  · exact hhandling d hp
  · exact hwaiting hp

/-- The channel is gone. What the loop still works on is next in the queue as well. -/
structure Stranded (ok : Bytes → ι → Bool) (s : System ι) : Prop where
  accounted : s.Accounted
  unacked : s.broker.unacked = []
  toBroker : s.toBroker = []
  once : Once ok s.consumer.handled
  held : ∀ d, s.Pending d → s.broker.ready.head? = some d.message ∧
    ∀ d', Handled ok s.consumer.handled d' true → d'.message ≠ d.message

/-- The loop is over, and the channel is not. -/
structure Deserted (ok : Bytes → ι → Bool) (s : System ι) : Prop where
  accounted : s.Accounted
  phase : s.consumer.phase = .ended
  one_unacked : s.broker.unacked.length ≤ 1
  once : Once ok s.consumer.handled
  frames : s.toBroker = [] ∨ ∃ d frame, s.toBroker = [(d, frame)] ∧ s.broker.unacked = [d] ∧
    Justified ok s.consumer.handled d frame

theorem Sound.frames {s : System ι} (h : Sound ok s) :
    s.toBroker = [] ∨ ∃ d frame, s.toBroker = [(d, frame)] ∧ s.broker.unacked = [d] ∧
      Justified ok s.consumer.handled d frame := by
  cases h.shape with
  | idle _ _ hbroker => exact .inl hbroker
  | inFlight _ _ _ hbroker => exact .inl hbroker
  | busy _ _ _ hbroker => exact .inl hbroker
  | settled d frame hunacked _ hbroker _ hmem =>
    exact .inr ⟨d, frame, hbroker, hunacked, h.justifying.sent d frame hmem⟩

/-- The broker takes the one frame on its way. -/
theorem Accounted.processed_only {s : System ι} (h : s.Accounted)
    (honly : s.toBroker = [] ∨ ∃ d frame, s.toBroker = [(d, frame)] ∧ s.broker.unacked = [d] ∧
      Justified ok s.consumer.handled d frame)
    {d : Delivery} {frame : Frame} {rest : List (Delivery × Frame)} {b : Broker}
    (hin : s.toBroker = (d, frame) :: rest) (hb : s.broker.process frame = some b) :
    s.broker.unacked = [d] ∧ rest = [] ∧ Processed ok s d frame b := by
  rcases honly with hnone | ⟨d', frame', hone, hunacked, hjust⟩
  · rw [hnone] at hin
    cases hin
  · rw [hone] at hin
    obtain ⟨hhead, rfl⟩ := List.cons.inj hin
    cases hhead
    exact ⟨hunacked, rfl, h.processed hunacked hjust hb⟩

/-- What the loop works on, or will, is outstanding and was not handled well before. -/
theorem Sound.pending {s : System ι} (hs : Sound ok s) (hf : Finished ok s) {d : Delivery}
    (hd : s.Pending d) : s.broker.unacked = [d] ∧
      ∀ d', Handled ok s.consumer.handled d' true → d'.message ≠ d.message := by
  have hnew : s.broker.unacked = [d] → (∀ d', ¬ s.Acking d') →
      ∀ d', Handled ok s.consumer.handled d' true → d'.message ≠ d.message := by
    intro hunacked hnone d' hd' hsame
    rcases hf.placed d' hd' with hacked | hway
    · rw [hsame] at hacked
      exact hs.accounted.outstanding_not_acked hunacked hacked
    · exact hnone d' hway
  rcases hd with hp | ⟨hp, hmem⟩
  · have hworks := hs.shape.works (d := d) (by rw [hp]; rfl)
    refine ⟨hworks.1, hnew hworks.1 ?_⟩
    rintro d' (hphase | hframe)
    · rw [hp] at hphase
      cases hphase
    · rw [hworks.2.2.1] at hframe
      exact List.not_mem_nil hframe
  · cases hs.shape with
    | inFlight d' hunacked hclient hbroker =>
      rw [hclient] at hmem
      obtain rfl := List.mem_singleton.mp hmem
      refine ⟨hunacked, hnew hunacked ?_⟩
      rintro d' (hphase | hframe)
      · rw [hp] at hphase
        cases hphase
      · rw [hbroker] at hframe
        exact List.not_mem_nil hframe
    | idle _ hclient => rw [hclient] at hmem; exact (List.not_mem_nil hmem).elim
    | busy _ _ hclient => rw [hclient] at hmem; exact (List.not_mem_nil hmem).elim
    | settled _ _ _ hclient => rw [hclient] at hmem; exact (List.not_mem_nil hmem).elim

theorem Sound.stranded {s : System ι} (hs : Sound ok s) (hf : Finished ok s) :
    Stranded ok { s with broker := s.broker.reclaim, toBroker := [] } where
  accounted := accounted_reclaim hs.accounted hs.one_unacked _ _ _
  unacked := rfl
  toBroker := rfl
  once := hf.once
  held := by
    intro d hd
    obtain ⟨hunacked, hnew⟩ := hs.pending hf hd
    refine ⟨?_, hnew⟩
    show s.broker.reclaim.ready.head? = _
    rw [hs.accounted.reclaim_ready hs.one_unacked, hunacked]
    rfl

theorem Deserted.stranded {s : System ι} (h : Deserted ok s) :
    Stranded ok { s with broker := s.broker.reclaim, toBroker := [] } where
  accounted := accounted_reclaim h.accounted h.one_unacked _ _ _
  unacked := rfl
  toBroker := rfl
  once := h.once
  held d hd := by
    have hended : s.consumer.phase = .ended := h.phase
    exact (not_pending (by simp [hended]) (by simp [hended]) d hd).elim

theorem Sound.deserted {s : System ι} (hs : Sound ok s) (hf : Finished ok s)
    {e : ConsumerEvent ι} {c : Consumer ι} (hfatal : e.isFatal = true)
    (hc : Consumer.Step ok s.consumer e c) : Deserted ok { s with consumer := c } := by
  have hended := hc.ended_iff.mpr hfatal
  have hsame := hc.handled_eq hfatal
  refine ⟨⟨hs.accounted.messages, hs.accounted.positions, hs.accounted.tags⟩, hended,
    hs.one_unacked, ?_, ?_⟩
  · show Once ok c.handled
    rw [hsame]
    exact hf.once
  · show s.toBroker = [] ∨ ∃ d frame, _ ∧ _ ∧ Justified ok c.handled d frame
    rw [hsame]
    exact hs.frames

/-- Nothing is handled any more. -/
theorem Stranded.ended {s : System ι} (h : Stranded ok s) {e : ConsumerEvent ι} {c : Consumer ι}
    (hfatal : e.isFatal = true) (hc : Consumer.Step ok s.consumer e c) :
    Stranded ok { s with consumer := c } := by
  have hended := hc.ended_iff.mpr hfatal
  have hsame := hc.handled_eq hfatal
  refine ⟨⟨h.accounted.messages, h.accounted.positions, h.accounted.tags⟩, h.unacked, h.toBroker,
    ?_, ?_⟩
  · show Once ok c.handled
    rw [hsame]
    exact h.once
  · exact fun d hd => (not_pending (by simp [hended]) (by simp [hended]) d hd).elim

theorem Deserted.no_step {s : System ι} (h : Deserted ok s) {e : ConsumerEvent ι} {c : Consumer ι}
    (hc : Consumer.Step ok s.consumer e c) : False :=
  hc.not_ended h.phase

theorem Step.deserted {s s' : System ι} {event : SystemEvent ι} (hs : Step ok s event s')
    (h : Deserted ok s) : Deserted ok s' := by
  cases hs with
  | publish =>
    exact ⟨accounted_publish h.accounted _, h.phase, h.one_unacked, h.once, h.frames⟩
  | deliver hd =>
    have haccounted := accounted_deliver h.accounted hd
    obtain ⟨m, rest, -, hroom, rfl, rfl⟩ := Broker.deliver_some hd
    have hunacked : s.broker.unacked = [] := List.eq_nil_of_length_eq_zero (Nat.lt_one_iff.mp hroom)
    refine ⟨haccounted _, h.phase, ?_, h.once, .inl ?_⟩
    · simp [hunacked]
    · rcases h.frames with hnone | ⟨d, frame, -, hd, -⟩
      · exact hnone
      · rw [hunacked] at hd
        cases hd
  | receive _ hc => exact (h.no_step hc).elim
  | handled hc => exact (h.no_step hc).elim
  | delayed hc => exact (h.no_step hc).elim
  | settle _ hc => exact (h.no_step hc).elim
  | process hin hb =>
    obtain ⟨hunacked, rfl, hprocessed⟩ := h.accounted.processed_only h.frames hin hb
    cases hprocessed with
    | ack hok =>
      exact ⟨accounted_process h.accounted hunacked (.ack hok) hb [], h.phase, Nat.zero_le _,
        h.once, .inl rfl⟩
    | nack hfailed =>
      exact ⟨accounted_process h.accounted hunacked (.nack hfailed) hb [], h.phase, Nat.zero_le _,
        h.once, .inl rfl⟩

theorem Step.stranded {s s' : System ι} {event : SystemEvent ι} (hs : Step ok s event s')
    (hfree : event.needsChannel = false) (h : Stranded ok s) : Stranded ok s' := by
  obtain ⟨haccounted, hunacked, hbroker, honce, hheld⟩ := h
  have hsame : ∀ (toClient : List Delivery) (c : Consumer ι),
      ({ s with toClient := toClient, consumer := c } : System ι).Accounted :=
    fun _ _ => ⟨haccounted.messages, haccounted.positions, haccounted.tags⟩
  cases hs with
  | publish =>
    refine ⟨accounted_publish haccounted _, hunacked, hbroker, honce, fun d hd => ?_⟩
    obtain ⟨hhead, hnew⟩ := hheld d hd
    refine ⟨?_, hnew⟩
    show (s.broker.ready ++ _).head? = _
    rw [List.head?_append, hhead]
    rfl
  | @receive d rest c hin hc =>
    cases hc with
    | received hp =>
      refine ⟨hsame _ _, hunacked, hbroker, honce, fun d' hd' => ?_⟩
      rcases hd' with hphase | ⟨hphase, -⟩
      · cases hphase
        exact hheld d (.inr ⟨hp, by rw [hin]; exact List.mem_cons_self⟩)
      · cases hphase
  | @handled met c hc =>
    have hdone : ∀ d, s.consumer.phase = .handling d →
        Once ok (s.consumer.handled ++ [(d, met)]) := by
      intro d hp
      refine List.pairwise_append.mpr ⟨honce, List.pairwise_singleton _ _, ?_⟩
      rintro ⟨d', met'⟩ hmem b hb hmessage
      cases List.mem_singleton.mp hb
      by_contra hok
      exact (hheld d (.inl hp)).2 d' ⟨met', hmem, Bool.eq_true_of_not_eq_false hok⟩ hmessage
    cases hc with
    | succeeded hp =>
      refine ⟨hsame _ _, hunacked, hbroker, hdone _ hp, fun d hd => ?_⟩
      exact (not_pending (by simp) (by simp) d hd).elim
    | failed hp =>
      refine ⟨hsame _ _, hunacked, hbroker, hdone _ hp, fun d hd => ?_⟩
      exact (not_pending (by simp) (by simp) d hd).elim
  | delayed hc =>
    cases hc with
    | delayed hp =>
      refine ⟨hsame _ _, hunacked, hbroker, honce, fun d hd => ?_⟩
      exact (not_pending (by simp) (by simp) d hd).elim
  | deliver => cases hfree
  | settle => cases hfree
  | process => cases hfree

end System

/-! ## The work queue -/

namespace Lives
variable {ι : Type} {ok : Bytes → ι → Bool}

/-- The invariant, in each of the three conditions of a life. -/
inductive Standing (ok : Bytes → ι → Bool) (l : Lives ι) : Prop where
  | working (hup : l.connected = true) (hs : System.Sound ok l.system)
      (hf : System.Finished ok l.system)
  | deserted (hup : l.connected = true) (h : System.Deserted ok l.system)
  | stranded (hdown : l.connected = false) (h : System.Stranded ok l.system)

structure Inv (ok : Bytes → ι → Bool) (l : Lives ι) : Prop where
  standing : Standing ok l
  past : ∀ life ∈ l.past, System.Once ok life

theorem Standing.accounted {l : Lives ι} (h : Standing ok l) :
    l.system.Accounted ∧ l.system.broker.unacked.length ≤ 1 ∧
      System.Once ok l.system.consumer.handled := by
  cases h with
  | working _ hs hf => exact ⟨hs.accounted, hs.one_unacked, hf.once⟩
  | deserted _ h => exact ⟨h.accounted, h.one_unacked, h.once⟩
  | stranded _ h => exact ⟨h.accounted, by rw [h.unacked]; exact Nat.zero_le 1, h.once⟩

theorem Step.standing {l l' : Lives ι} {event : LivesEvent ι} (hstep : Step ok l event l')
    (h : Standing ok l) : Standing ok l' := by
  cases hstep with
  | up hup hs =>
    cases h with
    | working _ hsound hf => exact .working hup (hs.sound hsound) (hs.finished hsound hf)
    | deserted _ h => exact .deserted hup (hs.deserted h)
    | stranded hdown => exact absurd (hup.symm.trans hdown) Bool.noConfusion
  | down hdown hfree hs =>
    cases h with
    | working hup => exact absurd (hup.symm.trans hdown) Bool.noConfusion
    | deserted hup => exact absurd (hup.symm.trans hdown) Bool.noConfusion
    | stranded _ h => exact .stranded hdown (hs.stranded hfree h)
  | channelLost hup =>
    cases h with
    | working _ hs hf => exact .stranded rfl (hs.stranded hf)
    | deserted _ h => exact .stranded rfl h.stranded
    | stranded hdown => exact absurd (hup.symm.trans hdown) Bool.noConfusion
  | consumerEnded hfatal hc =>
    cases h with
    | working hup hs hf => exact .deserted hup (hs.deserted hf hfatal hc)
    | deserted _ h => exact (h.no_step hc).elim
    | stranded hdown h => exact .stranded hdown (h.ended hfatal hc)
  | restarted =>
    obtain ⟨haccounted, hone, -⟩ := h.accounted
    exact .working rfl (System.sound_resume haccounted hone) (System.finished_resume _)

theorem Step.inv {l l' : Lives ι} {event : LivesEvent ι} (hstep : Step ok l event l')
    (h : Inv ok l) : Inv ok l' := by
  refine ⟨hstep.standing h.standing, ?_⟩
  cases hstep with
  | restarted =>
    intro life hmem
    rcases List.mem_append.mp hmem with hold | hnew
    · exact h.past life hold
    · rw [List.mem_singleton.mp hnew]
      exact h.standing.accounted.2.2
  | up => exact h.past
  | down => exact h.past
  | channelLost => exact h.past
  | consumerEnded => exact h.past

theorem inv_start (contents : List Bytes) : Inv ok (start contents) where
  standing := .working rfl (System.sound_start contents)
    ⟨fun _ ⟨_, hmem, _⟩ => (List.not_mem_nil hmem).elim, List.Pairwise.nil⟩
  past := fun _ hmem => (List.not_mem_nil hmem).elim

theorem reaches_inv {contents : List Bytes} {labels : List (LivesEvent ι)} {l : Lives ι}
    (h : (machine ok contents).Reaches labels l) : Inv ok l :=
  h.invariant (P := Inv ok) (inv_start contents) fun _ _ _ hl hstep => (step_spec hstep).inv hl

/-- All handlings, of all lives. -/
def handlings (self : Lives ι) : List (Delivery × ι) :=
  self.past.flatten ++ self.system.consumer.handled

/-- The handling that ends with the event. -/
def ended (self : Lives ι) : LivesEvent ι → List (Delivery × ι)
  | .event (.handled met) =>
    match self.system.consumer.phase with
    | .handling d => [(d, met)]
    | _ => []
  | _ => []

theorem Step.handlings_eq {l l' : Lives ι} {event : LivesEvent ι} (hstep : Step ok l event l') :
    l'.handlings = l.handlings ++ l.ended event := by
  have hsystem : ∀ {e : SystemEvent ι} {s : System ι}, System.Step ok l.system e s →
      ({ l with system := s } : Lives ι).handlings = l.handlings ++ l.ended (.event e) := by
    intro e s hs
    cases hs with
    | publish => exact (List.append_nil _).symm
    | deliver => exact (List.append_nil _).symm
    | receive _ hc => cases hc; exact (List.append_nil _).symm
    | handled hc =>
      cases hc with
      | succeeded hp => simp [Lives.handlings, ended, hp]
      | failed hp => simp [Lives.handlings, ended, hp]
    | delayed hc => cases hc; exact (List.append_nil _).symm
    | settle _ hc => cases hc; exact (List.append_nil _).symm
    | process => exact (List.append_nil _).symm
  cases hstep with
  | up _ hs => exact hsystem hs
  | down _ _ hs => exact hsystem hs
  | channelLost => exact (List.append_nil _).symm
  | consumerEnded hfatal hc =>
    simp only [Lives.handlings, ended, hc.handled_eq hfatal, List.append_nil]
  | restarted => simp [Lives.handlings, ended, restart, Consumer.start]

/-- What is seen from outside. -/
def view (self : Lives ι) : WorkQueue.State Bytes ι where
  published := self.system.broker.published.map Message.data
  done := self.system.broker.acked.length
  tried := self.handlings.map fun h => (h.1.message.position, h.2)

theorem view_start (contents : List Bytes) :
    (start contents : Lives ι).view = WorkQueue.State.start contents := by
  unfold view
  congr
  exact List.ext_getElem (by simp [start, System.start]) fun i _ _ => by simp [start, System.start]

/-- What an event is to the work queue: a message comes in, a try of the first message that
is not done, or the end of that message. -/
def actions (self : Lives ι) : LivesEvent ι → List (WorkQueue.Action Bytes ι)
  | .event (.publish data) => [.publish data]
  | .event (.handled met) =>
    match self.system.consumer.phase with
    | .handling _ => [.attempt met]
    | _ => []
  | .event .process =>
    match self.system.toBroker with
    | (_, .basicAck _ _) :: _ => [.advance]
    | _ => []
  | _ => []

/-- What a run is to the work queue. -/
def work (ok : Bytes → ι → Bool) (contents : List Bytes) (labels : List (LivesEvent ι)) :
    List (WorkQueue.Action Bytes ι) :=
  (machine ok contents).matching actions (start contents) labels

theorem Standing.processed {l : Lives ι} (h : Standing ok l) {d : Delivery} {frame : Frame}
    {rest : List (Delivery × Frame)} {b : Broker} (hin : l.system.toBroker = (d, frame) :: rest)
    (hb : l.system.broker.process frame = some b) :
    l.system.broker.unacked = [d] ∧ rest = [] ∧ System.Processed ok l.system d frame b := by
  cases h with
  | working _ hs => exact hs.accounted.processed_only hs.frames hin hb
  | deserted _ h => exact h.accounted.processed_only h.frames hin hb
  | stranded _ h => exact h.accounted.processed_only (.inl h.toBroker) hin hb

theorem step_event {l : Lives ι} {e : SystemEvent ι} {s : System ι} (hup : l.connected = true)
    (hs : l.system.step ok e = some s) : l.step ok (.event e) = some { l with system := s } := by
  simp only [step, hup, Bool.not_true, Bool.and_false, Bool.false_eq_true, if_false, hs,
    Option.map_some]

/-- What the consumer and its queue can do by themselves, they can do in this life. -/
theorem runFrom_system {l : Lives ι} (contents : List Bytes) {labels : List (SystemEvent ι)}
    {s : System ι} (hup : l.connected = true)
    (hrun : (System.machine ok contents).runFrom l.system labels = some s) :
    (machine ok contents).runFrom l (labels.map .event) = some { l with system := s } := by
  induction labels generalizing l with
  | nil =>
    obtain rfl := Option.some.inj hrun
    rfl
  | cons e labels ih =>
    rw [Transition.Machine.runFrom] at hrun
    obtain ⟨s₁, hone, hrun⟩ := Option.bind_eq_some_iff.mp hrun
    rw [List.map_cons, Transition.Machine.runFrom_cons _ (step_event hup hone)]
    exact ih (l := { l with system := s₁ }) hup hrun

/-- A message is handled well after its channel was lost, and again after the restart. -/
def twiceLabels (met : ι) : List (LivesEvent ι) :=
  [.event .deliver, .event .receive, .channelLost, .event (.handled met), .restarted,
    .event .deliver, .event .receive, .event (.handled met), .event .settle, .event .process]

def twice (data : Bytes) (met : ι) : Lives ι where
  system := ⟨⟨[], [], 1, [⟨0, data⟩], [⟨0, data⟩], [1]⟩, [], [],
    ⟨.waiting, [⟨1, ⟨0, data⟩⟩], [(⟨1, ⟨0, data⟩⟩, met)], [(⟨1, ⟨0, data⟩⟩, .basicAck 1 false)]⟩⟩
  connected := true
  past := [[(⟨1, ⟨0, data⟩⟩, met)]]

theorem reaches_twice {data : Bytes} {met : ι} (hok : ok data met = true) :
    (machine ok [data]).Reaches (twiceLabels met) (twice data met) := by
  let again : Lives ι :=
    ⟨⟨⟨[⟨0, data⟩], [], 0, [⟨0, data⟩], [], []⟩, [], [], .start⟩, true, [[(⟨1, ⟨0, data⟩⟩, met)]]⟩
  have hfirst : (machine ok [data]).Reaches
      [.event .deliver, .event .receive, .channelLost, .event (.handled met), .restarted] again := rfl
  have hidle : again.system.Idle := ⟨rfl, rfl, rfl, rfl⟩
  have hsecond := runFrom_system (l := again) [data] rfl (System.runFrom_taken [data] hidle rfl hok)
  exact Transition.Machine.runFrom_trans _ hfirst hsecond

/-- A message is handled well and acknowledged. -/
def ackedLabels (met : ι) : List (LivesEvent ι) := (System.takenLabels met).map .event

def acked (data : Bytes) (met : ι) : Lives ι := ⟨(System.start [data]).taken ⟨0, data⟩ [] met, true, []⟩

theorem reaches_acked {data : Bytes} {met : ι} (hok : ok data met = true) :
    (machine ok [data]).Reaches (ackedLabels met) (acked data met) :=
  runFrom_system [data] rfl (System.runFrom_taken [data] ⟨rfl, rfl, rfl, rfl⟩ rfl hok)

end Lives

end PaymentsNotifications.Server
