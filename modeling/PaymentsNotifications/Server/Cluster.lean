import Mathlib.Algebra.Order.BigOperators.Group.Finset
import PaymentsNotifications.Server.Instances

/-! What becomes of a queue that several instances share, over any interleaving of their
deliveries, losses and restarts. A message is in one place: acknowledged, outstanding at
one instance, or waiting. It is handled well at most once more than the broker had to
take it back from a channel that was lost. -/

namespace PaymentsNotifications.Server
open Utils

abbrev Cluster (κ ι : Type) := Parties.State κ Backlog (Instance ι)

abbrev ClusterEvent (κ ι : Type) := Parties.Event κ (LivesEvent ι) Bytes

/-- The instances, and those who publish. -/
def instances {ι : Type} (ok : Bytes → ι → Bool) :
    Parties.Behaviour Backlog (Instance ι) (LivesEvent ι) Bytes where
  step := Instance.step ok
  outside b data := some (b.publish data)

def ClusterEvent.published? {κ ι : Type} : ClusterEvent κ ι → Option Bytes
  | .outside data => some data
  | _ => none

/-- A channel is gone, by itself or with its process. -/
def ClusterEvent.isLoss {κ ι : Type} : ClusterEvent κ ι → Bool
  | .party _ .channelLost => true
  | .party _ .restarted => true
  | _ => false

/-! ## What an instance has, had and may still do -/

namespace Instance
variable {ι : Type} {ok : Bytes → ι → Bool} {b b' : Backlog} {c c' : Instance ι}
  {event : LivesEvent ι}

def holds (m : Message) (self : Instance ι) : Nat := (self.unacked.map Delivery.message).count m

/-- How often the instance handled the message well. -/
def successes (ok : Bytes → ι → Bool) (m : Message) (self : Instance ι) : Nat :=
  self.handlings.countP fun h => h.1.message = m && ok h.1.message.data h.2

/-- What the loop is about to handle. -/
def pending (self : Instance ι) : List Delivery :=
  match self.consumer.phase with
  | .handling d => [d]
  | .waiting => self.toClient
  | _ => []

def awaits (m : Message) (self : Instance ι) : Nat := (self.pending.map Delivery.message).count m

def givesBack : Frame → Bool
  | .basicAck _ _ => false
  | .basicNack _ _ _ => true

/-- A handling failed, and the broker has not heard of it. -/
def failing (self : Instance ι) : Bool :=
  (match self.consumer.phase with
    | .delaying _ => true
    | .settling _ frame => givesBack frame
    | _ => false) || self.toBroker.any fun sent => givesBack sent.2

/-- What it holds and has not failed on. -/
def secures (m : Message) (self : Instance ι) : Nat := if self.failing then 0 else self.holds m

theorem secures_le (c : Instance ι) (m : Message) : c.secures m ≤ c.holds m := by
  unfold secures
  by_cases h : c.failing = true
  · rw [if_pos h]
    exact Nat.zero_le _
  · rw [if_neg h]

theorem Standing.works (h : Standing ok c) {d : Delivery} (hp : c.consumer.phase.delivery? = some d) :
    c.toBroker = [] ∧ (c.unacked = [d] ∧ c.toClient = [] ∨ c.unacked = [] ∧ c.connected = false) := by
  cases h with
  | working _ hshape =>
    obtain ⟨hunacked, hclient, hbroker, -, -⟩ := (hshape ⟨[], [], [], []⟩).works hp
    exact ⟨hbroker, .inl ⟨hunacked, hclient⟩⟩
  | deserted hended =>
    rw [hended] at hp
    cases hp
  | down hdown hunacked hframes => exact ⟨hframes, .inr ⟨hunacked, hdown⟩⟩

/-- An instance that is free has failed on nothing. -/
theorem Standing.not_failing (h : Standing ok c) (hfree : c.unacked = []) (hup : c.connected = true) :
    c.failing = false := by
  cases h with
  | working _ hshape =>
    have hfree' : (c.on ⟨[], [], [], []⟩).system.broker.unacked = [] := hfree
    cases hshape ⟨[], [], [], []⟩ with
    | idle _ _ hbroker hphase =>
      have hbroker' : c.toBroker = [] := hbroker
      have hphase' : c.consumer.phase = .waiting := hphase
      simp [failing, hphase', hbroker']
    | inFlight d hunacked => rw [hunacked] at hfree'; cases hfree'
    | busy d hunacked => rw [hunacked] at hfree'; cases hfree'
    | settled d frame hunacked => rw [hunacked] at hfree'; cases hfree'
  | deserted hended _ hframed =>
    rcases hframed with hnone | ⟨d, frame, -, hd, -⟩
    · simp [failing, hended, hnone]
    · rw [hfree] at hd
      cases hd
  | down hdown => rw [hdown] at hup; cases hup

theorem handlings_ended (c : Instance ι) (d : Delivery) (met : ι) (phase : Phase) :
    (c.ended d met phase).handlings = c.handlings ++ [(d, met)] :=
  (List.append_assoc ..).symm

theorem handlings_restart (c : Instance ι) : c.restart.handlings = c.handlings := by
  simp [handlings, restart, Consumer.start]

/-- No step forgets a handling. -/
theorem Step.handlings (hstep : Step ok b c event b' c') :
    ∃ more, c'.handlings = c.handlings ++ more := by
  cases hstep with
  | succeeded => exact ⟨_, handlings_ended ..⟩
  | failed => exact ⟨_, handlings_ended ..⟩
  | restarted => exact ⟨[], by rw [handlings_restart, List.append_nil]⟩
  | _ => exact ⟨[], (List.append_nil _).symm⟩

theorem successes_ended (m : Message) (c : Instance ι) (d : Delivery) (met : ι) (phase : Phase) :
    (c.ended d met phase).successes ok m =
      c.successes ok m + if d.message = m && ok d.message.data met then 1 else 0 := by
  unfold successes
  rw [handlings_ended, List.countP_append, List.countP_singleton]

theorem successes_restart (m : Message) (c : Instance ι) :
    c.restart.successes ok m = c.successes ok m := by
  unfold successes
  rw [handlings_restart]

/-- What is put back waits again, and that is all that changes. -/
theorem count_putBack (ms ready : List Message) (m : Message) :
    (ms.foldr Broker.requeue ready).count m = ms.count m + ready.count m := by
  induction ms with
  | nil => simp
  | cons m' ms ih =>
    rw [List.foldr_cons, Broker.requeue, List.orderedInsert_count, ih, List.count_cons]
    simp only [beq_iff_eq]
    omega

/-- A message stays where it is, or moves. -/
theorem Step.placed (hstep : Step ok b c event b' c') (m : Message) :
    b'.acked.count m + b'.ready.count m + c'.holds m =
        b.acked.count m + b.ready.count m + c.holds m ∧
      b'.published = b.published := by
  refine ⟨?_, by cases hstep <;> rfl⟩
  cases hstep with
  | deliver hready hfree =>
    simp only [holds, took, hready, hfree, List.map_nil, List.map_cons, List.count_cons, List.count_nil]
    omega
  | acked hin hd =>
    simp only [holds, freed, hd, List.map_nil, List.map_cons, List.count_append, List.count_nil]
    omega
  | nacked hin hd =>
    simp only [holds, freed, hd, List.map_nil, List.map_cons, Broker.requeue,
      List.orderedInsert_count, List.count_cons, List.count_nil, beq_iff_eq]
    omega
  | channelLost =>
    simp only [holds, cutOff, Backlog.putBack, count_putBack, List.map_nil, List.count_nil]
    omega
  | restarted =>
    simp only [holds, restart, Backlog.putBack, count_putBack, List.map_nil, List.count_nil]
    omega
  | _ => rfl

theorem awaits_took (m m' : Message) (c : Instance ι) :
    (c.took m').awaits m ≤ c.awaits m + [m'].count m := by
  unfold awaits pending took
  cases hp : c.consumer.phase with
  | waiting => simp [List.count_append]
  | _ => exact Nat.le_add_right _ _

theorem awaits_handling {d : Delivery} (hp : c.consumer.phase = .handling d) (m : Message) :
    c.awaits m = [d.message].count m := by
  simp [awaits, pending, hp]

/-- A loop that neither waits nor handles is not about to handle anything. -/
theorem awaits_none (hwaiting : c.consumer.phase ≠ .waiting)
    (hhandling : ∀ d, c.consumer.phase ≠ .handling d) (m : Message) : c.awaits m = 0 := by
  unfold awaits pending
  cases hp : c.consumer.phase with
  | waiting => exact (hwaiting hp).elim
  | handling d => exact (hhandling d hp).elim
  | _ => rfl

theorem secures_failing (h : c.failing = true) (m : Message) : c.secures m = 0 := if_pos h

/-- The same deliveries, and no more failures. -/
theorem secures_mono (hunacked : c'.unacked = c.unacked) (h : c'.failing = true → c.failing = true)
    (m : Message) : c.secures m ≤ c'.secures m := by
  have hholds : c'.holds m = c.holds m := by unfold holds; rw [hunacked]
  unfold secures
  by_cases hfailing : c'.failing = true
  · rw [if_pos hfailing, if_pos (h hfailing)]
  · rw [if_neg hfailing, hholds]
    split
    · exact Nat.zero_le _
    · exact Nat.le_refl _

/-- A handling that ends well, and one that is still to come, is paid for: the message
is secured, acknowledged or was taken back. -/
theorem Step.paid (hstep : Step ok b c event b' c') (h : Standing ok c) (m : Message) :
    c'.successes ok m + c'.awaits m + (b.acked.count m + b.reclaimed.count m + c.secures m) ≤
      c.successes ok m + c.awaits m + (b'.acked.count m + b'.reclaimed.count m + c'.secures m) := by
  have hle := c.secures_le m
  cases hstep with
  | @deliver m' rest hready hfree hup =>
    have hfailing : (c.took m').failing = false := h.not_failing hfree hup
    have hsecures : c.secures m ≤ 0 := by
      rwa [holds, hfree] at hle
    have hsecures' : (c.took m').secures m = [m'].count m := by
      rw [secures, hfailing]
      rfl
    have hsuccesses : (c.took m').successes ok m = c.successes ok m := rfl
    have hawaits := awaits_took m m' c
    dsimp only
    omega
  | @receive d rest hin hp =>
    have hawaits : (c.begun d rest).awaits m ≤ c.awaits m := by
      simp only [awaits, pending, begun, hp, hin, List.map_cons, List.map_nil, List.count_cons,
        List.count_nil]
      omega
    have hsecures : c.secures m ≤ (c.begun d rest).secures m := by
      refine secures_mono ?_ ?_ m
      · rfl
      · simp [failing, begun, hp]
    have hsuccesses : (c.begun d rest).successes ok m = c.successes ok m := rfl
    omega
  | @succeeded d met hp hok =>
    have hbefore := awaits_handling hp m
    have hawaits := awaits_none (c := c.ended d met (.settling d (.basicAck d.deliveryTag false)))
      Phase.noConfusion (fun _ => Phase.noConfusion) m
    have hsecures : c.secures m ≤
        (c.ended d met (.settling d (.basicAck d.deliveryTag false))).secures m := by
      refine secures_mono ?_ ?_ m
      · rfl
      · simp [failing, ended, givesBack, hp]
    rw [successes_ended, hok, hawaits, hbefore]
    by_cases hm : d.message = m
    · simp only [hm, List.count_cons, List.count_nil]
      simp
      omega
    · simp [hm]
      omega
  | @failed d met hp hok =>
    have hbefore := awaits_handling hp m
    have hawaits := awaits_none (c := c.ended d met (.delaying d))
      Phase.noConfusion (fun _ => Phase.noConfusion) m
    have hheld : c.holds m ≤ [d.message].count m := by
      obtain ⟨-, hworks⟩ := h.works (d := d) (by rw [hp]; rfl)
      rcases hworks with ⟨hunacked, -⟩ | ⟨hunacked, -⟩
      · rw [holds, hunacked]
        exact Nat.le_refl _
      · rw [holds, hunacked]
        exact Nat.zero_le _
    rw [successes_ended, hok, hawaits, hbefore, Bool.and_false, if_neg Bool.false_ne_true]
    omega
  | @delayed d hp =>
    have hsecures : c.secures m = 0 := secures_failing (by simp [failing, hp]) m
    have hawaits := awaits_none (c := c.turned (.settling d (.basicNack 0 true true)))
      Phase.noConfusion (fun _ => Phase.noConfusion) m
    have hsuccesses : (c.turned (.settling d (.basicNack 0 true true))).successes ok m =
      c.successes ok m := rfl
    omega
  | @settle d frame hp hup =>
    obtain ⟨hbroker, hworks⟩ := h.works (d := d) (by rw [hp]; rfl)
    have hclient : c.toClient = [] := by
      rcases hworks with ⟨-, hclient⟩ | ⟨-, hdown⟩
      · exact hclient
      · rw [hdown] at hup
        cases hup
    have hawaits : (c.answered d frame).awaits m = 0 := by
      simp [awaits, pending, answered, hclient]
    have hsecures : c.secures m ≤ (c.answered d frame).secures m := by
      refine secures_mono ?_ ?_ m
      · rfl
      · simp [failing, answered, hp, hbroker]
    have hsuccesses : (c.answered d frame).successes ok m = c.successes ok m := rfl
    omega
  | @acked d hin hd =>
    have hawaits : (c.freed d).awaits m = c.awaits m := rfl
    have hsuccesses : (c.freed d).successes ok m = c.successes ok m := rfl
    have hheld : c.holds m = [d.message].count m := by rw [holds, hd]; rfl
    simp only [List.count_append]
    omega
  | @nacked d hin hd =>
    have hawaits : (c.freed d).awaits m = c.awaits m := rfl
    have hsuccesses : (c.freed d).successes ok m = c.successes ok m := rfl
    have hsecures : c.secures m = 0 :=
      secures_failing (by simp [failing, hin, givesBack]) m
    dsimp only
    omega
  | channelLost =>
    have hawaits : c.cutOff.awaits m = c.awaits m := rfl
    have hsuccesses : c.cutOff.successes ok m = c.successes ok m := rfl
    unfold holds at hle
    simp only [Backlog.putBack, List.count_append]
    omega
  | consumerEnded =>
    have hawaits := awaits_none (c := c.turned .ended)
      Phase.noConfusion (fun _ => Phase.noConfusion) m
    have hsuccesses : (c.turned .ended).successes ok m = c.successes ok m := rfl
    have hsecures : c.secures m ≤ (c.turned .ended).secures m := by
      refine secures_mono ?_ ?_ m
      · rfl
      · simp +contextual [failing, turned]
    omega
  | restarted =>
    have hawaits : c.restart.awaits m = 0 := rfl
    rw [successes_restart]
    unfold holds at hle
    simp only [Backlog.putBack, List.count_append]
    omega

/-! ## The queue after a step -/

theorem sorted_requeue {ready : List Message} (m : Message)
    (h : ready.Pairwise fun m m' => m.position ≤ m'.position) :
    (Broker.requeue m ready).Pairwise fun m m' => m.position ≤ m'.position := by
  have htotal : Std.Total fun m m' : Message => m.position ≤ m'.position :=
    ⟨fun m m' => Nat.le_total m.position m'.position⟩
  have htrans : IsTrans Message fun m m' => m.position ≤ m'.position :=
    ⟨fun _ _ _ => Nat.le_trans⟩
  exact h.orderedInsert m ready

theorem sorted_putBack {ready : List Message} (ms : List Message)
    (h : ready.Pairwise fun m m' => m.position ≤ m'.position) :
    (ms.foldr Broker.requeue ready).Pairwise fun m m' => m.position ≤ m'.position := by
  induction ms with
  | nil => exact h
  | cons m ms ih => exact sorted_requeue m ih

/-- What waits stays in the order of publication. -/
theorem Step.sorted (hstep : Step ok b c event b' c')
    (h : b.ready.Pairwise fun m m' => m.position ≤ m'.position) :
    b'.ready.Pairwise fun m m' => m.position ≤ m'.position := by
  cases hstep with
  | deliver hready =>
    rw [hready] at h
    exact h.of_cons
  | nacked => exact sorted_requeue _ h
  | channelLost => exact sorted_putBack _ h
  | restarted => exact sorted_putBack _ h
  | _ => exact h

/-- The instance has handled the message well. -/
def Did (ok : Bytes → ι → Bool) (m : Message) (c : Instance ι) : Prop :=
  ∃ d met, (d, met) ∈ c.handlings ∧ d.message = m ∧ ok m.data met = true

theorem Step.did (hstep : Step ok b c event b' c') {m : Message} (h : c.Did ok m) : c'.Did ok m := by
  obtain ⟨more, hmore⟩ := hstep.handlings
  obtain ⟨d, met, hmem, hm⟩ := h
  refine ⟨d, met, ?_, hm⟩
  rw [hmore]
  exact List.mem_append_left _ hmem

theorem Step.acknowledges (hstep : Step ok b c event b' c') {m : Message} (hm : m ∈ b'.acked) :
    m ∈ b.acked ∨ c'.Did ok m := by
  cases hstep with
  | acked hin hd hhandled =>
    rcases List.mem_append.mp hm with hold | hnew
    · exact .inl hold
    · obtain ⟨met, hmem, hok⟩ := hhandled
      obtain rfl := List.mem_singleton.mp hnew
      exact .inr ⟨_, met, List.mem_append_right _ hmem, rfl, hok⟩
  | _ => exact .inl hm

/-- The broker takes back at most one message, and only from a channel that is gone. -/
theorem Step.takesBack {κ : Type} (hstep : Step ok b c event b' c') (h : Standing ok c) (i : κ) :
    b'.reclaimed.length ≤
      b.reclaimed.length + [(.party i event : ClusterEvent κ ι)].countP ClusterEvent.isLoss := by
  have hone := h.one_unacked
  cases hstep with
  | channelLost =>
    simp only [Backlog.putBack, List.length_append, List.length_map, List.countP_singleton,
      ClusterEvent.isLoss, if_true]
    omega
  | restarted =>
    simp only [Backlog.putBack, List.length_append, List.length_map, List.countP_singleton,
      ClusterEvent.isLoss, if_true]
    omega
  | _ => exact Nat.le_add_right _ _

end Instance

namespace Cluster
variable {κ ι : Type} [DecidableEq κ] {ok : Bytes → ι → Bool} {contents : List Bytes}
  {events : List (ClusterEvent κ ι)} {s : Cluster κ ι}

/-- A queue with these contents, and no instance started. -/
def start (contents : List Bytes) : Cluster κ ι :=
  let messages := contents.mapIdx Message.mk
  ⟨⟨messages, messages, [], []⟩, fun _ => .absent⟩

def machine (ok : Bytes → ι → Bool) (contents : List Bytes) :
    Transition.Machine (Cluster κ ι) (ClusterEvent κ ι) :=
  Parties.machine (instances ok) (start contents)

theorem keeps_standing (b : Backlog) (c : Instance ι) (event : LivesEvent ι) (b' : Backlog)
    (c' : Instance ι) (hs : (instances ok).step b c event = some (b', c'))
    (h : c.Standing ok) : c'.Standing ok :=
  (Instance.step_spec h hs).standing h

theorem reaches_standing (h : (machine ok contents).Reaches events s) :
    ∀ i, (s.parties i).Standing ok :=
  Parties.reaches_each (fun _ => Instance.standing_absent) keeps_standing h

/-! ## The accounts -/

section Accounts
variable [Fintype κ]

/-- No message comes to be in two places. -/
def placedAccount (ok : Bytes → ι → Bool) (m : Message) :
    Parties.Account (instances ok) (Instance.Standing ok) where
  spent := Instance.holds m
  spentShared b := b.acked.count m + b.ready.count m
  paid _ := 0
  paidShared b := b.published.count m
  step b c event b' c' h hs := by
    obtain ⟨hplaced, hsame⟩ := (Instance.step_spec h hs).placed m
    rw [hsame]
    omega
  outside b data b' hs := by
    obtain rfl := Option.some.inj hs
    simp only [Backlog.publish, List.count_append]
    omega

/-- No message is lost. -/
def keptAccount (ok : Bytes → ι → Bool) (m : Message) :
    Parties.Account (instances ok) (Instance.Standing ok) where
  spent _ := 0
  spentShared b := b.published.count m
  paid := Instance.holds m
  paidShared b := b.acked.count m + b.ready.count m
  step b c event b' c' h hs := by
    obtain ⟨hplaced, hsame⟩ := (Instance.step_spec h hs).placed m
    rw [hsame]
    omega
  outside b data b' hs := by
    obtain rfl := Option.some.inj hs
    simp only [Backlog.publish, List.count_append]
    omega

/-- No handling ends well without being paid for. -/
def successAccount (ok : Bytes → ι → Bool) (m : Message) :
    Parties.Account (instances ok) (Instance.Standing ok) where
  spent c := c.successes ok m + c.awaits m
  spentShared _ := 0
  paid := Instance.secures m
  paidShared b := b.acked.count m + b.reclaimed.count m
  step b c event b' c' h hs := by
    have hpaid := (Instance.step_spec h hs).paid h m
    omega
  outside b data b' hs := by
    obtain rfl := Option.some.inj hs
    simp only [Backlog.publish]
    omega

theorem count_placed (h : (machine ok contents).Reaches events s) (m : Message) :
    s.shared.acked.count m + s.shared.ready.count m + ∑ i, (s.parties i).holds m =
      s.shared.published.count m := by
  have hplaced := (placedAccount ok m).reaches_covered (fun _ => Instance.standing_absent)
    keeps_standing (by simp [Parties.Account.Covered, Parties.total, placedAccount, start,
      Instance.holds, Instance.absent]) h
  have hkept := (keptAccount ok m).reaches_covered (fun _ => Instance.standing_absent)
    keeps_standing (by simp [Parties.Account.Covered, Parties.total, keptAccount, start]) h
  simp only [Parties.Account.Covered, Parties.total, placedAccount, keptAccount,
    Finset.sum_const_zero] at hplaced hkept
  omega

theorem successes_covered (h : (machine ok contents).Reaches events s) (m : Message) :
    ∑ i, (s.parties i).successes ok m ≤
      s.shared.acked.count m + s.shared.reclaimed.count m + ∑ i, (s.parties i).holds m := by
  have hcovered := (successAccount ok m).reaches_covered (fun _ => Instance.standing_absent)
    keeps_standing (by simp [Parties.Account.Covered, Parties.total, successAccount, start,
      Instance.successes, Instance.handlings, Instance.awaits, Instance.pending, Instance.absent]) h
  have hsecures : ∑ i, (s.parties i).secures m ≤ ∑ i, (s.parties i).holds m :=
    Finset.sum_le_sum fun i _ => (s.parties i).secures_le m
  simp only [Parties.Account.Covered, Parties.total, successAccount, Finset.sum_add_distrib]
    at hcovered
  omega

end Accounts

/-! ## What follows for every reachable state -/

/-- The history of the queue. -/
structure Recorded (ok : Bytes → ι → Bool) (contents : List Bytes)
    (events : List (ClusterEvent κ ι)) (s : Cluster κ ι) : Prop where
  published : s.shared.published.map Message.data =
    contents ++ events.filterMap ClusterEvent.published?
  positions : s.shared.published.map Message.position = List.range s.shared.published.length
  acked : ∀ m ∈ s.shared.acked, ∃ i, (s.parties i).Did ok m
  losses : s.shared.reclaimed.length ≤ events.countP ClusterEvent.isLoss

omit [DecidableEq κ] in
theorem recorded_start : Recorded ok contents [] (start contents : Cluster κ ι) where
  published := by
    rw [List.filterMap_nil, List.append_nil]
    exact congrArg WorkQueue.State.published (Lives.view_start (ι := ι) contents)
  positions := List.ext_getElem (by simp [start]) fun i _ _ => by simp [start]
  acked _ hm := (List.not_mem_nil hm).elim
  losses := Nat.le_refl 0

theorem Recorded.step (h : Recorded ok contents events s)
    (hstanding : ∀ i, (s.parties i).Standing ok) {event : ClusterEvent κ ι} {s' : Cluster κ ι}
    (hstep : Parties.Step (instances ok) s event s') : Recorded ok contents (events ++ [event]) s' := by
  cases hstep with
  | @party i e b c hs =>
    have hspec := Instance.step_spec (hstanding i) hs
    have hsame := (hspec.placed ⟨0, []⟩).2
    refine ⟨?_, ?_, fun m hm => ?_, ?_⟩
    · rw [hsame, h.published, List.filterMap_append]
      exact (congrArg _ (List.append_nil _)).symm
    · rw [hsame]
      exact h.positions
    · rcases hspec.acknowledges hm with hold | hnew
      · obtain ⟨j, hj⟩ := h.acked m hold
        refine ⟨j, ?_⟩
        by_cases hji : j = i
        · subst hji
          simp only [Function.update_self]
          exact hspec.did hj
        · simp only [Function.update_of_ne hji]
          exact hj
      · exact ⟨i, by simpa only [Function.update_self] using hnew⟩
    · rw [List.countP_append]
      exact (hspec.takesBack (hstanding i) i).trans (Nat.add_le_add_right h.losses _)
  | @outside data b hs =>
    obtain rfl := Option.some.inj hs
    refine ⟨?_, ?_, h.acked, ?_⟩
    · simp only [Backlog.publish, List.map_append, h.published, List.filterMap_append,
        List.append_assoc]
      rfl
    · simp only [Backlog.publish, List.map_append, List.length_append, List.length_singleton,
        List.range_succ, h.positions, List.map_singleton]
    · rw [List.countP_append]
      exact Nat.le_add_right_of_le h.losses

theorem reaches_recorded (h : (machine ok contents).Reaches events s) :
    Recorded ok contents events s := by
  have hboth := h.history (P := fun events s => (∀ i, (s.parties i).Standing ok) ∧
      Recorded ok contents events s) ⟨fun _ => Instance.standing_absent, recorded_start⟩
    fun events s event s' ⟨hstanding, hrec⟩ hs =>
      ⟨(Parties.step_spec hs).each keeps_standing hstanding,
        hrec.step hstanding (Parties.step_spec hs)⟩
  exact hboth.2

omit [DecidableEq κ] in
theorem Recorded.nodup (h : Recorded ok contents events s) : s.shared.published.Nodup := by
  refine List.Nodup.of_map Message.position ?_
  rw [h.positions]
  exact List.nodup_range

theorem count_published (h : (machine ok contents).Reaches events s) (m : Message) :
    s.shared.published.count m ≤ 1 :=
  List.nodup_iff_count_le_one.mp (reaches_recorded h).nodup m

/-- A loop with a channel holds what it is at work on. -/
theorem holds_of_works (h : (machine ok contents).Reaches events s) {i : κ} {d : Delivery}
    (hup : (s.parties i).connected = true) (hd : (s.parties i).consumer.phase.delivery? = some d) :
    1 ≤ (s.parties i).holds d.message := by
  rcases ((reaches_standing h i).works hd).2 with ⟨hunacked, -⟩ | ⟨-, hdown⟩
  · simp [Instance.holds, hunacked]
  · rw [hup] at hdown
    cases hdown

section Conservation
variable [Fintype κ]

theorem ready_published (h : (machine ok contents).Reaches events s) {m : Message}
    (hm : m ∈ s.shared.ready) : m ∈ s.shared.published := by
  have hcount := count_placed h m
  have hpos := List.count_pos_iff.mpr hm
  exact List.count_pos_iff.mp (by omega)

/-- A message that is published comes after all that wait. -/
theorem reaches_sorted (h : (machine ok contents).Reaches events s) :
    s.shared.ready.Pairwise fun m m' => m.position ≤ m'.position := by
  have hstart : (start contents : Cluster κ ι).shared.ready.Pairwise
      fun m m' => m.position ≤ m'.position := by
    have hsorted : ((start contents : Cluster κ ι).shared.published.map Message.position).Pairwise
        (· < ·) := by
      rw [(recorded_start : Recorded ok contents [] (start contents : Cluster κ ι)).positions]
      exact List.pairwise_lt_range
    exact (List.pairwise_map.mp hsorted).imp Nat.le_of_lt
  have hnil : (machine ok contents).Reaches [] (start contents : Cluster κ ι) := rfl
  have hboth := h.history (P := fun events s => (machine ok contents).Reaches events s ∧
      s.shared.ready.Pairwise fun m m' => m.position ≤ m'.position) ⟨hnil, hstart⟩ (by
    rintro events s event s' ⟨hreaches, hsorted⟩ hs
    refine ⟨hreaches.snoc hs, ?_⟩
    cases Parties.step_spec hs with
    | party hparty => exact (Instance.step_spec (reaches_standing hreaches _) hparty).sorted hsorted
    | outside hothers =>
      obtain rfl := Option.some.inj hothers
      refine List.pairwise_append.mpr ⟨hsorted, List.pairwise_singleton _ _, fun m hm m' hm' => ?_⟩
      obtain rfl := List.mem_singleton.mp hm'
      have hposition : m.position ∈ s.shared.published.map Message.position :=
        List.mem_map_of_mem (ready_published hreaches hm)
      rw [(reaches_recorded hreaches).positions] at hposition
      exact Nat.le_of_lt (List.mem_range.mp hposition))
  exact hboth.2

/-- Handled well once, and once more for each time it was taken back. -/
theorem successes_le (h : (machine ok contents).Reaches events s) (m : Message) :
    ∑ i, (s.parties i).successes ok m ≤ s.shared.reclaimed.count m + 1 := by
  have hcovered := successes_covered h m
  have hcount := count_placed h m
  have hone := count_published h m
  omega

/-- What waits, waits in the order of publication. -/
theorem ready_in_order (h : (machine ok contents).Reaches events s) :
    s.shared.ready.Pairwise fun m m' => m.position < m'.position := by
  have hnodup : s.shared.ready.Nodup := List.nodup_iff_count_le_one.mpr fun m => by
    have hcount := count_placed h m
    have hone := count_published h m
    omega
  have hpositions : (s.shared.published.map Message.position).Nodup := by
    rw [(reaches_recorded h).positions]
    exact List.nodup_range
  refine List.Pairwise.imp_of_mem ?_ ((reaches_sorted h).and hnodup)
  rintro m m' hm hm' ⟨hle, hne⟩
  refine Nat.lt_of_le_of_ne hle fun heq => hne ?_
  exact List.inj_on_of_nodup_map hpositions (ready_published h hm) (ready_published h hm') heq

theorem works_alone (h : (machine ok contents).Reaches events s) {i j : κ} {m : Message}
    (hi : 1 ≤ (s.parties i).holds m) (hj : 1 ≤ (s.parties j).holds m) : i = j := by
  by_contra hij
  have hcount := count_placed h m
  have hone := count_published h m
  have hsplit := Finset.add_sum_erase Finset.univ (fun k => (s.parties k).holds m)
    (Finset.mem_univ i)
  have hother := Finset.single_le_sum (f := fun k => (s.parties k).holds m)
    (fun _ _ => Nat.zero_le _) (Finset.mem_erase.mpr ⟨fun hji => hij hji.symm, Finset.mem_univ j⟩)
  omega

/-- What a run has done to the messages. -/
structure Conserved (ok : Bytes → ι → Bool) (contents : List Bytes)
    (events : List (ClusterEvent κ ι)) (s : Cluster κ ι) : Prop where
  published : s.shared.published.map Message.data =
    contents ++ events.filterMap ClusterEvent.published?
  /-- Acknowledged, waiting, or at one instance. -/
  placed : ∀ m, s.shared.acked.count m + s.shared.ready.count m + ∑ i, (s.parties i).holds m =
    if m ∈ s.shared.published then 1 else 0
  in_order : s.shared.ready.Pairwise fun m m' => m.position < m'.position
  /-- Two loops with a channel are not at work on one message. -/
  exclusive : ∀ i j d d', (s.parties i).connected = true → (s.parties j).connected = true →
    (s.parties i).consumer.phase.delivery? = some d →
    (s.parties j).consumer.phase.delivery? = some d' → d.message = d'.message → i = j
  handled : ∀ m ∈ s.shared.acked, ∃ i, (s.parties i).Did ok m
  /-- Once, and once more for each time it was taken back from a channel that is gone. -/
  successes : ∀ m, ∑ i, (s.parties i).successes ok m ≤ s.shared.reclaimed.count m + 1
  losses : s.shared.reclaimed.length ≤ events.countP ClusterEvent.isLoss

theorem shared_conserved (h : (machine ok contents).Reaches events s) :
    Conserved ok contents events s where
  published := (reaches_recorded h).published
  placed m := by
    rw [count_placed h m]
    by_cases hm : m ∈ s.shared.published
    · rw [if_pos hm]
      exact List.count_eq_one_of_mem (reaches_recorded h).nodup hm
    · rw [if_neg hm]
      exact List.count_eq_zero_of_not_mem hm
  in_order := ready_in_order h
  exclusive := by
    intro i j d d' hi hj hd hd' hsame
    exact works_alone h (holds_of_works h hi hd) (hsame ▸ holds_of_works h hj hd')
  handled := (reaches_recorded h).acked
  successes := successes_le h
  losses := (reaches_recorded h).losses

/-- The first instance has lost its channel, and handles the message all the same; so
does the second, which has got it meanwhile. -/
def overlap : List (ClusterEvent Bool Bool) :=
  [.party false .restarted, .party true .restarted,
    .party false (.event .deliver), .party false (.event .receive), .party false .channelLost,
    .party true (.event .deliver), .party true (.event .receive),
    .party true (.event (.handled true)), .party false (.event (.handled true)),
    .party true (.event .settle), .party true (.event .process)]

theorem conserved_overlap : ∃ s, Conserved (fun _ met => met) [[1]] overlap s ∧
    ∑ i, (s.parties i).successes (fun _ met => met) ⟨0, [1]⟩ = 2 ∧
    s.shared.reclaimed = [⟨0, [1]⟩] ∧ s.shared.acked = [⟨0, [1]⟩] :=
  ⟨_, @shared_conserved Bool Bool _ (fun _ met => met) [[1]] overlap _ _ rfl, rfl, rfl, rfl⟩

end Conservation

end Cluster

end PaymentsNotifications.Server
