import PaymentsNotifications.Server.Cluster

/-! Starting everything again is enough. Whatever the instances, their channels and their
loops have come to, when all of them are started again one of them can empty the queue,
provided each message can be handled well at all. -/

namespace PaymentsNotifications.Server
open Utils

variable {ι : Type} {ok : Bytes → ι → Bool}

def SystemEvent.published? : SystemEvent ι → Option Bytes
  | .publish data => some data
  | _ => none

/-- The consumer takes one message after the other, each under conditions that suit it. -/
theorem System.exists_drained (contents : List Bytes) {ready : List Message} {s : System ι}
    {G : Message → ι → Prop} (hG : ∀ m met, G m met → ok m.data met = true) (hidle : s.Idle)
    (hready : s.broker.ready = ready) (hgood : ∀ m ∈ ready, ∃ met, G m met) :
    ∃ labels s', (machine ok contents).runFrom s labels = some s' ∧
      (∀ e ∈ labels, e.published? = none) ∧ s'.broker.ready = [] ∧ s'.broker.unacked = [] ∧
      s'.broker.published = s.broker.published ∧
      ∀ h ∈ s'.consumer.handled, h ∈ s.consumer.handled ∨ G h.1.message h.2 := by
  induction ready generalizing s with
  | nil =>
    exact ⟨[], s, rfl, fun _ he => (List.not_mem_nil he).elim, hready, hidle.unacked, rfl,
      fun _ => .inl⟩
  | cons m rest ih =>
    obtain ⟨met, hmet⟩ := hgood m List.mem_cons_self
    have hfirst := runFrom_taken contents hidle hready (hG m met hmet)
    obtain ⟨labels, s', hrun, hquiet, hempty, hunacked, hsame, hhandled⟩ :=
      ih (hidle.taken m rest met) rfl fun m' hm' => hgood m' (List.mem_cons_of_mem _ hm')
    refine ⟨_, s', Transition.Machine.runFrom_trans _ hfirst hrun, ?_, hempty, hunacked, hsame,
      fun h hmem => ?_⟩
    · refine List.forall_mem_append.mpr ⟨?_, hquiet⟩
      simp [takenLabels, SystemEvent.published?]
    · rcases hhandled h hmem with hold | hnew
      · rcases List.mem_append.mp hold with hbefore | hthis
        · exact .inl hbefore
        · obtain rfl := List.mem_singleton.mp hthis
          exact .inr hmet
      · exact .inr hnew

namespace Instance
variable {b : Backlog} {c : Instance ι}

/-- What the consumer and its queue can do by themselves, the instance can do. -/
theorem runFrom_system (init : Backlog × Instance ι) {contents : List Bytes}
    {labels : List (SystemEvent ι)} {s : System ι} (hup : c.connected = true)
    (hquiet : ∀ e ∈ labels, e.published? = none)
    (hrun : (System.machine ok contents).runFrom (c.on b).system labels = some s) :
    (Parties.alone (instances ok) init).runFrom (b, c) (labels.map .event) =
      some (⟨s.broker.ready, s.broker.published, s.broker.acked, b.reclaimed⟩,
        of ⟨s, true, c.past⟩) := by
  induction labels generalizing b c with
  | nil =>
    obtain rfl := Option.some.inj hrun
    obtain ⟨unacked, delivered, settled, toClient, toBroker, consumer, connected, past⟩ := c
    subst hup
    rfl
  | cons e labels ih =>
    rw [Transition.Machine.runFrom] at hrun
    obtain ⟨s₁, hone, hrun⟩ := Option.bind_eq_some_iff.mp hrun
    have hno : (LivesEvent.event e).published? = none := by
      have hhead := hquiet e List.mem_cons_self
      cases e with
      | publish => cases hhead
      | _ => rfl
    have hstep : step ok b c (.event e) =
        some (⟨s₁.broker.ready, s₁.broker.published, s₁.broker.acked, b.reclaimed⟩,
          of ⟨s₁, true, c.past⟩) := by
      have hlives : (c.on b).step ok (.event e) = some ⟨s₁, true, c.past⟩ := by
        rw [Lives.step_event hup hone, on, hup]
      simp [step, hno, hlives, takenBack]
    have hrest := ih (b := ⟨s₁.broker.ready, s₁.broker.published, s₁.broker.acked, b.reclaimed⟩)
      (c := of ⟨s₁, true, c.past⟩) rfl (fun e' he' => hquiet e' (List.mem_cons_of_mem _ he')) hrun
    rw [List.map_cons, Transition.Machine.runFrom_cons _ hstep]
    exact hrest

/-- Just started, with nothing outstanding. -/
structure Fresh (c : Instance ι) : Prop where
  connected : c.connected = true
  idle : ∀ b, (c.on b).system.Idle

theorem fresh_restart (c : Instance ι) : c.restart.Fresh := ⟨rfl, fun _ => ⟨rfl, rfl, rfl, rfl⟩⟩

theorem step_restarted (ok : Bytes → ι → Bool) (b : Backlog) (c : Instance ι) :
    step ok b c .restarted = some (b.putBack (c.unacked.map Delivery.message), c.restart) := by
  simp [step, LivesEvent.published?, Lives.step, Lives.restart, on, of, restart, takenBack,
    Broker.reclaim, Backlog.putBack, List.foldr_map]

end Instance

namespace Cluster
variable {κ : Type} [DecidableEq κ] {contents : List Bytes} {events : List (ClusterEvent κ ι)}
  {s : Cluster κ ι}

/-- The instance is started again. -/
def restart (self : Cluster κ ι) (i : κ) : Cluster κ ι where
  shared := self.shared.putBack ((self.parties i).unacked.map Delivery.message)
  parties := Function.update self.parties i (self.parties i).restart

theorem next_restarted (ok : Bytes → ι → Bool) (s : Cluster κ ι) (i : κ) :
    (instances ok).next s (.party i .restarted) = some (s.restart i) :=
  Parties.next_party (Instance.step_restarted ok s.shared (s.parties i))

theorem handlings_restart (s : Cluster κ ι) (i j : κ) :
    ((s.restart i).parties j).handlings = (s.parties j).handlings := by
  by_cases hji : j = i
  · subst hji
    simp only [restart, Function.update_self]
    exact Instance.handlings_restart _
  · simp only [restart, Function.update_of_ne hji]

/-- All of these, one by one. -/
def restartAll (self : Cluster κ ι) (is : List κ) : Cluster κ ι := is.foldl restart self

theorem fresh_restartAll {s : Cluster κ ι} {is : List κ} {j : κ}
    (h : j ∈ is ∨ (s.parties j).Fresh) : ((s.restartAll is).parties j).Fresh := by
  induction is generalizing s with
  | nil => exact h.resolve_left List.not_mem_nil
  | cons i is ih =>
    refine ih ?_
    by_cases hji : j = i
    · subst hji
      simp only [restart, Function.update_self]
      exact .inr (Instance.fresh_restart _)
    · simp only [restart, Function.update_of_ne hji]
      exact h.imp_left fun hmem => (List.mem_cons.mp hmem).resolve_left hji

theorem runFrom_restartAll (ok : Bytes → ι → Bool) (contents : List Bytes) (s : Cluster κ ι)
    (is : List κ) : (machine ok contents).runFrom s (is.map (.party · .restarted)) =
      some (s.restartAll is) := by
  induction is generalizing s with
  | nil => rfl
  | cons i is ih =>
    rw [List.map_cons, Transition.Machine.runFrom_cons _ (next_restarted ok s i)]
    exact ih (s.restart i)

/-- One instance empties the queue, when nothing is outstanding at any. -/
theorem exists_emptied [Fintype κ] (i : κ) {G : Message → ι → Prop}
    (hG : ∀ m met, G m met → ok m.data met = true) (h : (machine ok contents).Reaches events s)
    (hfresh : ∀ j, (s.parties j).Fresh) (hgood : ∀ m ∈ s.shared.published, ∃ met, G m met) :
    ∃ (labels : List (SystemEvent ι)) (s' : Cluster κ ι),
      (machine ok contents).runFrom s (labels.map fun e => .party i (.event e)) = some s' ∧
      (∀ e ∈ labels, e.published? = none) ∧ s'.shared.acked.Perm s.shared.published ∧
      ∀ j, ∀ h ∈ (s'.parties j).handlings, h ∈ (s.parties j).handlings ∨ G h.1.message h.2 := by
  obtain ⟨labels, t, hrun, hquiet, hready, hunacked, hsame, hhandled⟩ :=
    System.exists_drained contents hG ((hfresh i).idle s.shared) rfl fun m hm =>
      hgood m (ready_published h hm)
  have halone := Instance.runFrom_system (s.shared, s.parties i) (hfresh i).connected hquiet hrun
  have hemptied : (machine ok contents).runFrom s ((labels.map .event).map (.party i)) = some _ :=
    Parties.runFrom_party halone
  rw [List.map_map] at hemptied
  refine ⟨labels, _, hemptied, hquiet, List.perm_iff_count.mpr fun m => ?_, fun j h hmem => ?_⟩
  · have hheld : ∀ j, (Function.update s.parties i (Instance.of ⟨t, true, (s.parties i).past⟩)
        j).holds m = 0 := by
      intro j
      by_cases hj : j = i
      · subst hj
        simp [Instance.holds, Instance.of, hunacked]
      · have hnone : (s.parties j).unacked = [] := ((hfresh j).idle s.shared).unacked
        simp [Function.update_of_ne hj, Instance.holds, hnone]
    have hcount := count_placed (Transition.Machine.runFrom_trans (machine ok contents) h hemptied) m
    simp only [hready, hheld, Finset.sum_const_zero, List.count_nil, hsame] at hcount
    exact hcount
  · by_cases hj : j = i
    · subst hj
      simp only [Function.update_self] at hmem
      rcases List.mem_append.mp hmem with hpast | hnow
      · exact .inl (List.mem_append_left _ hpast)
      · exact (hhandled h hnow).imp_left (List.mem_append_right _)
    · simp only [Function.update_of_ne hj] at hmem
      exact .inl hmem

end Cluster

end PaymentsNotifications.Server
