import PaymentsNotifications.Server.Fleet

/-! However the service has ended up, its messages are not lost: when the instances are
started again and one of them meets what each message needs to be handled well, in the end
every message ever published was answered as its client wants it, or was published to its
error queue. -/

namespace PaymentsNotifications.Server
open Futures Futures.Fut Models Utils Transport External Services Rabbit

/-- Conditions under which the message is handled well. No timer fires before its time, and
the timers fire and publications are confirmed. -/
structure Process.Suits (process : Process) (q : Outbox) (m : Message) (met : Met) : Prop where
  takes : met.1.env.Takes leastTime
  succeeds : process.succeeds q m.data met = true
  faithful : ∀ e ∈ (process.subscription q).events m.data met.1, Process.Faithful e

/-- The instance is at work on a queue. -/
def FleetEvent.work {κ : Type} (i : κ) (w : Outbox × SystemEvent Met) : FleetEvent κ :=
  .queue w.1 (.party i (.event w.2))

namespace Fleet
variable {κ : Type} [DecidableEq κ] {types : Amqp.ExchangeTypes} {process : Process}
  {contents : Outbox → List Bytes} {host : Amqp.Host Bytes} {events : List (FleetEvent κ)}
  {F : Fleet κ}

variable [Fintype κ]

/-- The handlings since are all under conditions that suit. -/
def Suited (process : Process) (F F' : Fleet κ) (q : Outbox) : Prop :=
  ∀ j, ∀ h ∈ ((F'.queues q).parties j).handlings,
    h ∈ ((F.queues q).parties j).handlings ∨ process.Suits q h.1.message h.2

/-- One instance empties one queue, when nothing is outstanding there. -/
theorem exists_emptied (i : κ) (h : (machine types process contents host).Reaches events F)
    (hplace : InPlace F.host) (q : Outbox) (hfresh : ∀ j, ((F.queues q).parties j).Fresh)
    (hgood : ∀ m ∈ (F.queues q).shared.published, ∃ met, process.Suits q m met) :
    ∃ (labels : List (SystemEvent Met)) (F' : Fleet κ),
      (machine types process contents host).Reaches
        (events ++ (labels.map (Prod.mk q)).map (FleetEvent.work i)) F' ∧
      (∀ e ∈ labels, e.published? = none) ∧ (∀ q', q' ≠ q → F'.queues q' = F.queues q') ∧
      (F'.queues q).shared.acked.Perm (F.queues q).shared.published ∧ Suited process F F' q := by
  obtain ⟨clusterLabels, hcluster⟩ := reaches_cluster h q
  obtain ⟨labels, s, hrun, hquiet, hperm, hhandlings⟩ :=
    Cluster.exists_emptied i (G := process.Suits q) (fun _ _ hmet => hmet.succeeds) hcluster
      hfresh hgood
  obtain ⟨host', hlifted⟩ := runFrom_cluster types contents host hplace q hrun (by
    intro label hmem
    obtain ⟨e, -, rfl⟩ := List.mem_map.mp hmem
    rfl)
  have hwork : (labels.map fun e => (.party i (.event e) : ClusterEvent κ Met)).map (.queue q) =
      (labels.map (Prod.mk q)).map (FleetEvent.work i) := by
    rw [List.map_map, List.map_map]
    rfl
  rw [hwork] at hlifted
  refine ⟨labels, _, Transition.Machine.runFrom_trans _ h hlifted, hquiet,
    fun q' hq => Function.update_of_ne hq .., ?_, fun j h hmem => ?_⟩
  · simp only [Function.update_self]
    exact hperm
  · exact hhandlings j h (by simpa only [Function.update_self] using hmem)

end Fleet

end PaymentsNotifications.Server
