import PaymentsNotifications.Server.ExactlyOnce
import PaymentsNotifications.Server.Recovery

/-! What several instances of the service decide about the messages they share; again it
is the clients of the instances that decide, or a confirmed publication. No agreement
between the instances is needed: that the broker gives a message to one of them at a time
is enough, as long as it does not have to take it back. -/

namespace PaymentsNotifications.Server
open Futures Futures.Fut Models Utils Transport External Services

namespace Cluster
variable {κ : Type} [DecidableEq κ] [Fintype κ] {process : Process} {q : Outbox}
  {contents : List Bytes} {events : List (ClusterEvent κ (Conditions Wire))}
  {s : Cluster κ (Conditions Wire)}

/-- How often all instances together have decided about the message. -/
def resolutions (process : Process) (q : Outbox) (s : Cluster κ (Conditions Wire)) (m : Message) :
    Nat := ∑ i, process.resolutions q (s.parties i).handlings m

structure DecidedOnce (process : Process) (q : Outbox) (s : Cluster κ (Conditions Wire)) : Prop where
  /-- Once, and once more for each time the broker took the message back. -/
  at_most : ∀ m, resolutions process q s m ≤ s.shared.reclaimed.count m + 1
  at_least : ∀ m ∈ s.shared.acked,
    (∀ i d met, (d, met) ∈ (s.parties i).handlings → d.message = m →
      ∀ e ∈ (process.subscription q).events m.data met, Process.Faithful e) →
    1 ≤ resolutions process q s m

theorem shared_decidedOnce (h : (machine (process.subscription q).succeeds contents).Reaches events s) :
    DecidedOnce process q s where
  at_most m := by
    have hle : resolutions process q s m ≤
        ∑ i, (s.parties i).successes (process.subscription q).succeeds m :=
      Finset.sum_le_sum fun i _ => process.resolutions_le (s.parties i).handlings
    exact hle.trans (successes_le h m)
  at_least := by
    intro m hm hfaithful
    obtain ⟨i, d, met, hmem, rfl, hok⟩ := (reaches_recorded h).acked m hm
    have hone := process.resolutions_pos hmem hok (hfaithful i d met hmem rfl)
    have hle := Finset.single_le_sum
      (f := fun i => process.resolutions q (s.parties i).handlings d.message)
      (fun _ _ => Nat.zero_le _) (Finset.mem_univ i)
    exact Nat.le_trans hone hle

/-- Two instances, and an email that is handled. -/
theorem exists_handled : ∃ events, ∃ s : Cluster Bool (Conditions Wire),
    (machine (exampleProcess.subscription .emails).succeeds [bytesOf exampleEmailJson]).Reaches
      events s ∧ s.shared.acked = [⟨0, bytesOf exampleEmailJson⟩] := by
  have hok : (exampleProcess.subscription .emails).succeeds (bytesOf exampleEmailJson)
      ⟨answering ⟨⟨202⟩, Body.from []⟩, none⟩ = true := by decide
  have hrestarted : (machine (exampleProcess.subscription .emails).succeeds
      [bytesOf exampleEmailJson]).Reaches ([true, false].map (.party · .restarted))
        ((start [bytesOf exampleEmailJson] : Cluster Bool _).restartAll [true, false]) :=
    runFrom_restartAll ..
  obtain ⟨labels, s, hrun, -, hperm, -⟩ := exists_emptied true
    (G := fun m met => (exampleProcess.subscription .emails).succeeds m.data met = true)
    (fun _ _ => id) hrestarted
    (fun j => fresh_restartAll (.inl (by cases j <;> decide))) (by
      intro m hm
      obtain rfl := List.mem_singleton.mp hm
      exact ⟨_, hok⟩)
  exact ⟨_, s, Transition.Machine.runFrom_trans _ hrestarted hrun, List.perm_singleton.mp hperm⟩

theorem shared_decidedOnce_example : ∃ s : Cluster Bool (Conditions Wire),
    DecidedOnce exampleProcess .emails s ∧ s.shared.acked = [⟨0, bytesOf exampleEmailJson⟩] := by
  obtain ⟨events, s, h, hacked⟩ := exists_handled
  exact ⟨s, shared_decidedOnce h, hacked⟩

end Cluster

end PaymentsNotifications.Server
