import Mathlib.Logic.Function.Basic
import PaymentsNotifications.Server.Consumer

/-! The tasks `start_server` spawns: one consumer for each queue, and the HTTP
server. The runtime goes on until all of them have ended. A consumer that ends
stays ended: no task subscribes to a queue again, `restart_subscription_secs` is
only the timeout of a handling. -/

namespace PaymentsNotifications.Server
open Utils

/-- The queues of `TransactionConsumerImpl::subscribe`. -/
inductive Queue where
  | pushes
  | callbacks
  | emails
  deriving DecidableEq, Repr

structure Runtime (ι : Type) where
  consumers : Queue → Consumer ι
  serving : Bool

inductive RuntimeEvent (ι : Type) where
  | consumer (q : Queue) (event : ConsumerEvent ι)
  | serverEnded

/-- The stream or the channel fails, or the stream ends: the loop is over. -/
def ConsumerEvent.isFatal {ι : Type} : ConsumerEvent ι → Bool
  | .settleFailed => true
  | .streamFailed => true
  | .streamEnded => true
  | _ => false

theorem Consumer.Step.ended_iff {ι : Type} {ok : Bytes → ι → Bool} {c c' : Consumer ι}
    {event : ConsumerEvent ι} (h : Consumer.Step ok c event c') :
    c'.phase = .ended ↔ event.isFatal = true := by
  cases h <;> simp [ConsumerEvent.isFatal]

theorem Consumer.Step.not_ended {ι : Type} {ok : Bytes → ι → Bool} {c c' : Consumer ι}
    {event : ConsumerEvent ι} (h : Consumer.Step ok c event c') : c.phase ≠ .ended := by
  cases h <;> simp [*]

namespace Runtime
variable {ι : Type}

/-- After the subscriptions, when everything is spawned. -/
def start : Runtime ι := ⟨fun _ => Consumer.start, true⟩

def step (ok : Queue → Bytes → ι → Bool) (self : Runtime ι) : RuntimeEvent ι → Option (Runtime ι)
  | .consumer q event =>
    ((self.consumers q).step (ok q) event).map fun c =>
      { self with consumers := Function.update self.consumers q c }
  | .serverEnded => if self.serving then some { self with serving := false } else none

def machine (ok : Queue → Bytes → ι → Bool) : Transition.Machine (Runtime ι) (RuntimeEvent ι) where
  init := start
  step := step ok

/-- While HTTP is served, each queue has a live consumer task. -/
def AllConsumed (rt : Runtime ι) : Prop :=
  rt.serving = true → ∀ q, (rt.consumers q).phase ≠ .ended

/-- Some event of the run ended the queue's consumer. -/
def Ended (labels : List (RuntimeEvent ι)) (q : Queue) : Prop :=
  ∃ event, RuntimeEvent.consumer q event ∈ labels ∧ event.isFatal = true

/-- What the history of a run says about its state. -/
structure Recorded (labels : List (RuntimeEvent ι)) (rt : Runtime ι) : Prop where
  serving : rt.serving = true ↔ RuntimeEvent.serverEnded ∉ labels
  ended : ∀ q, (rt.consumers q).phase = .ended ↔ Ended labels q

theorem recorded_start : Recorded [] (start : Runtime ι) where
  serving := ⟨fun _ => List.not_mem_nil, fun _ => rfl⟩
  ended _ := ⟨fun h => (nomatch h), fun ⟨_, hmem, _⟩ => (List.not_mem_nil hmem).elim⟩

theorem ended_append {labels : List (RuntimeEvent ι)} {label : RuntimeEvent ι} {q : Queue} :
    Ended (labels ++ [label]) q ↔
      Ended labels q ∨ ∃ event, label = .consumer q event ∧ event.isFatal = true := by
  constructor
  · rintro ⟨event, hmem, hfatal⟩
    rcases List.mem_append.mp hmem with hold | hnew
    · exact .inl ⟨event, hold, hfatal⟩
    · exact .inr ⟨event, (List.mem_singleton.mp hnew).symm, hfatal⟩
  · rintro (⟨event, hmem, hfatal⟩ | ⟨event, rfl, hfatal⟩)
    · exact ⟨event, List.mem_append_left _ hmem, hfatal⟩
    · exact ⟨event, List.mem_append_right _ (List.mem_singleton.mpr rfl), hfatal⟩

theorem recorded_consumer {ok : Bytes → ι → Bool} {labels : List (RuntimeEvent ι)} {rt : Runtime ι}
    {q : Queue} {event : ConsumerEvent ι} {c : Consumer ι} (h : Recorded labels rt)
    (hstep : Consumer.Step ok (rt.consumers q) event c) :
    Recorded (labels ++ [.consumer q event])
      { rt with consumers := Function.update rt.consumers q c } := by
  refine ⟨?_, fun q' => ?_⟩
  · rw [h.serving, List.mem_append]
    simp
  · rw [ended_append, ← h.ended q']
    by_cases hq : q' = q
    · subst hq
      have hlive := hstep.not_ended
      simp only [Function.update_self, hstep.ended_iff]
      constructor
      · intro hfatal
        exact .inr ⟨event, rfl, hfatal⟩
      · rintro (hended | ⟨event', heq, hfatal⟩)
        · exact (hlive hended).elim
        · cases heq
          exact hfatal
    · simp only [Function.update_of_ne hq]
      constructor
      · exact .inl
      · rintro (hended | ⟨event', heq, -⟩)
        · exact hended
        · cases heq
          exact (hq rfl).elim

theorem recorded_step {ok : Queue → Bytes → ι → Bool} {labels : List (RuntimeEvent ι)}
    {rt rt' : Runtime ι} {label : RuntimeEvent ι} (h : Recorded labels rt)
    (hs : rt.step ok label = some rt') : Recorded (labels ++ [label]) rt' := by
  cases label with
  | consumer q event =>
    obtain ⟨c, hc, rfl⟩ := Option.map_eq_some_iff.mp hs
    exact recorded_consumer h (Consumer.step_spec hc)
  | serverEnded =>
    unfold step at hs
    cases hserving : rt.serving with
    | false =>
      simp only [hserving, Bool.false_eq_true, if_false] at hs
      cases hs
    | true =>
      simp only [hserving, if_true] at hs
      obtain rfl := Option.some.inj hs
      refine ⟨?_, fun q => ?_⟩
      · simp
      · rw [ended_append, ← h.ended q]
        simp

theorem reaches_recorded {ok : Queue → Bytes → ι → Bool} {labels : List (RuntimeEvent ι)}
    {rt : Runtime ι} (h : (machine ok).Reaches labels rt) : Recorded labels rt :=
  h.history (P := Recorded) recorded_start fun _ _ _ _ => recorded_step

/-- No consumer is ended by an event of the run while HTTP is served. -/
def NoFatalWhileServing (labels : List (RuntimeEvent ι)) : Prop :=
  ∀ before q event after, labels = before ++ .consumer q event :: after →
    event.isFatal = true → RuntimeEvent.serverEnded ∈ before

/-- A run consumes every queue in each of its states, exactly when no stream or
channel of a consumer fails or ends while HTTP is served. -/
theorem allConsumed_iff {ok : Queue → Bytes → ι → Bool} {labels : List (RuntimeEvent ι)}
    {rt : Runtime ι} (h : (machine ok).Reaches labels rt) :
    (∀ before after rt', labels = before ++ after → (machine ok).Reaches before rt' →
      rt'.AllConsumed) ↔ NoFatalWhileServing labels := by
  constructor
  · intro hall before q event after hlabels hfatal
    by_contra hserving
    have hsplit : labels = (before ++ [.consumer q event]) ++ after := by
      rw [hlabels, List.append_assoc]
      rfl
    rw [hsplit] at h
    obtain ⟨rt', hrt', -⟩ := h.split
    have hrec := reaches_recorded hrt'
    have hserving' : rt'.serving = true := by
      rw [hrec.serving, List.mem_append]
      simp [hserving]
    refine hall _ after rt' hsplit hrt' hserving' q ?_
    rw [hrec.ended q, ended_append]
    exact .inr ⟨event, rfl, hfatal⟩
  · intro hfatal before after rt' hlabels hrt' hserving q hended
    have hrec := reaches_recorded hrt'
    obtain ⟨event, hmem, hev⟩ := (hrec.ended q).mp hended
    obtain ⟨first, rest, rfl⟩ := List.append_of_mem hmem
    have hgone := hfatal first q event (rest ++ after) (by rw [hlabels]; simp) hev
    exact hrec.serving.mp hserving (List.mem_append_left _ hgone)

/-- A message is handled without success, and its `basic_nack` goes out. -/
theorem allConsumed_example :
    (∀ before after rt', [.consumer .emails (.received ⟨1, ⟨0, []⟩⟩),
        .consumer .emails (.handled false), .consumer .emails .delayed,
        .consumer .emails .settled] = before ++ after →
      (machine (fun _ _ met => met)).Reaches before rt' → rt'.AllConsumed) ↔
    NoFatalWhileServing [.consumer .emails (.received ⟨1, ⟨0, []⟩⟩),
        .consumer .emails (.handled false), .consumer .emails .delayed,
        .consumer .emails .settled] :=
  allConsumed_iff rfl

/-- The broker closes a consumer's channel: its queue is left alone. -/
theorem ended_stream_leaves_queue :
    ∃ (labels : List (RuntimeEvent Bool)) (rt : Runtime Bool),
      (machine fun _ _ met => met).Reaches labels rt ∧ ¬ rt.AllConsumed := by
  refine ⟨[.consumer .callbacks .streamEnded], _, rfl, ?_⟩
  intro h
  exact h rfl .callbacks rfl

end Runtime

end PaymentsNotifications.Server
