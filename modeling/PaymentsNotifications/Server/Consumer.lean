import PaymentsNotifications.Lib.Transition
import PaymentsNotifications.Utils

/-! The consumer loop of a queue (`stream.for_each(..)` in `lib.rs`): a delivery
is handled, then acknowledged with its own tag, or, a second later, everything
outstanding on the channel is given back. Any error of the stream or of the
channel ends the loop. How a handling ends is decided by `ok`, from the data and
from what the handling met. -/

namespace PaymentsNotifications.Server
open Utils

/-- A message, with its place in the order of publication. -/
structure Message where
  position : Nat
  data : Bytes
  deriving DecidableEq, Repr

structure Delivery where
  deliveryTag : Nat
  message : Message
  deriving DecidableEq, Repr

inductive Frame where
  | basicAck (deliveryTag : Nat) (multiple : Bool)
  | basicNack (deliveryTag : Nat) (multiple requeue : Bool)
  deriving DecidableEq, Repr

inductive Phase where
  | waiting
  | handling (d : Delivery)
  | delaying (d : Delivery)
  | settling (d : Delivery) (frame : Frame)
  | ended
  deriving DecidableEq, Repr

/-- The delivery the loop works on. -/
def Phase.delivery? : Phase → Option Delivery
  | .handling d => some d
  | .delaying d => some d
  | .settling d _ => some d
  | .waiting => none
  | .ended => none

/-- What happens to a consumer. `met` is what a handling met until it ended, by
itself or by its timeout. -/
inductive ConsumerEvent (ι : Type) where
  | received (d : Delivery)
  | handled (met : ι)
  | delayed
  | settled
  | settleFailed
  | streamFailed
  | streamEnded

/-- A consumer and its history: the deliveries it received, the handlings that
ended, and the frames it sent, each with its delivery. -/
structure Consumer (ι : Type) where
  phase : Phase
  received : List Delivery
  handled : List (Delivery × ι)
  sent : List (Delivery × Frame)

namespace Consumer
variable {ι : Type}

def start : Consumer ι := ⟨.waiting, [], [], []⟩

def step (ok : Bytes → ι → Bool) (self : Consumer ι) (event : ConsumerEvent ι) :
    Option (Consumer ι) :=
  match self.phase, event with
  | .waiting, .received d =>
    some { self with phase := .handling d, received := self.received ++ [d] }
  | .handling d, .handled met =>
    let next := if ok d.message.data met then .settling d (.basicAck d.deliveryTag false)
      else .delaying d
    some { self with phase := next, handled := self.handled ++ [(d, met)] }
  | .delaying d, .delayed => some { self with phase := .settling d (.basicNack 0 true true) }
  | .settling d frame, .settled =>
    some { self with phase := .waiting, sent := self.sent ++ [(d, frame)] }
  | .settling _ _, .settleFailed => some { self with phase := .ended }
  | .waiting, .streamFailed => some { self with phase := .ended }
  | .waiting, .streamEnded => some { self with phase := .ended }
  | _, _ => none

/-- What a step does, case by case. -/
inductive Step (ok : Bytes → ι → Bool) : Consumer ι → ConsumerEvent ι → Consumer ι → Prop where
  | received {c d} (hp : c.phase = .waiting) : Step ok c (.received d)
      { c with phase := .handling d, received := c.received ++ [d] }
  | succeeded {c d met} (hp : c.phase = .handling d) (hok : ok d.message.data met = true) :
      Step ok c (.handled met)
        { c with phase := .settling d (.basicAck d.deliveryTag false),
                 handled := c.handled ++ [(d, met)] }
  | failed {c d met} (hp : c.phase = .handling d) (hok : ok d.message.data met = false) :
      Step ok c (.handled met)
        { c with phase := .delaying d, handled := c.handled ++ [(d, met)] }
  | delayed {c d} (hp : c.phase = .delaying d) : Step ok c .delayed
      { c with phase := .settling d (.basicNack 0 true true) }
  | settled {c d frame} (hp : c.phase = .settling d frame) : Step ok c .settled
      { c with phase := .waiting, sent := c.sent ++ [(d, frame)] }
  | settleFailed {c d frame} (hp : c.phase = .settling d frame) : Step ok c .settleFailed
      { c with phase := .ended }
  | streamFailed {c} (hp : c.phase = .waiting) : Step ok c .streamFailed
      { c with phase := .ended }
  | streamEnded {c} (hp : c.phase = .waiting) : Step ok c .streamEnded
      { c with phase := .ended }

theorem step_spec {ok : Bytes → ι → Bool} {c c' : Consumer ι} {event : ConsumerEvent ι}
    (h : c.step ok event = some c') : Step ok c event c' := by
  unfold step at h
  split at h
  · obtain rfl := Option.some.inj h
    exact .received ‹_›
  · rename_i d met hp
    cases hok : ok d.message.data met with
    | true =>
      simp only [hok, if_true] at h
      obtain rfl := Option.some.inj h
      exact .succeeded hp hok
    | false =>
      simp only [hok, Bool.false_eq_true, if_false] at h
      obtain rfl := Option.some.inj h
      exact .failed hp hok
  · obtain rfl := Option.some.inj h
    exact .delayed ‹_›
  · obtain rfl := Option.some.inj h
    exact .settled ‹_›
  · obtain rfl := Option.some.inj h
    exact .settleFailed ‹_›
  · obtain rfl := Option.some.inj h
    exact .streamFailed ‹_›
  · obtain rfl := Option.some.inj h
    exact .streamEnded ‹_›
  · cases h

/-- The consumer as a machine. -/
def machine (ok : Bytes → ι → Bool) : Transition.Machine (Consumer ι) (ConsumerEvent ι) where
  init := start
  step := step ok

end Consumer

/-! ## Why the loop settles a delivery as it does -/

variable {ι : Type}

/-- The delivery has been handled, with this outcome. -/
def Handled (ok : Bytes → ι → Bool) (handled : List (Delivery × ι)) (d : Delivery)
    (outcome : Bool) : Prop :=
  ∃ met, (d, met) ∈ handled ∧ ok d.message.data met = outcome

/-- The frame that settles a delivery after its handling. -/
inductive Justified (ok : Bytes → ι → Bool) (handled : List (Delivery × ι)) (d : Delivery) :
    Frame → Prop where
  | ack (h : Handled ok handled d true) : Justified ok handled d (.basicAck d.deliveryTag false)
  | nack (h : Handled ok handled d false) : Justified ok handled d (.basicNack 0 true true)

variable {ok : Bytes → ι → Bool} {handled : List (Delivery × ι)} {d : Delivery}

theorem handled_last {met : ι} {outcome : Bool} (h : ok d.message.data met = outcome) :
    Handled ok (handled ++ [(d, met)]) d outcome :=
  ⟨met, List.mem_append_right _ (List.mem_singleton.mpr rfl), h⟩

theorem Handled.append {outcome : Bool} (h : Handled ok handled d outcome)
    (more : List (Delivery × ι)) : Handled ok (handled ++ more) d outcome := by
  obtain ⟨met, hmem, hok⟩ := h
  exact ⟨met, List.mem_append_left _ hmem, hok⟩

theorem Justified.append {frame : Frame} (h : Justified ok handled d frame)
    (more : List (Delivery × ι)) : Justified ok (handled ++ more) d frame := by
  cases h with
  | ack h => exact .ack (h.append more)
  | nack h => exact .nack (h.append more)

namespace Consumer

/-- Every frame, sent or about to be sent, is the one its delivery's handling asks for. -/
structure Justifying (ok : Bytes → ι → Bool) (c : Consumer ι) : Prop where
  sent : ∀ d frame, (d, frame) ∈ c.sent → Justified ok c.handled d frame
  settling : ∀ d frame, c.phase = .settling d frame → Justified ok c.handled d frame
  delaying : ∀ d, c.phase = .delaying d → Handled ok c.handled d false

theorem justifying_start : (start : Consumer ι).Justifying ok where
  sent _ _ hmem := (List.not_mem_nil hmem).elim
  settling _ _ hp := nomatch hp
  delaying _ hp := nomatch hp

theorem Step.justifying {c c' : Consumer ι} {event : ConsumerEvent ι}
    (hs : Step ok c event c') (h : c.Justifying ok) : c'.Justifying ok := by
  cases hs with
  | received hp => exact ⟨h.sent, fun _ _ hp' => (nomatch hp'), fun _ hp' => (nomatch hp')⟩
  | succeeded hp hok =>
    refine ⟨fun d frame hmem => (h.sent d frame hmem).append _, fun d frame hp' => ?_,
      fun _ hp' => (nomatch hp')⟩
    cases hp'
    exact .ack (handled_last hok)
  | failed hp hok =>
    refine ⟨fun d frame hmem => (h.sent d frame hmem).append _, fun _ _ hp' => (nomatch hp'),
      fun d hp' => ?_⟩
    cases hp'
    exact handled_last hok
  | delayed hp =>
    refine ⟨h.sent, fun d frame hp' => ?_, fun _ hp' => (nomatch hp')⟩
    cases hp'
    exact .nack (h.delaying _ hp)
  | settled hp =>
    refine ⟨fun d frame hmem => ?_, fun _ _ hp' => (nomatch hp'), fun _ hp' => (nomatch hp')⟩
    rcases List.mem_append.mp hmem with hold | hnew
    · exact h.sent d frame hold
    · cases List.mem_singleton.mp hnew
      exact h.settling _ _ hp
  | settleFailed hp => exact ⟨h.sent, fun _ _ hp' => (nomatch hp'), fun _ hp' => (nomatch hp')⟩
  | streamFailed hp => exact ⟨h.sent, fun _ _ hp' => (nomatch hp'), fun _ hp' => (nomatch hp')⟩
  | streamEnded hp => exact ⟨h.sent, fun _ _ hp' => (nomatch hp'), fun _ hp' => (nomatch hp')⟩

theorem reaches_justifying {labels : List (ConsumerEvent ι)} {c : Consumer ι}
    (h : (machine ok).Reaches labels c) : c.Justifying ok :=
  h.invariant (P := Justifying ok) justifying_start fun _ _ _ hc hs =>
    (step_spec hs).justifying hc

/-- One delivery, handled well and acknowledged. -/
theorem reaches_acked {ok : Bytes → ι → Bool} {d : Delivery} {met : ι}
    (hok : ok d.message.data met = true) :
    (machine ok).Reaches [.received d, .handled met, .settled]
      ⟨.waiting, [d], [(d, met)], [(d, .basicAck d.deliveryTag false)]⟩ := by
  simp [Transition.Machine.Reaches, Transition.Machine.runFrom, machine, start, step, hok]

end Consumer

end PaymentsNotifications.Server
