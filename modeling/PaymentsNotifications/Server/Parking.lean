import Mathlib.Algebra.BigOperators.Group.List.Basic
import Mathlib.Algebra.GroupWithZero.Nat
import PaymentsNotifications.Server.Calls
import PaymentsNotifications.Server.Settlement

/-! A message that nobody takes. Its retry schedule has 4094 seconds of pauses and the
time of its attempts, and the timeout of a handling cuts it unless there is room for all
of that. Cut, the message goes back to the queue and starts again. A timer that fails
ends the schedule too, and then the message is acknowledged without being parked. -/

namespace PaymentsNotifications.Server
open Futures Futures.Fut Models Utils Transport External Services

/-- What a handling of a notification that nobody takes may get: attempts that fail, and
publications that are confirmed. Its timers, and how long each call takes, are left open. -/
def Undelivered : Event Service → Prop
  | ⟨.send _, some answer⟩ => answer.isOk = false
  | ⟨.publishError _, some answer⟩ => answer = .ok ()
  | _ => True

def isAttempt : ServiceCall → Bool
  | .send _ => true
  | _ => false

def attempts (log : List (Entry Service)) : Nat := log.countP fun entry => isAttempt entry.call

theorem attempts_append (log log' : List (Entry Service)) :
    attempts (log ++ log') = attempts log + attempts log' :=
  List.countP_append

/-- How long these rounds take from the `i`-th call on: each is an attempt and a pause. -/
def roundsTook (n : Notification) (met : Conditions Service) : Nat → List Nat → Nat
  | _, [] => 0
  | i, t :: ts =>
    (met.env i (.send n)).2 + (met.env (i + 1) (.delay t)).2 + roundsTook n met (i + 2) ts

/-- Eleven attempts with their pauses, and the publication. -/
def scheduleTook (n : Notification) (met : Conditions Service) : Nat :=
  roundsTook n met 0 delays + (met.env 22 (.publishError n)).2

/-- The timers of these pauses fire. -/
def Fires (met : Conditions Service) : Nat → List Nat → Prop
  | _, [] => True
  | i, t :: ts => (met.env (i + 1) (.delay t)).1 = .ok () ∧ Fires met (i + 2) ts

/-- The timers of the eleven pauses fire, and the handling has time for the whole schedule. -/
structure InTime (n : Notification) (timeout : Nat) (met : Conditions Service) : Prop where
  timers : Fires met 0 delays
  room : scheduleTook n met ≤ met.deadline timeout

/-- Rounds take at least their pauses, when no timer fires early. -/
theorem roundsTook_ge {n : Notification} {met : Conditions Service}
    (h : ∀ i t, secs t ≤ (met.env i (.delay t)).2) (i : Nat) (ts : List Nat) :
    secs ts.sum ≤ roundsTook n met i ts := by
  induction ts generalizing i with
  | nil => exact Nat.le_refl 0
  | cons t ts ih =>
    have hpause := h (i + 1) t
    have hrest := ih (i + 2)
    simp only [roundsTook, List.sum_cons, secs] at hpause hrest ⊢
    omega

/-- No timeout below 4094 seconds leaves room for the schedule. -/
theorem InTime.timeout_ge {n : Notification} {timeout : Nat} {met : Conditions Service}
    (h : InTime n timeout met) (hpauses : ∀ i t, secs t ≤ (met.env i (.delay t)).2) :
    4094 ≤ timeout := by
  have hrounds := roundsTook_ge (n := n) hpauses 0 delays
  have hsum : delays.sum = 4094 := rfl
  have hroom := Nat.le_trans h.room (met.deadline_le timeout)
  simp only [scheduleTook, secs, hsum] at hroom hrounds
  omega

/-! ## One handling -/

section Schedule
variable {n : Notification} {met : Conditions Service}

theorem send_call (n : Notification) : callNotificator.send n = perform (σ := Service) (.send n) := by
  cases n <;> rfl

theorem park_call (n : Notification) :
    callNotificator.park n = perform (σ := Service) (.publishError n) := by
  cases n <;> rfl

/-- The rounds of the loop over these pauses. -/
def rounds (n : Notification) (pauses : List Nat) : Fut Service (Except Unit Unit) :=
  forEach (callNotificator.attempt (callNotificator.send n)) pauses

theorem attempt_call (t : Nat) :
    callNotificator.attempt (callNotificator.send n) t =
      .call (.send n) fun
        | .ok _ => .ready (.error ())
        | .error _ => .call (.delay t) fun fired => .ready (fired.mapError fun _ => ()) := by
  rw [send_call, Notificator.attempt, mapErr, perform, call_bind, call_bind]
  congr 1
  funext r
  cases r with
  | ok u => rfl
  | error e =>
    change ((perform (σ := Service) (.delay t)).mapErr fun _ => ()) = _
    rw [mapErr, perform, call_bind]
    congr 1
    funext fired
    cases fired <;> rfl

/-- The handling from the rounds over these pauses on. -/
def remaining (n : Notification) (pauses : List Nat) : Fut Service (Except ServiceError Unit) :=
  ((rounds n pauses).andThen fun _ => (callNotificator.park n).mapErr fun _ => ()).bind
    fun _ => .ready (.ok ())

theorem deliver_eq_remaining (n : Notification) :
    callNotificator.deliver n = remaining n delays := rfl

theorem remaining_nil (n : Notification) :
    remaining n [] = .call (.publishError n) fun _ => .ready (.ok ()) := by
  rw [remaining, rounds, forEach, park_call, mapErr, perform, call_bind, andThen, ready_bind,
    call_bind]
  congr 1
  funext answer
  cases answer <;> rfl

theorem remaining_cons (n : Notification) (t : Nat) (ts : List Nat) :
    remaining n (t :: ts) = .call (.send n) fun
      | .ok _ => .ready (.ok ())
      | .error _ => .call (.delay t) fun
        | .ok _ => remaining n ts
        | .error _ => .ready (.ok ()) := by
  rw [remaining, rounds, forEach, attempt_call]
  simp only [andThen, call_bind]
  congr 1
  funext answer
  cases answer with
  | ok u => rfl
  | error e =>
    simp only [call_bind]
    congr 1
    funext fired
    cases fired <;> rfl

/-- How long a round takes. -/
def roundTook (n : Notification) (met : Conditions Service) (t i : Nat) : Nat :=
  (met.env i (.send n)).2 + (met.env (i + 1) (.delay t)).2

/-- The calls of a round that fails. -/
def roundLog (n : Notification) (met : Conditions Service) (t i now : Nat) : List (Entry Service) :=
  [⟨.send n, now, some (met.env i (.send n)).1⟩,
    ⟨.delay t, now + (met.env i (.send n)).2, some (.ok ())⟩]

/-- The calls of these rounds, when all of them fail. -/
def roundsLog (n : Notification) (met : Conditions Service) : Nat → Nat → List Nat → List (Entry Service)
  | _, _, [] => []
  | i, now, t :: ts => roundLog n met t i now ++ roundsLog n met (i + 2) (now + roundTook n met t i) ts

/-- What is left of a run from its `i`-th call on. -/
def remainder (n : Notification) (met : Conditions Service) (deadline i now : Nat) (ts : List Nat) :
    Execution Service (Except ServiceError Unit) :=
  (remaining n ts).runUntil deadline met.env i now

/-- How a round of a notification that nobody takes goes: it is dropped in its attempt or in
its pause, its timer fails, or the next round follows. -/
theorem remainder_cons {deadline i now t : Nat} {ts : List Nat}
    (h : ∀ entry ∈ (remainder n met deadline i now (t :: ts)).log, Undelivered entry.event) :
    (deadline < now + roundTook n met t i ∧ (remainder n met deadline i now (t :: ts)).result = none ∧
        ∀ entry ∈ (remainder n met deadline i now (t :: ts)).log, entry.call ≠ .publishError n) ∨
      ((met.env (i + 1) (.delay t)).1 ≠ .ok () ∧
        ∀ entry ∈ (remainder n met deadline i now (t :: ts)).log, entry.call ≠ .publishError n) ∨
      ((met.env (i + 1) (.delay t)).1 = .ok () ∧ now + roundTook n met t i ≤ deadline ∧
        remainder n met deadline i now (t :: ts) =
          ⟨roundLog n met t i now ++ (remainder n met deadline (i + 2) (now + roundTook n met t i) ts).log,
            (remainder n met deadline (i + 2) (now + roundTook n met t i) ts).result⟩) := by
  have hsum : now + roundTook n met t i =
      now + (met.env i (.send n)).2 + (met.env (i + 1) (.delay t)).2 := (Nat.add_assoc ..).symm
  rw [remainder, remaining_cons, runUntil_call] at h ⊢
  by_cases hsent : now + (met.env i (.send n)).2 ≤ deadline
  · rw [if_pos hsent] at h ⊢
    cases hanswer : (met.env i (.send n)).1 with
    | ok u =>
      have hfailed : (met.env i (.send n)).1.isOk = false := h _ List.mem_cons_self
      rw [hanswer] at hfailed
      cases hfailed
    | error e =>
      simp only [runUntil_call]
      by_cases hpaused : now + (met.env i (.send n)).2 + (met.env (i + 1) (.delay t)).2 ≤ deadline
      · rw [if_pos hpaused]
        cases hfired : (met.env (i + 1) (.delay t)).1 with
        | error e' => exact .inr (.inl ⟨nofun, by simp [runUntil]⟩)
        | ok u => exact .inr (.inr ⟨rfl, hsum ▸ hpaused, by simp [remainder, roundLog, hanswer, hsum]⟩)
      · rw [if_neg hpaused]
        exact .inl ⟨by omega, rfl, by simp⟩
  · rw [if_neg hsent]
    exact .inl ⟨by omega, rfl, by simp⟩

theorem remainder_nil (deadline i now : Nat) :
    remainder n met deadline i now [] =
      if now + (met.env i (.publishError n)).2 ≤ deadline then
        ⟨[⟨.publishError n, now, some (met.env i (.publishError n)).1⟩],
          some (.ok (), now + (met.env i (.publishError n)).2)⟩
      else ⟨[⟨.publishError n, now, none⟩], none⟩ := by
  rw [remainder, remaining_nil, runUntil_call]
  rfl

/-- How long rounds and the publication take. -/
def remainderTook (n : Notification) (met : Conditions Service) (i : Nat) (ts : List Nat) : Nat :=
  roundsTook n met i ts + (met.env (i + 2 * ts.length) (.publishError n)).2

theorem remainderTook_cons (i t : Nat) (ts : List Nat) :
    remainderTook n met i (t :: ts) = roundTook n met t i + remainderTook n met (i + 2) ts := by
  have hindex : i + 2 * (t :: ts).length = i + 2 + 2 * ts.length := by
    rw [List.length_cons]
    omega
  rw [remainderTook, hindex, remainderTook, roundsTook, roundTook]
  omega

/-- When it comes to a publication, every timer has fired, and all of that was in time. -/
theorem fires_of_published {deadline i now start : Nat} {ts : List Nat}
    {answer : ServiceAnswer (.publishError n)}
    (h : ∀ entry ∈ (remainder n met deadline i now ts).log, Undelivered entry.event)
    (hmem : ⟨.publishError n, start, some answer⟩ ∈ (remainder n met deadline i now ts).log) :
    Fires met i ts ∧ now + remainderTook n met i ts ≤ deadline := by
  induction ts generalizing i now with
  | nil =>
    rw [remainder_nil] at hmem
    by_cases hin : now + (met.env i (.publishError n)).2 ≤ deadline
    · refine ⟨trivial, ?_⟩
      rw [remainderTook, roundsTook, Nat.zero_add]
      exact hin
    · rw [if_neg hin] at hmem
      cases List.mem_singleton.mp hmem
  | cons t ts ih =>
    rcases remainder_cons h with ⟨-, -, hnone⟩ | ⟨-, hnone⟩ | ⟨hfired, -, hrest⟩
    · exact (hnone _ hmem rfl).elim
    · exact (hnone _ hmem rfl).elim
    · rw [hrest] at h hmem
      have hlater : ⟨.publishError n, start, some answer⟩ ∈
          (remainder n met deadline (i + 2) (now + roundTook n met t i) ts).log := by
        rcases List.mem_append.mp hmem with hround | hlater
        · simp [roundLog] at hround
        · exact hlater
      obtain ⟨hfires, hin⟩ := ih (fun entry he => h entry (List.mem_append_right _ he)) hlater
      refine ⟨⟨hfired, hfires⟩, ?_⟩
      rw [remainderTook_cons, ← Nat.add_assoc]
      exact hin

/-- When every timer fires and there is time, the run makes all rounds and publishes. -/
theorem remainder_through {deadline i now : Nat} {ts : List Nat}
    (h : ∀ entry ∈ (remainder n met deadline i now ts).log, Undelivered entry.event)
    (hfires : Fires met i ts) (hin : now + remainderTook n met i ts ≤ deadline) :
    remainder n met deadline i now ts =
      ⟨roundsLog n met i now ts ++
          [⟨.publishError n, now + roundsTook n met i ts, some (.ok ())⟩],
        some (.ok (), now + remainderTook n met i ts)⟩ := by
  induction ts generalizing i now with
  | nil =>
    have htook : remainderTook n met i [] = (met.env i (.publishError n)).2 := Nat.zero_add _
    rw [htook] at hin ⊢
    rw [remainder_nil, if_pos hin] at h ⊢
    have hanswer : (met.env i (.publishError n)).1 = .ok () := h _ (List.mem_singleton.mpr rfl)
    rw [hanswer]
    rfl
  | cons t ts ih =>
    rw [remainderTook_cons, ← Nat.add_assoc] at hin
    rcases remainder_cons h with ⟨hlate, -, -⟩ | ⟨hfailed, -⟩ | ⟨-, -, hrest⟩
    · omega
    · exact (hfailed hfires.1).elim
    · have hlater := ih (fun entry he => h entry (by rw [hrest]; exact List.mem_append_right _ he))
        hfires.2 hin
      have htook : now + roundsTook n met i (t :: ts) =
          now + roundTook n met t i + roundsTook n met (i + 2) ts := (Nat.add_assoc ..).symm
      rw [hrest, hlater, remainderTook_cons, roundsLog, List.append_assoc, htook, ← Nat.add_assoc]

/-- When every timer fires and there is not enough time, the run is dropped. -/
theorem remainder_late {deadline i now : Nat} {ts : List Nat}
    (h : ∀ entry ∈ (remainder n met deadline i now ts).log, Undelivered entry.event)
    (hfires : Fires met i ts) (hlate : deadline < now + remainderTook n met i ts) :
    (remainder n met deadline i now ts).result = none := by
  induction ts generalizing i now with
  | nil =>
    have htook : remainderTook n met i [] = (met.env i (.publishError n)).2 := Nat.zero_add _
    rw [htook] at hlate
    rw [remainder_nil, if_neg (Nat.not_le.mpr hlate)]
  | cons t ts ih =>
    rw [remainderTook_cons, ← Nat.add_assoc] at hlate
    rcases remainder_cons h with ⟨-, hnone, -⟩ | ⟨hfailed, -⟩ | ⟨-, -, hrest⟩
    · exact hnone
    · exact (hfailed hfires.1).elim
    · rw [hrest] at h ⊢
      exact ih (fun entry he => h entry (List.mem_append_right _ he)) hfires.2 hlate

theorem attempts_roundsLog (i now : Nat) (ts : List Nat) :
    attempts (roundsLog n met i now ts) = ts.length := by
  induction ts generalizing i now with
  | nil => rfl
  | cons t ts ih =>
    have hround : attempts (roundLog n met t i now) = 1 := rfl
    rw [roundsLog, attempts_append, hround, ih, List.length_cons, Nat.add_comm]

/-- The last thing the rounds do is wait. -/
theorem roundsLog_last (i now t : Nat) (ts : List Nat) :
    ∃ first start, roundsLog n met i now (ts ++ [t]) = first ++ [⟨.delay t, start, some (.ok ())⟩] ∧
      start + (met.env (i + 2 * ts.length + 1) (.delay t)).2 =
        now + roundsTook n met i (ts ++ [t]) := by
  induction ts generalizing i now with
  | nil =>
    refine ⟨[⟨.send n, now, some (met.env i (.send n)).1⟩], now + (met.env i (.send n)).2, rfl, ?_⟩
    exact Nat.add_assoc ..
  | cons t' ts ih =>
    obtain ⟨first, start, hlog, hstart⟩ := ih (i + 2) (now + roundTook n met t' i)
    have hindex : i + 2 * (t' :: ts).length + 1 = i + 2 + 2 * ts.length + 1 := by
      rw [List.length_cons]
      omega
    refine ⟨roundLog n met t' i now ++ first, start, ?_, ?_⟩
    · rw [List.cons_append, roundsLog, hlog, List.append_assoc]
    · rw [hindex, hstart]
      exact Nat.add_assoc ..

/-- How long the last pause takes, which comes after 21 calls. -/
def lastPauseTook (met : Conditions Service) : Nat := (met.env 21 (.delay 2048)).2

end Schedule

/-- One handling made the whole schedule: eleven attempts, the last pause to its
end, then the publication, and it ended well. -/
structure Parked (sub : Subscription Service) (n : Notification) (data : Bytes)
    (met : Conditions Service) : Prop where
  eleven : attempts (sub.handling data met).log = 11
  published : ∃ first start, (sub.handling data met).log =
    first ++ [⟨.delay 2048, start, some (.ok ())⟩,
      ⟨.publishError n, start + lastPauseTook met, some (.ok ())⟩]
  succeeds : sub.succeeds data met = true

section Handling
variable {json : SerdeJson} {q : Outbox} {timeout : Nat} {data : Bytes} {n : Notification}
  {met : Conditions Service}

theorem handling_deliver (hparse : q.parse json data = .ok n) :
    (callSubscription json q timeout).handling data met =
      (callNotificator.deliver n).runUntil (met.deadline timeout) met.env 0 0 := by
  have hmessage : callNotificator.handleMessage json data q.name = callNotificator.deliver n := by
    rw [Notificator.handleMessage_outbox, hparse]
    rfl
  show (callNotificator.handleMessage json data q.name).runUntil (met.deadline timeout) _ 0 0 = _
  rw [hmessage]

theorem handling_remainder (hparse : q.parse json data = .ok n) :
    (callSubscription json q timeout).handling data met =
      remainder n met (met.deadline timeout) 0 0 delays := by
  rw [handling_deliver hparse, deliver_eq_remaining, remainder]

theorem undelivered_remainder (hparse : q.parse json data = .ok n)
    (h : ∀ e ∈ (callSubscription json q timeout).events data met, Undelivered e) :
    ∀ entry ∈ (remainder n met (met.deadline timeout) 0 0 delays).log, Undelivered entry.event := by
  rw [Subscription.events, handling_remainder hparse] at h
  exact fun entry hmem => h entry.event (List.mem_map_of_mem hmem)

/-- A handling parks its notification exactly when it is in time. -/
theorem parked_iff (hparse : q.parse json data = .ok n)
    (h : ∀ e ∈ (callSubscription json q timeout).events data met, Undelivered e) :
    Parked (callSubscription json q timeout) n data met ↔ InTime n timeout met := by
  have hrest := undelivered_remainder hparse h
  constructor
  · rintro ⟨-, ⟨first, start, hlog⟩, -⟩
    rw [handling_remainder hparse] at hlog
    have hmem : ⟨.publishError n, start + lastPauseTook met, some (.ok ())⟩ ∈
        (remainder n met (met.deadline timeout) 0 0 delays).log := by
      rw [hlog]
      exact List.mem_append_right _ (List.mem_cons_of_mem _ (List.mem_singleton.mpr rfl))
    obtain ⟨hfires, hroom⟩ := fires_of_published hrest hmem
    rw [Nat.zero_add] at hroom
    exact ⟨hfires, hroom⟩
  · rintro ⟨hfires, hroom⟩
    have hthrough := remainder_through hrest hfires (by rw [Nat.zero_add]; exact hroom)
    rw [← handling_remainder hparse] at hthrough
    refine ⟨?_, ?_, ?_⟩
    · rw [hthrough, attempts_append, attempts_roundsLog]
      rfl
    · obtain ⟨first, start, hlog, hstart⟩ :=
        @roundsLog_last n met 0 0 2048 [2, 4, 8, 16, 32, 64, 128, 256, 512, 1024]
      refine ⟨first, start, ?_⟩
      rw [hthrough]
      change roundsLog n met 0 0 delays = _ at hlog
      change start + lastPauseTook met = 0 + roundsTook n met 0 delays at hstart
      rw [hlog, hstart, List.append_assoc]
      rfl
    · rw [Subscription.succeeds, hthrough]

/-- Without time for it, a handling whose timers fire does not end well. -/
theorem not_succeeds_late (hparse : q.parse json data = .ok n)
    (h : ∀ e ∈ (callSubscription json q timeout).events data met, Undelivered e)
    (hfires : Fires met 0 delays) (hlate : met.deadline timeout < scheduleTook n met) :
    (callSubscription json q timeout).succeeds data met = false := by
  have hdropped := remainder_late (undelivered_remainder hparse h) hfires
    (by rw [Nat.zero_add]; exact hlate)
  rw [Subscription.succeeds, handling_remainder hparse, hdropped]

/-- The first thing a handling does is an attempt. -/
theorem attempts_pos (n : Notification) (deadline : Nat) (env : Env Service) :
    0 < attempts ((callNotificator.deliver n).runUntil deadline env 0 0).log := by
  rw [deliver_eq_remaining, delays, remaining_cons, runUntil_call]
  split
  · exact List.countP_pos_iff.mpr ⟨_, List.mem_cons_self, rfl⟩
  · exact List.countP_pos_iff.mpr ⟨_, List.mem_cons_self, rfl⟩

end Handling

/-! ## A whole run -/

section Run
variable {ι : Type}

/-- The handlings of a message that have ended. -/
def handlingsOf (m : Message) (handled : List (Delivery × ι)) : List (Delivery × ι) :=
  handled.filter fun h => h.1.message = m

theorem mem_handlingsOf {m : Message} {handled : List (Delivery × ι)} {h : Delivery × ι} :
    h ∈ handlingsOf m handled ↔ h ∈ handled ∧ h.1.message = m := by
  simp [handlingsOf]

/-- A message that is given back has been handled once more. -/
theorem handlingsOf_givenBackTimes (s : System ι) (m : Message) (met : ι) (k : Nat) :
    ∃ more, handlingsOf m (s.givenBackTimes m met k).consumer.handled =
        handlingsOf m s.consumer.handled ++ more ∧ more.map Prod.snd = List.replicate k met := by
  induction k with
  | zero => exact ⟨[], (List.append_nil _).symm, rfl⟩
  | succ k ih =>
    obtain ⟨more, hmore, hmet⟩ := ih
    let d : Delivery := ⟨(s.givenBackTimes m met k).broker.delivered + 1, m⟩
    refine ⟨more ++ [(d, met)], ?_, ?_⟩
    · rw [← List.append_assoc, ← hmore]
      simp [System.givenBackTimes, System.givenBack, handlingsOf, d]
    · rw [List.map_append, hmet, List.replicate_succ']
      rfl

/-- When all handlings of a message went well there was at most one. -/
theorem handlingsOf_length {ok : Bytes → ι → Bool} {s : System ι} (hf : s.Finished ok) {m : Message}
    (hok : ∀ h ∈ handlingsOf m s.consumer.handled, ok m.data h.2 = true) :
    (handlingsOf m s.consumer.handled).length ≤ 1 := by
  have honce : (handlingsOf m s.consumer.handled).Pairwise fun a b =>
      a.1.message = b.1.message → ok a.1.message.data a.2 = false :=
    hf.once.sublist List.filter_sublist
  match hlist : handlingsOf m s.consumer.handled with
  | [] => exact Nat.zero_le 1
  | [h] => exact Nat.le_refl 1
  | h :: h' :: rest =>
    rw [hlist] at honce hok
    have hm : ∀ g ∈ h :: h' :: rest, g.1.message = m := by
      rw [← hlist]
      exact fun g hg => (mem_handlingsOf.mp hg).2
    have hfirst := hm h List.mem_cons_self
    have hsecond := hm h' (List.mem_cons_of_mem _ List.mem_cons_self)
    have hfalse := List.rel_of_pairwise_cons honce List.mem_cons_self
      (hfirst.trans hsecond.symm)
    rw [hfirst, hok h List.mem_cons_self] at hfalse
    cases hfalse

end Run

/-- The attempts for a message, over all its handlings. -/
def attemptsOf (sub : Subscription Service) (m : Message) (s : System (Conditions Service)) : Nat :=
  ((handlingsOf m s.consumer.handled).map fun h => attempts (sub.handling m.data h.2).log).sum

/-- In this state the message has been attempted eleven times at most, over all its
deliveries; each of its handlings parked it; it was never given back, and is not
handled again. -/
structure ParkedOnce (sub : Subscription Service) (n : Notification) (m : Message)
    (s : System (Conditions Service)) : Prop where
  attempts_le : attemptsOf sub m s ≤ 11
  parked : ∀ h ∈ handlingsOf m s.consumer.handled, Parked sub n m.data h.2
  acked : ∀ h ∈ handlingsOf m s.consumer.handled, m ∈ s.broker.acked ∨ s.Acking h.1
  never_requeued : ∀ d frame, (d, frame) ∈ s.consumer.sent → d.message = m →
    frame = .basicAck d.deliveryTag false
  never_again : ∀ h ∈ handlingsOf m s.consumer.handled, ∀ d, s.consumer.phase = .handling d →
    d.message ≠ m

namespace System
variable {json : SerdeJson} {q : Outbox} {timeout : Nat} {contents : List Bytes}
  {labels : List (SystemEvent (Conditions Service))} {s : System (Conditions Service)}

/-- Handlings that all park their message park it once. -/
theorem parkedOnce_of_parked {sub : Subscription Service} {n : Notification} {m : Message}
    (hs : Sound sub.succeeds s) (hf : s.Finished sub.succeeds)
    (hparked : ∀ h ∈ handlingsOf m s.consumer.handled, Parked sub n m.data h.2) :
    ParkedOnce sub n m s := by
  have hhandled : ∀ h ∈ handlingsOf m s.consumer.handled,
      h.1.message = m ∧ Handled sub.succeeds s.consumer.handled h.1 true := by
    intro h hmem
    obtain ⟨hin, hm⟩ := mem_handlingsOf.mp hmem
    refine ⟨hm, h.2, hin, ?_⟩
    rw [hm]
    exact (hparked h hmem).succeeds
  refine ⟨?_, hparked, ?_, ?_, ?_⟩
  · have hlength := handlingsOf_length hf fun h hmem => (hparked h hmem).succeeds
    unfold attemptsOf
    match hlist : handlingsOf m s.consumer.handled with
    | [] => exact Nat.zero_le 11
    | [h] =>
      have heleven := (hparked h (by rw [hlist]; exact List.mem_cons_self)).eleven
      rw [List.map_singleton, List.sum_singleton, heleven]
    | _ :: _ :: rest =>
      rw [hlist] at hlength
      exact absurd hlength (by simp)
  · intro h hmem
    obtain ⟨hm, hok⟩ := hhandled h hmem
    rw [← hm]
    exact hf.placed h.1 hok
  · rintro d frame hmem rfl
    cases hs.justifying.sent d frame hmem with
    | ack _ => rfl
    | nack hfailed =>
      obtain ⟨met, hin, hno⟩ := hfailed
      have hyes := (hparked (d, met) (mem_handlingsOf.mpr ⟨hin, rfl⟩)).succeeds
      rw [hno] at hyes
      cases hyes
  · rintro h hmem d hphase rfl
    obtain ⟨hm, hok⟩ := hhandled h hmem
    have hacked := hf.acked hs hphase hok
    have hworks := hs.shape.works (d := d) (by rw [hphase]; rfl)
    rw [hm] at hacked
    exact hs.accounted.outstanding_not_acked hworks.1 hacked

/-- In every reachable state, a message that nobody takes is parked once exactly when the
timers of each of its handlings so far fired, with time for the whole schedule. -/
theorem parkedOnce_iff
    (hrun : (machine (callSubscription json q timeout).succeeds contents).Reaches labels s)
    {m : Message} {n : Notification} (hparse : q.parse json m.data = .ok n)
    (hfail : ∀ h ∈ handlingsOf m s.consumer.handled,
      ∀ e ∈ (callSubscription json q timeout).events m.data h.2, Undelivered e) :
    ParkedOnce (callSubscription json q timeout) n m s ↔
      ∀ h ∈ handlingsOf m s.consumer.handled, InTime n timeout h.2 := by
  obtain ⟨hs, hf⟩ := reaches_finished hrun
  constructor
  · intro hparked h hmem
    exact (parked_iff hparse (hfail h hmem)).mp (hparked.parked h hmem)
  · intro hin
    exact parkedOnce_of_parked hs hf fun h hmem =>
      (parked_iff hparse (hfail h hmem)).mpr (hin h hmem)

end System

theorem start_ready (m : Message) (h : m.position = 0) :
    (System.start [m.data] : System (Conditions Service)).broker.ready = [m] := by
  obtain ⟨position, data⟩ := m
  cases h
  rfl

/-- When the timers fire and the schedule does not fit there is no bound: the message is
attempted any number of times. -/
theorem attempts_unbounded {json : SerdeJson} {q : Outbox} {timeout : Nat} {m : Message}
    {n : Notification} {met : Conditions Service} (hm : m.position = 0)
    (hparse : q.parse json m.data = .ok n)
    (h : ∀ e ∈ (callSubscription json q timeout).events m.data met, Undelivered e)
    (hfires : Fires met 0 delays) (hcut : met.deadline timeout < scheduleTook n met) (k : Nat) :
    ∃ labels s, (System.machine (callSubscription json q timeout).succeeds [m.data]).Reaches labels s ∧
      (∀ h ∈ handlingsOf m s.consumer.handled, h.2 = met) ∧
      k ≤ attemptsOf (callSubscription json q timeout) m s := by
  have hno : (callSubscription json q timeout).succeeds m.data met = false :=
    not_succeeds_late hparse h hfires hcut
  obtain ⟨more, hmore, hmet⟩ := handlingsOf_givenBackTimes (System.start [m.data]) m met k
  have hrun := System.runFrom_givenBackTimes [m.data] (System.idle_start [m.data])
    (start_ready m hm) (fun _ hin => (List.not_mem_nil hin).elim) hno k
  have hall : ∀ h ∈ more, h.2 = met := fun h hin =>
    List.eq_of_mem_replicate (hmet ▸ List.mem_map_of_mem hin)
  have hlength : more.length = k := by
    rw [← List.length_map (f := Prod.snd), hmet, List.length_replicate]
  have hone : ∀ h ∈ more, 1 ≤ attempts ((callSubscription json q timeout).handling m.data h.2).log := by
    intro h' hin
    rw [hall h' hin, handling_deliver hparse]
    exact attempts_pos n _ _
  refine ⟨_, _, hrun, ?_, ?_⟩
  · rw [hmore]
    exact hall
  · have hsum := List.length_le_sum_of_one_le (more.map fun h => attempts
      ((callSubscription json q timeout).handling m.data h.2).log)
      (List.forall_mem_map.mpr hone)
    rw [List.length_map, hlength] at hsum
    rw [attemptsOf, hmore]
    exact hsum

/-! ## Two timeouts -/

/-- Attempts fail at once, timers fire on time, publications succeed. -/
def refusing : Conditions Service where
  env _ c :=
    match c with
    | .send _ => (.error ⟨.internal, none⟩, 0)
    | .delay t => (.ok (), secs t)
    | .publishError _ => (.ok (), 0)
  timerFails := none

theorem undelivered_refusing (sub : Subscription Service) (data : Bytes) :
    ∀ e ∈ sub.events data refusing, Undelivered e := by
  intro e hmem
  obtain ⟨⟨call, start, answer⟩, hentry, rfl⟩ := List.mem_map.mp hmem
  cases answer with
  | none => cases call <;> exact trivial
  | some answer =>
    obtain ⟨j, hj⟩ := runUntil_answer _ _ _ _ _ _ hentry _ rfl
    cases call with
    | send n =>
      obtain rfl : .error ⟨.internal, none⟩ = answer := hj
      exact rfl
    | delay secs => exact trivial
    | publishError n => exact hj.symm

theorem fires_refusing : Fires refusing 0 delays := by
  simp only [Fires, delays, refusing, and_self]

def exampleMessage : Message := ⟨0, bytesOf exampleCallbackJson⟩

theorem exampleMessage_parse :
    Outbox.callbacks.parse exampleJson exampleMessage.data = .ok (.callback exampleCallback) := by
  have hfrom : exampleJson.callbackFromStr exampleCallbackJson = .ok exampleCallback := by
    simp only [exampleJson, if_true]
  rw [exampleMessage, Outbox.parse, parse_bytesOf, hfrom]
  rfl

/-- With 4094 seconds the schedule is made once. -/
theorem parkedOnce_example :
    ParkedOnce (callSubscription exampleJson .callbacks 4094) (.callback exampleCallback)
      exampleMessage
      ((System.start [exampleMessage.data]).taken exampleMessage [] refusing) := by
  have hin : InTime (.callback exampleCallback) 4094 refusing := ⟨fires_refusing, by decide⟩
  have hparked := (parked_iff exampleMessage_parse (undelivered_refusing _ _)).mpr hin
  have hrun := System.runFrom_taken [exampleMessage.data] (System.idle_start _)
    (start_ready exampleMessage rfl) hparked.succeeds
  have hmet : ∀ h ∈ handlingsOf exampleMessage
      ((System.start [exampleMessage.data]).taken exampleMessage [] refusing).consumer.handled,
      h.2 = refusing := by
    intro h hmem
    rw [List.mem_singleton.mp (mem_handlingsOf.mp hmem).1]
  refine (System.parkedOnce_iff hrun exampleMessage_parse fun h hmem => ?_).mpr fun h hmem => ?_
  · rw [hmet h hmem]
    exact undelivered_refusing _ _
  · rw [hmet h hmem]
    exact hin

/-- With the shipped 30 seconds a callback that nobody takes is attempted more than
eleven times. -/
theorem shipped_timeout_restarts_schedule :
    ∃ (labels : List (SystemEvent (Conditions Service))) (s : System (Conditions Service)),
      (System.machine (callSubscription exampleJson .callbacks
        exampleConfig.rabbit.restartSubscriptionSecs).succeeds [exampleMessage.data]).Reaches
        labels s ∧
      (∀ h ∈ handlingsOf exampleMessage s.consumer.handled, h.2 = refusing ∧
        ∀ e ∈ (callSubscription exampleJson .callbacks
          exampleConfig.rabbit.restartSubscriptionSecs).events exampleMessage.data h.2,
          Undelivered e) ∧
      ¬ ParkedOnce (callSubscription exampleJson .callbacks
        exampleConfig.rabbit.restartSubscriptionSecs) (.callback exampleCallback) exampleMessage s := by
  have hcut : refusing.deadline exampleConfig.rabbit.restartSubscriptionSecs <
      scheduleTook (.callback exampleCallback) refusing := by decide
  obtain ⟨labels, s, hrun, hmet, hmany⟩ := attempts_unbounded (m := exampleMessage) rfl
    exampleMessage_parse (undelivered_refusing _ _) fires_refusing hcut 12
  refine ⟨labels, s, hrun, fun h hmem => ⟨hmet h hmem, ?_⟩, fun hparked => ?_⟩
  · rw [hmet h hmem]
    exact undelivered_refusing _ _
  · exact absurd (Nat.le_trans hmany hparked.attempts_le) (by decide)

end PaymentsNotifications.Server
