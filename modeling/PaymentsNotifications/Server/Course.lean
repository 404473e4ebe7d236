import Mathlib.Algebra.BigOperators.Group.List.Basic
import Mathlib.Algebra.GroupWithZero.Nat
import PaymentsNotifications.Server.Handling

/-! The course of a handling, read off its events: rounds of a refused attempt and a
pause, then an accepted attempt, a timer that fails, or the publication to the error
queue. The retry loop takes exactly these courses, as far as there is time for their
pauses. Accepted and refused is what the client says: an attempt whose request cannot be
built is refused, and what the service meant by its answer does not count. -/

namespace PaymentsNotifications.Server
open Futures Futures.Fut Models Utils Transport External Client Services

namespace Process
variable (self : Process) (n : Notification)

/-- What an attempt leaves that fails for its client: its request, unless none was built. -/
inductive Refused : List (Event Wire) → Prop where
  | built {req : Request} {answer : Except HyperError Response} (hreq : self.request n = .ok req)
      (hno : self.accepts n answer = false) : Refused [⟨.http req, some answer⟩]
  | unbuilt {e : ClientError} (hreq : self.request n = .error e) : Refused []

/-- Rounds that fail, each to the end of its pause. -/
inductive Rounds : List Nat → List (Event Wire) → Prop where
  | nil : Rounds [] []
  | cons {secs : Nat} {rest : List Nat} {attempt l : List (Event Wire)}
      (h : self.Refused n attempt) (hrest : Rounds rest l) :
      Rounds (secs :: rest) (attempt ++ ⟨.delay secs, some (.ok ())⟩ :: l)

/-- The courses with these pauses still to come, and how they end. -/
inductive Course : List Nat → List (Event Wire) → Option (Except ServiceError Unit) → Prop where
  | round {secs : Nat} {rest : List Nat} {attempt l : List (Event Wire)}
      {o : Option (Except ServiceError Unit)} (h : self.Refused n attempt) (hrest : Course rest l o) :
      Course (secs :: rest) (attempt ++ ⟨.delay secs, some (.ok ())⟩ :: l) o
  | accepted {secs : Nat} {rest : List Nat} {req : Request} {answer : Except HyperError Response}
      (hreq : self.request n = .ok req) (hyes : self.accepts n answer = true) :
      Course (secs :: rest) [⟨.http req, some answer⟩] (some (.ok ()))
  | timerFailed {secs : Nat} {rest : List Nat} {attempt : List (Event Wire)}
      (h : self.Refused n attempt) (e : TimerError) :
      Course (secs :: rest) (attempt ++ [⟨.delay secs, some (.error e)⟩]) (some (.ok ()))
  | parked (answer : Except LapinError Unit) :
      Course [] [⟨self.parkCall n, some answer⟩] (some (.ok ()))
  | attemptDropped {secs : Nat} {rest : List Nat} {req : Request}
      (hreq : self.request n = .ok req) : Course (secs :: rest) [⟨.http req, none⟩] none
  | pauseDropped {secs : Nat} {rest : List Nat} {attempt : List (Event Wire)}
      (h : self.Refused n attempt) : Course (secs :: rest) (attempt ++ [⟨.delay secs, none⟩]) none
  | parkingDropped : Course [] [⟨self.parkCall n, none⟩] none

/-! ## The retry loop takes these courses, and no others -/

/-- The retry loop from the rounds over these pauses on. -/
def loop (pauses : List Nat) : Fut Wire (Except ServiceError Unit) :=
  (forEach (self.notificator.attempt (self.notificator.send n)) pauses)
    |>.andThen (fun _ => (self.notificator.park n).mapErr fun _ => ())
    |>.bind fun _ => .ready (.ok ())

theorem deliver_eq_loop : self.notificator.deliver n = self.loop n delays := rfl

/-- The pause of a round, and what comes after it. -/
def pause (secs : Nat) (rest : List Nat) : Fut Wire (Except ServiceError Unit) :=
  .call (.delay secs) fun
    | .ok _ => self.loop n rest
    | .error _ => .ready (.ok ())

theorem loop_nil : self.loop n [] = .call (self.parkCall n) fun _ => .ready (.ok ()) := by
  rw [loop, forEach, andThen, ready_bind, self.park_eq, mapErr, call_bind, call_bind]
  congr 1
  funext answer
  cases hp : Rabbit.publication answer <;> rfl

/-- The timer of a pause, within the loop. -/
def timer (secs : Nat) : Fut Wire (Except Unit Unit) :=
  .call (.delay secs) fun
    | .ok _ => .ready (.ok ())
    | .error _ => .ready (.error ())

theorem mapErr_delay (secs : Nat) : (self.notificator.delay secs).mapErr (fun _ => ()) = timer secs := by
  simp only [notificator, perform, mapErr, call_bind, ready_bind, timer]
  congr 1
  funext fired
  cases fired <;> rfl

theorem attempt_unbuilt {e : ClientError} (hreq : self.request n = .error e) (secs : Nat) :
    self.notificator.attempt (self.notificator.send n) secs = timer secs := by
  rw [Notificator.attempt, self.send_error hreq, mapErr, ready_bind, ready_bind]
  exact self.mapErr_delay secs

theorem attempt_built {req : Request} (hreq : self.request n = .ok req) (secs : Nat) :
    self.notificator.attempt (self.notificator.send n) secs = .call (.http req) fun answer =>
      if self.accepts n answer then .ready (.error ()) else timer secs := by
  rw [Notificator.attempt, self.send_ok hreq, mapErr, call_bind, call_bind]
  congr 1
  funext answer
  unfold accepts
  cases verdict self.client (self.consume n) answer with
  | ok u => rfl
  | error e => exact self.mapErr_delay secs

theorem loop_unbuilt {e : ClientError} (hreq : self.request n = .error e) (secs : Nat)
    (rest : List Nat) : self.loop n (secs :: rest) = self.pause n secs rest := by
  rw [loop, forEach, self.attempt_unbuilt n hreq, timer, pause]
  simp only [andThen, call_bind]
  congr 1
  funext fired
  cases fired <;> rfl

theorem loop_built {req : Request} (hreq : self.request n = .ok req) (secs : Nat)
    (rest : List Nat) : self.loop n (secs :: rest) = .call (.http req) fun answer =>
      if self.accepts n answer then .ready (.ok ()) else self.pause n secs rest := by
  rw [loop, forEach, self.attempt_built n hreq]
  simp only [andThen, call_bind]
  congr 1
  funext answer
  cases self.accepts n answer with
  | true => rfl
  | false =>
    simp only [Bool.false_eq_true, if_false, timer, pause, call_bind]
    congr 1
    funext fired
    cases fired <;> rfl

variable {self n} {l : List (Event Wire)} {o : Option (Except ServiceError Unit)}

/-- A pause, after an attempt that was refused. -/
theorem course_pause {secs : Nat} {rest : List Nat} {attempt : List (Event Wire)}
    (hrest : ∀ {l o}, Trace (self.loop n rest) l o → self.Course n rest l o)
    (h : self.Refused n attempt) (htrace : Trace (self.pause n secs rest) l o) :
    self.Course n (secs :: rest) (attempt ++ l) o := by
  rcases trace_call.mp htrace with ⟨rfl, rfl⟩ | ⟨fired, l', rfl, hnext⟩
  · exact .pauseDropped h
  · cases fired with
    | ok u => exact .round h (hrest hnext)
    | error e =>
      obtain ⟨rfl, rfl⟩ := trace_ready.mp hnext
      exact .timerFailed h e

theorem course_of_trace {pauses : List Nat} (h : Trace (self.loop n pauses) l o) :
    self.Course n pauses l o := by
  induction pauses generalizing l o with
  | nil =>
    rw [loop_nil] at h
    rcases trace_call.mp h with ⟨rfl, rfl⟩ | ⟨answer, l', rfl, hnext⟩
    · exact .parkingDropped
    · obtain ⟨rfl, rfl⟩ := trace_ready.mp hnext
      exact .parked answer
  | cons secs rest ih =>
    cases hreq : self.request n with
    | error e =>
      rw [loop_unbuilt _ _ hreq] at h
      exact course_pause ih (.unbuilt hreq) h
    | ok req =>
      rw [loop_built _ _ hreq] at h
      rcases trace_call.mp h with ⟨rfl, rfl⟩ | ⟨answer, l', rfl, hnext⟩
      · exact .attemptDropped hreq
      · cases hyes : self.accepts n answer with
        | true =>
          rw [hyes, if_pos rfl] at hnext
          obtain ⟨rfl, rfl⟩ := trace_ready.mp hnext
          exact .accepted hreq hyes
        | false =>
          rw [hyes, if_neg Bool.false_ne_true] at hnext
          exact course_pause ih (.built hreq hyes) hnext

/-- A round of the loop, from its pause on. -/
theorem trace_round {secs : Nat} {rest : List Nat} {attempt : List (Event Wire)}
    (h : self.Refused n attempt) (htrace : Trace (self.pause n secs rest) l o) :
    Trace (self.loop n (secs :: rest)) (attempt ++ l) o := by
  cases h with
  | built hreq hno =>
    rw [loop_built _ _ hreq]
    refine .answered _ ?_
    rw [hno, if_neg Bool.false_ne_true]
    exact htrace
  | unbuilt hreq =>
    rw [loop_unbuilt _ _ hreq]
    exact htrace

theorem Course.trace {pauses : List Nat} (h : self.Course n pauses l o) :
    Trace (self.loop n pauses) l o := by
  induction h with
  | round h _ ih => exact trace_round h (.answered _ ih)
  | accepted hreq hyes =>
    rw [loop_built _ _ hreq]
    refine .answered _ ?_
    rw [hyes, if_pos rfl]
    exact .ready _
  | timerFailed h e => exact trace_round h (.answered _ (.ready _))
  | parked answer =>
    rw [loop_nil]
    exact .answered _ (.ready _)
  | attemptDropped hreq =>
    rw [loop_built _ _ hreq]
    exact .dropped _ _
  | pauseDropped h => exact trace_round h (.dropped _ _)
  | parkingDropped =>
    rw [loop_nil]
    exact .dropped _ _

/-! ## The handlings of a message -/

theorem handling_loop {q : Outbox} {data : Bytes} (hparse : q.parse self.crates.json data = .ok n)
    (met : Conditions Wire) :
    (self.subscription q).handling data met = (self.loop n delays).runUntil
      (met.deadline self.config.rabbit.restartSubscriptionSecs) met.env 0 0 := by
  have hfut := self.notificator.handleMessage_outbox self.crates.json data q
  rw [hparse] at hfut
  rw [← deliver_eq_loop]
  exact congrArg (·.runUntil (met.deadline self.config.rabbit.restartSubscriptionSecs) met.env 0 0) hfut

theorem handling_course {q : Outbox} {data : Bytes} (hparse : q.parse self.crates.json data = .ok n)
    (met : Conditions Wire) :
    self.Course n delays ((self.subscription q).events data met)
      (((self.subscription q).handling data met).result.map Prod.fst) := by
  rw [Subscription.events, handling_loop hparse]
  exact course_of_trace (trace_runUntil _ _ _ _ _)

/-- Nothing answers and no timer fires. -/
def silent : Env Wire := fun _ c => match c with
  | .http _ => (.error .transport, 0)
  | .delay _ => (.error .shutdown, 0)
  | .basicPublish _ _ _ => (.error .io, 0)

theorem silent_takes : silent.Takes leastTime := by
  intro i c
  cases c <;> exact Nat.le_refl 0

/-- When no timer fires early, there is time for the pauses of a handling. -/
theorem spent_events {q : Outbox} {data : Bytes} {met : Conditions Wire}
    (hmet : met.env.Takes leastTime) : spent leastTime ((self.subscription q).events data met) ≤
      secs self.config.rabbit.restartSubscriptionSecs := by
  have hspent := spent_runUntil hmet 0
    (self.notificator.handleMessage self.crates.json data q.name)
    (Nat.zero_le (met.deadline self.config.rabbit.restartSubscriptionSecs))
  rw [Nat.zero_add] at hspent
  exact Nat.le_trans hspent (met.deadline_le _)

/-- When no timer fires early, the handlings of a message take exactly the courses with all
eleven pauses to come whose pauses fit in the timeout, as far as they are made. -/
theorem handling_course_iff {q : Outbox} {data : Bytes}
    (hparse : q.parse self.crates.json data = .ok n) :
    (∃ met : Conditions Wire, met.env.Takes leastTime ∧
      (self.subscription q).events data met = l ∧
      ((self.subscription q).handling data met).result.map Prod.fst = o) ↔
    self.Course n delays l o ∧
      spent leastTime l ≤ secs self.config.rabbit.restartSubscriptionSecs := by
  constructor
  · rintro ⟨met, hmet, rfl, rfl⟩
    exact ⟨handling_course hparse met, spent_events hmet⟩
  · rintro ⟨h, hfits⟩
    obtain ⟨env, htakes, hlog, hresult⟩ := (exists_runUntil_iff silent_takes
      (secs self.config.rabbit.restartSubscriptionSecs)).mpr ⟨h.trace, hfits⟩
    refine ⟨⟨env, none⟩, htakes, ?_, ?_⟩
    · rw [Subscription.events, handling_loop hparse]
      exact hlog
    · rw [handling_loop hparse]
      exact hresult

/-! ## What every course has in common -/

theorem Refused.spent {attempt : List (Event Wire)} (h : self.Refused n attempt) :
    spent leastTime attempt = 0 := by
  cases h <;> rfl

/-- Parked is only what was refused in every round. -/
theorem Course.parked_last {pauses : List Nat} (h : self.Course n pauses l o)
    {e : Event Wire} (hmem : e ∈ l) (hpark : e.call = self.parkCall n) :
    ∃ rounds answer, self.Rounds n pauses rounds ∧ l = rounds ++ [⟨self.parkCall n, answer⟩] := by
  have hattempt : ∀ {attempt}, self.Refused n attempt → e ∉ attempt := by
    intro attempt hrefused hmem
    cases hrefused with
    | built =>
      rw [List.mem_singleton.mp hmem] at hpark
      cases hpark
    | unbuilt => exact List.not_mem_nil hmem
  have hpause : ∀ {attempt secs answer}, self.Refused n attempt →
      e ∉ attempt ++ [⟨.delay secs, answer⟩] := by
    intro attempt secs answer hrefused hmem
    rcases List.mem_append.mp hmem with hfirst | hlast
    · exact hattempt hrefused hfirst
    · rw [List.mem_singleton.mp hlast] at hpark
      cases hpark
  induction h with
  | @round secs rest attempt l o hrefused _ ih =>
    rcases List.mem_append.mp hmem with hfirst | hrest
    · exact (hattempt hrefused hfirst).elim
    · rcases List.mem_cons.mp hrest with hlast | hrest
      · rw [hlast] at hpark
        cases hpark
      · obtain ⟨rounds, answer, hrounds, rfl⟩ := ih hrest
        refine ⟨_, answer, .cons hrefused hrounds, ?_⟩
        simp only [List.append_assoc, List.cons_append]
  | accepted =>
    rw [List.mem_singleton.mp hmem] at hpark
    cases hpark
  | timerFailed hrefused => exact (hpause hrefused hmem).elim
  | parked answer => exact ⟨[], some answer, .nil, rfl⟩
  | attemptDropped =>
    rw [List.mem_singleton.mp hmem] at hpark
    cases hpark
  | pauseDropped hrefused => exact (hpause hrefused hmem).elim
  | parkingDropped => exact ⟨[], none, .nil, rfl⟩

/-- Rounds take the time of their pauses. -/
theorem Rounds.spent {pauses : List Nat} (h : self.Rounds n pauses l) :
    spent leastTime l = secs pauses.sum := by
  induction h with
  | nil => rfl
  | cons hrefused _ ih =>
    rw [spent_append, spent_cons, ih, hrefused.spent, List.sum_cons]
    show 0 + (secs _ + secs _) = _
    unfold secs
    omega

/-- A handling parks its notification at the end, after eleven attempts that failed for its
client, or could not even be made, each with its pause. -/
theorem parked_after_rounds {q : Outbox} {data : Bytes}
    (hparse : q.parse self.crates.json data = .ok n) (met : Conditions Wire)
    (hparked : ∃ e ∈ (self.subscription q).events data met, e.call = self.parkCall n) :
    ∃ rounds answer, self.Rounds n delays rounds ∧
      (self.subscription q).events data met = rounds ++ [⟨self.parkCall n, answer⟩] := by
  obtain ⟨e, hmem, hpark⟩ := hparked
  exact (handling_course hparse met).parked_last hmem hpark

/-- When no timer fires early, nothing is parked with a timeout below 4094 seconds. -/
theorem parked_timeout_ge {q : Outbox} {data : Bytes}
    (hparse : q.parse self.crates.json data = .ok n) {met : Conditions Wire}
    (hmet : met.env.Takes leastTime)
    (hparked : ∃ e ∈ (self.subscription q).events data met, e.call = self.parkCall n) :
    4094 ≤ self.config.rabbit.restartSubscriptionSecs := by
  obtain ⟨e, hmem, hpark⟩ := hparked
  obtain ⟨rounds, answer, hrounds, hevents⟩ := (handling_course hparse met).parked_last hmem hpark
  have hspent := @spent_events self q data met hmet
  have hsum : delays.sum = 4094 := rfl
  rw [hevents, spent_append, hrounds.spent, hsum] at hspent
  unfold secs at hspent
  omega

/-- An event that decides about the notification for its client: an attempt that it
accepts, or a publication that is confirmed. -/
def resolves (self : Process) (n : Notification) : Event Wire → Bool
  | ⟨.http _, some answer⟩ => self.accepts n answer
  | ⟨.basicPublish _ _ _, some (.ok _)⟩ => true
  | _ => false

theorem Refused.resolves {attempt : List (Event Wire)} (h : self.Refused n attempt) :
    attempt.countP (self.resolves n) = 0 := by
  cases h with
  | built hreq hno => rw [List.countP_singleton, Process.resolves, hno]; rfl
  | unbuilt => rfl

/-- A course decides at most once, and then it ends well. -/
theorem Course.resolves {pauses : List Nat} (h : self.Course n pauses l o) :
    l.countP (self.resolves n) ≤ if o = some (.ok ()) then 1 else 0 := by
  have hpause : ∀ {secs answer}, self.resolves n ⟨.delay secs, answer⟩ = false := fun {_ _} => rfl
  induction h with
  | round hrefused _ ih =>
    rw [List.countP_append, hrefused.resolves, List.countP_cons_of_neg (by simp [hpause]), Nat.zero_add]
    exact ih
  | accepted => exact List.countP_le_length
  | timerFailed hrefused =>
    rw [List.countP_append, hrefused.resolves, List.countP_singleton, hpause]
    exact Nat.zero_le _
  | parked => exact List.countP_le_length
  | attemptDropped => exact Nat.le_refl 0
  | pauseDropped hrefused =>
    rw [List.countP_append, hrefused.resolves, List.countP_singleton, hpause]
    exact Nat.le_refl 0
  | parkingDropped => exact Nat.le_refl 0

theorem exampleEmail_parse :
    Outbox.emails.parse exampleProcess.crates.json (bytesOf exampleEmailJson) =
      .ok (.email exampleEmail) := by
  have hfrom : exampleProcess.crates.json.emailFromStr exampleEmailJson = .ok exampleEmail := by
    simp only [exampleProcess, exampleJson, if_true]
  rw [Outbox.parse, parse_bytesOf, hfrom]
  rfl

/-- Some handling of the email is dropped in its first attempt, and with thirty seconds for
it none parks it. -/
theorem handling_course_iff_example :
    ∃ req, exampleProcess.request (.email exampleEmail) = .ok req ∧
      (∃ met : Conditions Wire, met.env.Takes leastTime ∧
        (exampleProcess.subscription .emails).events (bytesOf exampleEmailJson) met =
          [⟨.http req, none⟩] ∧
        ((exampleProcess.subscription .emails).handling (bytesOf exampleEmailJson) met).result.map
          Prod.fst = none) ∧
      ∀ met : Conditions Wire, met.env.Takes leastTime →
        ¬ ∃ e ∈ (exampleProcess.subscription .emails).events (bytesOf exampleEmailJson) met,
          e.call = exampleProcess.parkCall (.email exampleEmail) := by
  obtain ⟨req, hreq⟩ : ∃ req, exampleProcess.request (.email exampleEmail) = .ok req := ⟨_, rfl⟩
  refine ⟨req, hreq, (handling_course_iff exampleEmail_parse).mpr
    ⟨.attemptDropped hreq, Nat.zero_le _⟩, fun met hmet hparked => ?_⟩
  exact absurd (parked_timeout_ge exampleEmail_parse hmet hparked) (by decide)

/-- With 4094 seconds, and a mail service that answers 500 to every attempt. -/
theorem parked_after_rounds_example :
    ∃ rounds answer, patientProcess.Rounds (.email exampleEmail) delays rounds ∧
      (patientProcess.subscription .emails).events (bytesOf exampleEmailJson)
          ⟨answering ⟨⟨500⟩, Body.from []⟩, none⟩ =
        rounds ++ [⟨patientProcess.parkCall (.email exampleEmail), answer⟩] := by
  have hany : ((patientProcess.subscription .emails).events (bytesOf exampleEmailJson)
      ⟨answering ⟨⟨500⟩, Body.from []⟩, none⟩).any
        (fun e => decide (e.call = patientProcess.parkCall (.email exampleEmail))) = true := by
    decide
  obtain ⟨e, hmem, hpark⟩ := List.any_eq_true.mp hany
  have hparse : Outbox.emails.parse patientProcess.crates.json (bytesOf exampleEmailJson) =
      .ok (.email exampleEmail) := exampleEmail_parse
  exact parked_after_rounds hparse _ ⟨e, hmem, of_decide_eq_true hpark⟩

end Process

end PaymentsNotifications.Server
