import PaymentsNotifications.Lib.Backoff
import PaymentsNotifications.Server.Parking

/-! When things happen in a handling. With working timers and a prompt publisher, the
retry stream under its timeout is a plan of eleven attempts with doubling pauses,
followed by the publication. -/

namespace PaymentsNotifications.Server
open Futures Futures.Fut Models Utils Transport External Services

/-- Timers fire on time and the publisher answers at once. Outcomes and durations of
the attempts are left open. -/
structure Punctual (n : Notification) (met : Conditions Service) : Prop where
  timers : ∀ i t, met.env i (.delay t) = (.ok (), secs t)
  publisher : ∀ i, (met.env i (.publishError n)).2 = 0
  timeout : met.timerFails = none

/-- The attempts a handling meets, as calls `0, 2, 4, ..` of its run. -/
def backoff (n : Notification) (met : Conditions Service) : Backoff where
  failed k := !(met.env (2 * k) (.send n)).1.isOk
  took k := (met.env (2 * k) (.send n)).2
  pause k := secs (2 ^ (k + 1))

def Entry.begun (entry : Entry Service) : Option (Notification × Nat) :=
  match entry.call with
  | .send n => some (n, entry.start)
  | _ => none

def Entry.publication (entry : Entry Service) : Option (Notification × Nat) :=
  match entry.call with
  | .publishError n => some (n, entry.start)
  | _ => none

/-- The attempts of a run: what is sent, and when the attempt begins. -/
def begun (log : List (Entry Service)) : List (Notification × Nat) := log.filterMap Entry.begun

/-- What a run hands to the error publisher, and when. -/
def publications (log : List (Entry Service)) : List (Notification × Nat) :=
  log.filterMap Entry.publication

/-! ## The rest of a handling -/

/-- The pauses after `k` attempts, when `m` of them are left. -/
def pausesFrom (k m : Nat) : List Nat := (List.range' k m).map fun j => 2 ^ (j + 1)

theorem delays_eq : delays = pausesFrom 0 11 := by decide

/-- The run makes the steps of the plan, and the publication comes last. -/
structure Follows (n : Notification) (p : Backoff.Plan)
    (run : Execution Service (Except ServiceError Unit)) : Prop where
  begun : begun run.log = p.starts.map fun t => (n, t)
  publications : publications run.log = p.givesUp.toList.map fun t => (n, t)
  last : ∀ t, p.givesUp = some t →
    ∃ before answer, run.log = before ++ [⟨.publishError n, t, answer⟩]
  result : run.result = p.done.map fun t => (.ok (), t)

section
variable {n : Notification} {met : Conditions Service}

theorem backoff_failed_eq {k : Nat} {answer : Except ClientError Unit}
    (h : (met.env (2 * k) (.send n)).1 = answer) : (backoff n met).failed k = !answer.isOk := by
  rw [← h]
  rfl

/-- The rest of a handling follows the rest of the plan. -/
theorem follows_plan (h : Punctual n met) {deadline : Nat} (k m : Nat)
    (hk : (backoff n met).start k ≤ deadline) :
    Follows n ((backoff n met).plan deadline k m)
      ((remaining n (pausesFrom k m)).runUntil deadline met.env (2 * k) ((backoff n met).start k)) := by
  induction m generalizing k with
  | zero =>
    have hnow : (backoff n met).start k + (met.env (2 * k) (.publishError n)).2 ≤ deadline := by
      rw [h.publisher]
      exact hk
    rw [pausesFrom, List.range'_zero, List.map_nil, remaining_nil, runUntil_call, if_pos hnow,
      h.publisher]
    refine ⟨rfl, rfl, fun t ht => ?_, rfl⟩
    obtain rfl := Option.some.inj ht
    exact ⟨[], _, rfl⟩
  | succ m ih =>
    have htook : (met.env (2 * k) (.send n)).2 = (backoff n met).took k := rfl
    have hpause : (backoff n met).start k + (backoff n met).took k + secs (2 ^ (k + 1)) =
        (backoff n met).start (k + 1) := ((backoff n met).start_succ k).symm
    rw [pausesFrom, List.range'_succ, List.map_cons, remaining_cons, runUntil_call, htook]
    obtain ⟨hlate, hp⟩ | ⟨hin, hok, hp⟩ | ⟨hin, hfailed, hlate, hp⟩ | ⟨hfailed, hnext, hp⟩ :=
      Backoff.plan_succ (backoff n met) deadline k m
    · -- cut in the attempt
      rw [hp, if_neg (by omega)]
      exact ⟨rfl, rfl, fun t ht => (nomatch ht), rfl⟩
    · -- the attempt succeeds
      cases hanswer : (met.env (2 * k) (.send n)).1 with
      | error e => exact Bool.noConfusion (hok.symm.trans (backoff_failed_eq hanswer))
      | ok u =>
        rw [hp, if_pos hin]
        exact ⟨rfl, rfl, fun t ht => (nomatch ht), rfl⟩
    · -- cut in the pause
      cases hanswer : (met.env (2 * k) (.send n)).1 with
      | ok u => exact Bool.noConfusion (hfailed.symm.trans (backoff_failed_eq hanswer))
      | error e =>
        rw [hp, if_pos hin, runUntil_call, h.timers, if_neg (by omega)]
        exact ⟨rfl, rfl, fun t ht => (nomatch ht), rfl⟩
    · -- the next round
      cases hanswer : (met.env (2 * k) (.send n)).1 with
      | ok u => exact Bool.noConfusion (hfailed.symm.trans (backoff_failed_eq hanswer))
      | error e =>
        have hin := Nat.le_trans ((backoff n met).start_add_took_le k) hnext
        obtain ⟨hbegun, hpublications, hlast, hresult⟩ := ih (k + 1) hnext
        rw [hp, if_pos hin, runUntil_call, h.timers, if_pos (by omega), hpause]
        refine ⟨?_, ?_, ?_, hresult⟩
        · exact congrArg ((n, (backoff n met).start k) :: ·) hbegun
        · exact hpublications
        · intro t ht
          obtain ⟨before, answer, hlog⟩ := hlast t ht
          exact ⟨_ :: _ :: before, answer, congrArg (_ :: _ :: ·) hlog⟩

end

/-! ## The handling under its timeout -/

/-- A handling in closed form. Attempts are counted from zero: attempt `i` is due at
`(backoff n met).start i`, and at `(backoff n met).start 11` the last pause is over. -/
structure OnSchedule (sub : Subscription Service) (n : Notification) (data : Bytes)
    (met : Conditions Service) : Prop where
  /-- An attempt is made exactly when those before it failed and it is due in time. -/
  attempts : ∀ i s, (begun (sub.handling data met).log)[i]? = some s ↔
    i < 11 ∧ (backoff n met).AllFailed i ∧ (backoff n met).start i ≤ secs sub.timeout ∧
      (n, (backoff n met).start i) = s
  no_overlap : ∀ i, (backoff n met).start i + (backoff n met).took i ≤ (backoff n met).start (i + 1)
  success : ∀ i < 11, (backoff n met).FirstSuccess i →
    (backoff n met).start i + (backoff n met).took i ≤ secs sub.timeout →
    sub.outcome data met = (.ok (), (backoff n met).start i + (backoff n met).took i) ∧
      publications (sub.handling data met).log = []
  published_iff : publications (sub.handling data met).log ≠ [] ↔
    (backoff n met).AllFailed 11 ∧ (backoff n met).start 11 ≤ secs sub.timeout
  parked : (backoff n met).AllFailed 11 → (backoff n met).start 11 ≤ secs sub.timeout →
    publications (sub.handling data met).log = [(n, (backoff n met).start 11)] ∧
      (∃ before answer, (sub.handling data met).log =
          before ++ [⟨.publishError n, (backoff n met).start 11, answer⟩] ∧
        (begun before).length = 11) ∧
      sub.outcome data met = (.ok (), (backoff n met).start 11)
  cut : (¬ ∃ i < 11, (backoff n met).FirstSuccess i ∧
      (backoff n met).start i + (backoff n met).took i ≤ secs sub.timeout) →
    ¬ ((backoff n met).AllFailed 11 ∧ (backoff n met).start 11 ≤ secs sub.timeout) →
    sub.outcome data met = (.error .elapsed, secs sub.timeout)
  nothing_after : ∀ entry ∈ (sub.handling data met).log, entry.start ≤ (sub.outcome data met).2

section
variable {json : SerdeJson} {q : Outbox} {timeout : Nat} {data : Bytes} {n : Notification}
  {met : Conditions Service}

/-- The plan of a handling, from its first attempt on. -/
def handlingPlan (n : Notification) (met : Conditions Service) (timeout : Nat) : Backoff.Plan :=
  (backoff n met).plan (secs timeout) 0 11

theorem handling_follows (hparse : q.parse json data = .ok n) (h : Punctual n met) :
    Follows n (handlingPlan n met timeout) ((callSubscription json q timeout).handling data met) := by
  rw [handling_deliver hparse, Conditions.deadline_none h.timeout, deliver_eq_remaining, delays_eq]
  exact follows_plan h 0 11 (Nat.zero_le _)

theorem outcome_of_result {sub : Subscription Service} (h : met.timerFails = none)
    {p : Backoff.Plan} (hresult : (sub.handling data met).result = p.done.map fun t => (.ok (), t)) :
    sub.outcome data met = match p.done with
      | some t => (.ok (), t)
      | none => (.error .elapsed, secs sub.timeout) := by
  rw [Subscription.outcome, hresult, h, Conditions.deadline, h]
  cases p.done <;> rfl

theorem outcome_start {sub : Subscription Service} (h : met.timerFails = none) :
    ∀ entry ∈ (sub.handling data met).log, entry.start ≤ (sub.outcome data met).2 := by
  obtain ⟨hdeadline, hresult⟩ := runUntil_start met.env 0
    (sub.notificator.handleMessage sub.json data sub.queueName) (Nat.zero_le (met.deadline sub.timeout))
  change ∀ entry ∈ (sub.handling data met).log, _ at hdeadline
  change ∀ v t, (sub.handling data met).result = some (v, t) → _ at hresult
  intro entry hmem
  unfold Subscription.outcome
  cases hr : (sub.handling data met).result with
  | none =>
    rw [h]
    exact hdeadline entry hmem
  | some value =>
    obtain ⟨v, t⟩ := value
    have hle := (hresult v t hr).2 entry hmem
    cases v with
    | ok u => exact hle
    | error e => exact hle

section
variable {run : Execution Service (Except ServiceError Unit)}

theorem Follows.attempts_iff (h : Follows n (handlingPlan n met timeout) run) (i : Nat)
    (s : Notification × Nat) :
    (Server.begun run.log)[i]? = some s ↔
      i < 11 ∧ (backoff n met).AllFailed i ∧ (backoff n met).start i ≤ secs timeout ∧
        (n, (backoff n met).start i) = s := by
  rw [h.begun, List.getElem?_map, Option.map_eq_some_iff]
  constructor
  · rintro ⟨t, ht, rfl⟩
    obtain ⟨hi, hall, hin, rfl⟩ := Backoff.starts_iff.mp ht
    exact ⟨hi, hall, hin, rfl⟩
  · rintro ⟨hi, hall, hin, rfl⟩
    exact ⟨_, Backoff.starts_iff.mpr ⟨hi, hall, hin, rfl⟩, rfl⟩

/-- What is published comes when the attempts are given up. -/
theorem Follows.published_iff (h : Follows n (handlingPlan n met timeout) run) :
    Server.publications run.log ≠ [] ↔
      (backoff n met).AllFailed 11 ∧ (backoff n met).start 11 ≤ secs timeout := by
  rw [h.publications]
  constructor
  · intro hne
    cases hgives : (handlingPlan n met timeout).givesUp with
    | none => simp [hgives] at hne
    | some t =>
      obtain ⟨hall, hin, -⟩ := Backoff.givesUp_iff.mp hgives
      exact ⟨hall, hin⟩
  · rintro ⟨hall, hin⟩
    have hgives : (handlingPlan n met timeout).givesUp = some _ :=
      Backoff.givesUp_iff.mpr ⟨hall, hin, rfl⟩
    simp [hgives]

/-- It is published once, as the last thing, after all eleven attempts. -/
theorem Follows.published_last (h : Follows n (handlingPlan n met timeout) run)
    (hall : (backoff n met).AllFailed 11) (hin : (backoff n met).start 11 ≤ secs timeout) :
    Server.publications run.log = [(n, (backoff n met).start 11)] ∧
      ∃ before answer, run.log = before ++ [⟨.publishError n, (backoff n met).start 11, answer⟩] ∧
        (Server.begun before).length = 11 := by
  have hgives : (handlingPlan n met timeout).givesUp = some _ :=
    Backoff.givesUp_iff.mpr ⟨hall, hin, rfl⟩
  have hlength : (handlingPlan n met timeout).starts.length = 11 := Backoff.starts_length hall hin
  obtain ⟨before, answer, hlog⟩ := h.last _ hgives
  refine ⟨?_, before, answer, hlog, ?_⟩
  · rw [h.publications, hgives]
    rfl
  · have hbegun := congrArg List.length h.begun
    rw [hlog, List.length_map, hlength, Server.begun, List.filterMap_append,
      List.length_append] at hbegun
    exact hbegun

end

/-- **A handling under its timeout is on schedule.** -/
theorem handling_onSchedule (hparse : q.parse json data = .ok n) (h : Punctual n met) :
    OnSchedule (callSubscription json q timeout) n data met := by
  have hfollows : Follows n (handlingPlan n met timeout) _ := handling_follows hparse h
  have houtcome := outcome_of_result h.timeout hfollows.result
  refine ⟨hfollows.attempts_iff, (backoff n met).start_add_took_le, ?_, hfollows.published_iff, ?_,
    ?_, outcome_start h.timeout⟩
  · intro i hi hfirst hin
    have hdone : (handlingPlan n met timeout).done = some _ :=
      Backoff.done_iff.mpr (Or.inl ⟨i, hi, hfirst, hin, rfl⟩)
    refine ⟨by rw [houtcome, hdone], ?_⟩
    by_contra hne
    have hfailed := (hfollows.published_iff.mp hne).1 i hi
    exact Bool.noConfusion (hfirst.2.symm.trans hfailed)
  · intro hall hin
    have hdone : (handlingPlan n met timeout).done = some _ :=
      Backoff.done_iff.mpr (Or.inr ⟨hall, hin, rfl⟩)
    obtain ⟨hpublications, hlog⟩ := hfollows.published_last hall hin
    exact ⟨hpublications, hlog, by rw [houtcome, hdone]⟩
  · intro hsuccess hgiven
    cases hdone : (handlingPlan n met timeout).done with
    | none => rw [houtcome, hdone]
    | some t =>
      obtain ⟨i, hi, hfirst, hin, -⟩ | ⟨hall, hin, -⟩ := Backoff.done_iff.mp hdone
      · exact absurd ⟨i, hi, hfirst, hin⟩ hsuccess
      · exact absurd ⟨hall, hin⟩ hgiven

end

/-- A callback that nobody takes, with 4094 seconds for it. -/
theorem handling_onSchedule_example :
    OnSchedule (callSubscription exampleJson .callbacks 4094) (.callback exampleCallback)
      exampleMessage.data refusing :=
  handling_onSchedule exampleMessage_parse ⟨fun _ _ => rfl, fun _ => rfl, rfl⟩

end PaymentsNotifications.Server
