import PaymentsNotifications.Server.Conservation
import PaymentsNotifications.Server.Course
import PaymentsNotifications.Server.NoLoss

/-! How often a message is decided about: its client accepts an attempt to send it, or its
publication to the error queue is confirmed. A life does so once at most, and a message that
is acknowledged was decided about, when timers fire and publications go through. The client's
verdict is not always what the service meant: to the client of the emails a 302 is as good as
a 202, and to the client of the callbacks a 200 without a body is a failure. -/

namespace PaymentsNotifications.Server
open Futures Futures.Fut Models Utils Transport External Services

namespace Process
variable {self : Process} {n : Notification} {l : List (Event Wire)}

/-- Timers fire, and publications are confirmed. -/
def Faithful : Event Wire → Prop
  | ⟨.delay _, some answer⟩ => answer = .ok ()
  | ⟨.basicPublish _ _ _, some answer⟩ => answer = .ok ()
  | _ => True

/-- What ends well has decided about its notification. -/
theorem Course.resolved {pauses : List Nat} {o : Option (Except ServiceError Unit)}
    (h : self.Course n pauses l o) (ho : o = some (.ok ())) (hfaithful : ∀ e ∈ l, Faithful e) :
    0 < l.countP (self.resolves n) := by
  induction h with
  | round _ _ ih =>
    rw [List.countP_append, List.countP_cons]
    have hrest := ih ho fun e hmem =>
      hfaithful e (List.mem_append_right _ (List.mem_cons_of_mem _ hmem))
    omega
  | accepted _ hyes =>
    rw [List.countP_singleton, Process.resolves, hyes]
    exact Nat.one_pos
  | timerFailed _ e =>
    have hfired : (Except.error e : Except TimerError Unit) = .ok () :=
      hfaithful _ (List.mem_append_right _ (List.mem_singleton.mpr rfl))
    cases hfired
  | parked answer =>
    obtain rfl : answer = .ok () := hfaithful _ (List.mem_singleton.mpr rfl)
    exact Nat.one_pos
  | attemptDropped => cases ho
  | pauseDropped => cases ho
  | parkingDropped => cases ho

/-- How often these handlings decided about the message. -/
def resolutions (self : Process) (q : Outbox) (handled : List (Delivery × Conditions Wire))
    (m : Message) : Nat :=
  match q.parse self.crates.json m.data with
  | .ok n => ((handled.filter fun h => h.1.message = m).flatMap fun h =>
      (self.subscription q).events h.1.message.data h.2).countP (self.resolves n)
  | .error _ => 0

variable {q : Outbox} {m : Message}

theorem resolutions_ok (hparse : q.parse self.crates.json m.data = .ok n)
    (handled : List (Delivery × Conditions Wire)) :
    self.resolutions q handled m = ((handled.filter fun h => h.1.message = m).flatMap fun h =>
      (self.subscription q).events h.1.message.data h.2).countP (self.resolves n) := by
  rw [resolutions, hparse]

theorem countP_events_le (hparse : q.parse self.crates.json m.data = .ok n) (met : Conditions Wire) :
    ((self.subscription q).events m.data met).countP (self.resolves n) ≤
      if (self.subscription q).succeeds m.data met then 1 else 0 := by
  have hcount := (handling_course hparse met).resolves
  unfold Subscription.succeeds
  rcases hresult : ((self.subscription q).handling m.data met).result with - | ⟨e | u, t⟩
  · simpa [hresult] using hcount
  · simpa [hresult] using hcount
  · simpa [hresult] using hcount

/-- A handling that decides is one that succeeds. -/
theorem resolutions_le (handled : List (Delivery × Conditions Wire)) :
    self.resolutions q handled m ≤ handled.countP fun h =>
      h.1.message = m && (self.subscription q).succeeds h.1.message.data h.2 := by
  cases hparse : q.parse self.crates.json m.data with
  | error e =>
    rw [resolutions, hparse]
    exact Nat.zero_le _
  | ok n =>
    rw [resolutions_ok hparse]
    induction handled with
    | nil => exact Nat.le_refl 0
    | cons h rest ih =>
      rw [List.countP_cons, List.filter_cons]
      by_cases hm : h.1.message = m
      · rw [if_pos (by simpa using hm), List.flatMap_cons, List.countP_append]
        have hparse' : q.parse self.crates.json h.1.message.data = .ok n := by rw [hm]; exact hparse
        have hfirst := countP_events_le hparse' h.2
        simp only [hm, decide_true, Bool.true_and] at hfirst ⊢
        omega
      · rw [if_neg (by simpa using hm)]
        exact Nat.le_add_right_of_le ih

theorem resolutions_pos {handled : List (Delivery × Conditions Wire)} {d : Delivery}
    {met : Conditions Wire} (hmem : (d, met) ∈ handled)
    (hok : (self.subscription q).succeeds d.message.data met = true)
    (hfaithful : ∀ e ∈ (self.subscription q).events d.message.data met, Faithful e) :
    0 < self.resolutions q handled d.message := by
  obtain ⟨n, t, hparse, -, hresult⟩ := self.succeeds_deliver hok
  have hcourse := handling_course hparse met
  rw [hresult] at hcourse
  have hone := hcourse.resolved rfl hfaithful
  obtain ⟨e, he, hyes⟩ := List.countP_pos_iff.mp hone
  rw [resolutions_ok hparse]
  refine List.countP_pos_iff.mpr ⟨e, List.mem_flatMap.mpr ⟨(d, met), ?_, he⟩, hyes⟩
  exact List.mem_filter.mpr ⟨hmem, by simp⟩

end Process

/-- What a run of lives has decided about its messages. -/
structure DecidedOnce (process : Process) (q : Outbox)
    (labels : List (LivesEvent (Conditions Wire))) (l : Lives (Conditions Wire)) : Prop where
  lifetimes : l.lifetimes.length = labels.countP LivesEvent.isRestart + 1
  each_life : ∀ life ∈ l.lifetimes, ∀ m, process.resolutions q life m ≤ 1
  /-- So much for all lives together. -/
  at_most : ∀ m, process.resolutions q l.handlings m ≤ labels.countP LivesEvent.isRestart + 1
  at_least : ∀ m ∈ l.system.broker.acked,
    (∀ d met, (d, met) ∈ l.handlings → d.message = m →
      ∀ e ∈ (process.subscription q).events m.data met, Process.Faithful e) →
    1 ≤ process.resolutions q l.handlings m

/-- So without a restart an acknowledged message was decided about exactly once. -/
theorem Lives.decidedOnce {process : Process} {q : Outbox} {contents : List Bytes}
    {labels : List (LivesEvent (Conditions Wire))} {l : Lives (Conditions Wire)}
    (h : (machine (process.subscription q).succeeds contents).Reaches labels l) :
    DecidedOnce process q labels l where
  lifetimes := lifetimes_length h
  each_life life hmem m :=
    Nat.le_trans (process.resolutions_le life) (once_count (reaches_once h life hmem) m)
  at_most m := Nat.le_trans (process.resolutions_le l.handlings) (successes_le h m)
  at_least := by
    intro m hm hfaithful
    obtain ⟨d, met, hmem, rfl, hok⟩ := successes_pos.mp ((reaches_history h).2.1 m hm)
    exact process.resolutions_pos hmem hok (hfaithful d met hmem rfl)

/-- The mail service answers 202, in both lives. -/
theorem Lives.decidedOnce_example :
    DecidedOnce exampleProcess .emails
      (twiceLabels ⟨answering ⟨⟨202⟩, Body.from []⟩, none⟩)
      (twice (bytesOf exampleEmailJson) ⟨answering ⟨⟨202⟩, Body.from []⟩, none⟩) :=
  decidedOnce (reaches_twice (by decide))

end PaymentsNotifications.Server
