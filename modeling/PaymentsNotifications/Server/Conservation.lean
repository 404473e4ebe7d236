import PaymentsNotifications.Server.Lives

/-! What becomes of the messages over lost channels and restarts: none is lost or
doubled, and no life of the process handles one well twice. -/

namespace PaymentsNotifications.Server
open Utils

variable {ι : Type} {ok : Bytes → ι → Bool}

def LivesEvent.published? : LivesEvent ι → Option Bytes
  | .event (.publish data) => some data
  | _ => none

def LivesEvent.isRestart : LivesEvent ι → Bool
  | .restarted => true
  | _ => false

namespace Lives

/-- How often the message was handled well, in all lives. -/
def successes (ok : Bytes → ι → Bool) (self : Lives ι) (m : Message) : Nat :=
  self.handlings.countP fun h => h.1.message = m && ok h.1.message.data h.2

/-- The handlings of each life, this one last. -/
def lifetimes (self : Lives ι) : List (List (Delivery × ι)) :=
  self.past ++ [self.system.consumer.handled]

theorem handlings_eq_flatten (l : Lives ι) : l.handlings = l.lifetimes.flatten := by
  rw [lifetimes, List.flatten_append, List.flatten_singleton]
  rfl

theorem once_count {life : List (Delivery × ι)} (h : System.Once ok life) (m : Message) :
    (life.countP fun h => h.1.message = m && ok h.1.message.data h.2) ≤ 1 := by
  induction h with
  | nil => exact Nat.zero_le 1
  | @cons a rest hfirst _ ih =>
    rw [List.countP_cons]
    by_cases ha : (a.1.message = m && ok a.1.message.data a.2) = true
    · have hnone : (rest.countP fun h => h.1.message = m && ok h.1.message.data h.2) = 0 := by
        refine List.countP_eq_zero.mpr fun b hb hyes => ?_
        simp only [Bool.and_eq_true, decide_eq_true_eq] at ha hyes
        have hno := hfirst b hb (ha.1.trans hyes.1.symm)
        rw [ha.2] at hno
        cases hno
      rw [hnone, if_pos ha]
    · rw [if_neg ha]
      exact ih

theorem lives_count {lives : List (List (Delivery × ι))} (h : ∀ life ∈ lives, System.Once ok life)
    (m : Message) :
    (lives.flatten.countP fun h => h.1.message = m && ok h.1.message.data h.2) ≤ lives.length := by
  induction lives with
  | nil => exact Nat.le_refl 0
  | cons life rest ih =>
    have hlife := once_count (h life List.mem_cons_self) m
    have hrest := ih fun life' hmem => h life' (List.mem_cons_of_mem _ hmem)
    rw [List.flatten_cons, List.countP_append, List.length_cons]
    omega

/-- What a run has done to the messages. -/
structure Conserved (ok : Bytes → ι → Bool) (contents : List Bytes) (labels : List (LivesEvent ι))
    (l : Lives ι) : Prop where
  published : l.system.broker.published.map Message.data =
    contents ++ labels.filterMap LivesEvent.published?
  in_order : l.system.broker.acked ++ l.system.broker.unacked.map Delivery.message ++
    l.system.broker.ready = l.system.broker.published
  handled : ∀ m ∈ l.system.broker.acked, 1 ≤ l.successes ok m
  lifetimes : l.lifetimes.length = labels.countP LivesEvent.isRestart + 1
  each_life : ∀ life ∈ l.lifetimes, ∀ m,
    (life.countP fun h => h.1.message = m && ok h.1.message.data h.2) ≤ 1
  /-- So much for all lives together. -/
  successes : ∀ m, l.successes ok m ≤ labels.countP LivesEvent.isRestart + 1

theorem successes_pos {l : Lives ι} {m : Message} :
    1 ≤ l.successes ok m ↔ ∃ d met, (d, met) ∈ l.handlings ∧ d.message = m ∧ ok m.data met = true := by
  unfold Lives.successes
  rw [Nat.one_le_iff_ne_zero, Ne, List.countP_eq_zero]
  simp only [Bool.and_eq_true, decide_eq_true_eq, not_forall, not_not]
  constructor
  · rintro ⟨⟨d, met⟩, hmem, rfl, hok⟩
    exact ⟨d, met, hmem, rfl, hok⟩
  · rintro ⟨d, met, hmem, rfl, hok⟩
    exact ⟨(d, met), hmem, rfl, hok⟩

/-- What a step adds to the messages, and to the acknowledged ones. -/
theorem Step.adds {l l' : Lives ι} {event : LivesEvent ι} (hstep : Step ok l event l')
    (h : Standing ok l) :
    l'.system.broker.published.map Message.data =
      l.system.broker.published.map Message.data ++ event.published?.toList ∧
    ∀ m ∈ l'.system.broker.acked, m ∈ l.system.broker.acked ∨ 1 ≤ l.successes ok m := by
  have hsystem : ∀ {e : SystemEvent ι} {s : System ι}, System.Step ok l.system e s →
      s.broker.published.map Message.data = l.system.broker.published.map Message.data ++
        (LivesEvent.event e).published?.toList ∧
      ∀ m ∈ s.broker.acked, m ∈ l.system.broker.acked ∨ 1 ≤ l.successes ok m := by
    intro e s hs
    cases hs with
    | publish => exact ⟨by simp [Broker.publish, LivesEvent.published?], fun _ => .inl⟩
    | deliver hd =>
      obtain ⟨m, rest, -, -, rfl, rfl⟩ := Broker.deliver_some hd
      exact ⟨(List.append_nil _).symm, fun _ => .inl⟩
    | receive => exact ⟨(List.append_nil _).symm, fun _ => .inl⟩
    | handled => exact ⟨(List.append_nil _).symm, fun _ => .inl⟩
    | delayed => exact ⟨(List.append_nil _).symm, fun _ => .inl⟩
    | settle => exact ⟨(List.append_nil _).symm, fun _ => .inl⟩
    | process hin hb =>
      obtain ⟨-, -, hprocessed⟩ := h.processed hin hb
      cases hprocessed with
      | ack hok =>
        refine ⟨(List.append_nil _).symm, fun m hm => ?_⟩
        rcases List.mem_append.mp hm with hold | hnew
        · exact .inl hold
        · obtain ⟨met, hmem, hok⟩ := hok
          rw [List.mem_singleton.mp hnew]
          exact .inr (successes_pos.mpr ⟨_, met, List.mem_append_right _ hmem, rfl, hok⟩)
      | nack => exact ⟨(List.append_nil _).symm, fun _ => .inl⟩
  cases hstep with
  | up _ hs => exact hsystem hs
  | down _ _ hs => exact hsystem hs
  | channelLost => exact ⟨(List.append_nil _).symm, fun _ => .inl⟩
  | consumerEnded => exact ⟨(List.append_nil _).symm, fun _ => .inl⟩
  | restarted => exact ⟨(List.append_nil _).symm, fun _ => .inl⟩

theorem Step.past_length {l l' : Lives ι} {event : LivesEvent ι} (hstep : Step ok l event l') :
    l'.past.length = l.past.length + [event].countP LivesEvent.isRestart := by
  cases hstep <;> simp [LivesEvent.isRestart, restart]

theorem reaches_history {contents : List Bytes} {labels : List (LivesEvent ι)} {l : Lives ι}
    (h : (machine ok contents).Reaches labels l) :
    l.system.broker.published.map Message.data =
        contents ++ labels.filterMap LivesEvent.published? ∧
      (∀ m ∈ l.system.broker.acked, 1 ≤ l.successes ok m) ∧
      l.past.length = labels.countP LivesEvent.isRestart := by
  have hhistory : l.system.broker.published.map Message.data =
        contents ++ labels.filterMap LivesEvent.published? ∧
      (∀ m ∈ l.system.broker.acked, 1 ≤ l.successes ok m) ∧
      l.past.length = labels.countP LivesEvent.isRestart ∧ Inv ok l := by
    refine h.history (P := fun labels l => l.system.broker.published.map Message.data =
        contents ++ labels.filterMap LivesEvent.published? ∧
      (∀ m ∈ l.system.broker.acked, 1 ≤ l.successes ok m) ∧
      l.past.length = labels.countP LivesEvent.isRestart ∧ Inv ok l) ?_ ?_
    · refine ⟨?_, fun m hm => (List.not_mem_nil hm).elim, rfl, inv_start contents⟩
      rw [List.filterMap_nil, List.append_nil]
      exact congrArg WorkQueue.State.published (view_start contents)
    · rintro labels l event l' ⟨hpublished, hacked, hpast, hinv⟩ hs
      have hspec := step_spec hs
      obtain ⟨hpublished', hacked'⟩ := hspec.adds hinv.standing
      refine ⟨?_, fun m hm => ?_, ?_, hspec.inv hinv⟩
      · rw [hpublished', hpublished, List.append_assoc, List.filterMap_append]
        cases hevent : event.published? <;> simp [hevent]
      · have hbefore : 1 ≤ l.successes ok m := (hacked' m hm).elim (hacked m) id
        obtain ⟨d, met, hmem, hd, hok⟩ := successes_pos.mp hbefore
        refine successes_pos.mpr ⟨d, met, ?_, hd, hok⟩
        rw [hspec.handlings_eq]
        exact List.mem_append_left _ hmem
      · rw [hspec.past_length, hpast, List.countP_append]
  exact ⟨hhistory.1, hhistory.2.1, hhistory.2.2.1⟩

/-- In no life is a message handled well twice. -/
theorem reaches_once {contents : List Bytes} {labels : List (LivesEvent ι)} {l : Lives ι}
    (h : (machine ok contents).Reaches labels l) : ∀ life ∈ l.lifetimes, System.Once ok life := by
  have hinv := reaches_inv h
  intro life hmem
  rcases List.mem_append.mp hmem with hpast | hnow
  · exact hinv.past life hpast
  · rw [List.mem_singleton.mp hnow]
    exact hinv.standing.accounted.2.2

theorem lifetimes_length {contents : List Bytes} {labels : List (LivesEvent ι)} {l : Lives ι}
    (h : (machine ok contents).Reaches labels l) :
    l.lifetimes.length = labels.countP LivesEvent.isRestart + 1 := by
  rw [lifetimes, List.length_append, (reaches_history h).2.2]
  rfl

theorem successes_le {contents : List Bytes} {labels : List (LivesEvent ι)} {l : Lives ι}
    (h : (machine ok contents).Reaches labels l) (m : Message) :
    l.successes ok m ≤ labels.countP LivesEvent.isRestart + 1 := by
  unfold Lives.successes
  rw [handlings_eq_flatten, ← lifetimes_length h]
  exact lives_count (reaches_once h) m

/-- Over lost channels and restarts every message is in its place, once; what is
acknowledged was handled well, at most once in each life. -/
theorem conserved {contents : List Bytes} {labels : List (LivesEvent ι)} {l : Lives ι}
    (h : (machine ok contents).Reaches labels l) : Conserved ok contents labels l where
  published := (reaches_history h).1
  in_order := (reaches_inv h).standing.accounted.1.messages
  handled := (reaches_history h).2.1
  lifetimes := lifetimes_length h
  each_life := fun life hmem => once_count (reaches_once h life hmem)
  successes := successes_le h

theorem conserved_example :
    Conserved (fun _ met => met) [[1]] (twiceLabels true) (twice [1] true) ∧
      successes (fun _ met => met) (twice [1] true) ⟨0, [1]⟩ = 2 :=
  ⟨conserved (reaches_twice rfl), rfl⟩

end Lives

end PaymentsNotifications.Server
