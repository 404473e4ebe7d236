import PaymentsNotifications.Lib.Amqp.Declarations

/-! The messages of a virtual host: what a command brings into a queue, and what a
restart of the broker leaves. -/

namespace Amqp
variable {α : Type}

namespace Host

/-- What has come into the queue, in order. -/
def history (self : Host α) (queue : String) : List (Message α) :=
  (self.queues queue).elim [] Queue.history

/-- What the command brings into the queue. -/
def arrivals (types : ExchangeTypes) (self : Host α) (queue : String) : Command α → List (Message α)
  | .basicPublish exchange routingKey message =>
    if (self.queues queue).isSome && self.routes types exchange routingKey queue then [message] else []
  | _ => []

theorem Declared.history {h h' : Host α} {d : Declaration} (hspec : h.Declared d h')
    (queue : String) : h'.history queue = h.history queue := by
  unfold Host.history
  cases hq' : h'.queues queue with
  | some q' =>
    rcases hspec.queues hq' with hold | ⟨hnone, -, hempty⟩
    · rw [hold]
    · rw [hnone]
      exact hempty
  | none =>
    cases hq : h.queues queue with
    | none => rfl
    | some q =>
      obtain ⟨q', hsome, -⟩ := hspec.extends.queues queue q hq
      rw [hq'] at hsome
      cases hsome

/-- Declarations bring nothing into a queue. -/
theorem history_declareAll {h h' : Host α} {ds : List Declaration}
    (hall : h.declareAll ds = .ok h') (queue : String) : h'.history queue = h.history queue :=
  declareAll_invariant (P := fun h₁ => h₁.history queue = h.history queue) hall rfl
    fun _ _ _ _ hsame hd => (hd.history queue).trans hsame

theorem history_apply {types : ExchangeTypes} {h h' : Host α} {c : Command α}
    (hc : h.apply types c = .ok h') (queue : String) :
    h'.history queue = h.history queue ++ h.arrivals types queue c := by
  cases c with
  | declare d => exact ((declare_spec hc).history queue).trans (List.append_nil _).symm
  | basicPublish exchange routingKey message =>
    simp only [apply] at hc
    split at hc
    · obtain rfl := Except.ok.inj hc
      simp only [history, arrivals]
      cases h.queues queue with
      | none => rfl
      | some q =>
        cases h.routes types exchange routingKey queue with
        | true => simp
        | false => simp
    · cases hc
  | basicGet name =>
    simp only [apply] at hc
    simp only [arrivals, List.append_nil]
    cases hq : h.queues name with
    | none =>
      rw [hq] at hc
      cases hc
    | some q =>
      rw [hq] at hc
      obtain rfl := Except.ok.inj hc
      by_cases hname : queue = name
      · subst hname
        simp [history, hq]
      · simp [history, Function.update_of_ne hname]

/-- A queue stays as it is when nothing leads to it. -/
theorem queues_publish {types : ExchangeTypes} {h h' : Host α} {exchange routingKey : String}
    {message : Message α} (hc : h.apply types (.basicPublish exchange routingKey message) = .ok h')
    {queue : String} (hno : h.routes types exchange routingKey queue = false) :
    h'.queues queue = h.queues queue := by
  simp only [apply] at hc
  split at hc
  · obtain rfl := Except.ok.inj hc
    simp [hno]
  · cases hc

theorem queues_get {types : ExchangeTypes} {h h' : Host α} {name : String}
    (hc : h.apply types (.basicGet name) = .ok h') {queue : String} (hne : queue ≠ name) :
    h'.queues queue = h.queues queue := by
  simp only [apply] at hc
  split at hc
  · cases hc
  · obtain rfl := Except.ok.inj hc
    exact Function.update_of_ne hne _ _

/-- Only a binding leads from an exchange to a queue. -/
theorem routes_bound {types : ExchangeTypes} {h : Host α} {exchange routingKey queue : String}
    (hname : exchange ≠ "") (hroutes : h.routes types exchange routingKey queue = true) :
    ∃ b ∈ h.bindings, b.exchange = exchange ∧ b.queue = queue := by
  simp only [routes, if_neg hname] at hroutes
  cases he : h.exchanges exchange with
  | none =>
    rw [he] at hroutes
    cases hroutes
  | some e =>
    simp only [he, List.any_eq_true, Bool.and_eq_true, beq_iff_eq] at hroutes
    obtain ⟨b, hb, ⟨hexchange, hqueue⟩, -⟩ := hroutes
    exact ⟨b, hb, hexchange, hqueue⟩

theorem bindings_apply {types : ExchangeTypes} {h h' : Host α} {c : Command α}
    (hc : h.apply types c = .ok h') (hother : ∀ d, c ≠ .declare d) : h'.bindings = h.bindings := by
  cases c with
  | declare d => exact (hother d rfl).elim
  | basicPublish exchange routingKey message =>
    simp only [apply] at hc
    split at hc
    · obtain rfl := Except.ok.inj hc
      rfl
    · cases hc
  | basicGet queue =>
    simp only [apply] at hc
    split at hc
    · cases hc
    · obtain rfl := Except.ok.inj hc
      rfl

/-- A direct exchange leads to the queues that are bound by this key. -/
theorem routes_direct {types : ExchangeTypes} {h : Host α} {exchange routingKey queue : String}
    {options : ExchangeOptions} (hname : exchange ≠ "")
    (hdirect : h.exchanges exchange = some ⟨"direct", options⟩) :
    h.routes types exchange routingKey queue = true ↔ ⟨queue, exchange, routingKey⟩ ∈ h.bindings := by
  simp only [routes, if_neg hname, hdirect, types.direct, List.any_eq_true, Bool.and_eq_true,
    beq_iff_eq]
  constructor
  · rintro ⟨⟨q, e, k⟩, hmem, ⟨rfl, rfl⟩, rfl⟩
    exact hmem
  · intro hmem
    exact ⟨_, hmem, ⟨rfl, rfl⟩, rfl⟩

theorem applyAll_cons {types : ExchangeTypes} {h h' : Host α} {c : Command α}
    {cs : List (Command α)} (hall : h.applyAll types (c :: cs) = .ok h') :
    ∃ h₁, h.apply types c = .ok h₁ ∧ h₁.applyAll types cs = .ok h' := by
  rw [applyAll] at hall
  cases hc : h.apply types c with
  | error e =>
    rw [hc] at hall
    cases hall
  | ok h₁ =>
    rw [hc] at hall
    exact ⟨h₁, rfl, hall⟩

theorem applyAll_extends {types : ExchangeTypes} {h h' : Host α} {cs : List (Command α)}
    (hall : h.applyAll types cs = .ok h') : h.Extends h' := by
  induction cs generalizing h with
  | nil =>
    obtain rfl := Except.ok.inj hall
    exact .refl _
  | cons c cs ih =>
    obtain ⟨h₁, hc, hrest⟩ := applyAll_cons hall
    exact (apply_extends hc).trans (ih hrest)

/-! ## A restart of the broker -/

theorem restart_exchange {h : Host α} {name : String} {e : Exchange}
    (he : h.exchanges name = some e) (hdurable : e.options.durable = true) :
    h.restart.exchanges name = some e := by
  simp [restart, he, hdurable]

theorem restart_queue {h : Host α} {name : String} {q : Queue α} (hq : h.queues name = some q)
    (hdurable : q.options.durable = true) : h.restart.queues name =
      some { q with messages := q.messages.filter fun message => message.persistent } := by
  simp only [restart, hq, Option.filter_some, hdurable, if_true, Option.map_some]

theorem restart_binding {h : Host α} {b : Binding} {e : Exchange} {q : Queue α}
    (hb : b ∈ h.bindings) (he : h.exchanges b.exchange = some e) (hdurable : e.options.durable = true)
    (hq : h.queues b.queue = some q) (hdurable' : q.options.durable = true) :
    b ∈ h.restart.bindings := by
  simp [restart, hb, he, hdurable, hq, hdurable']

end Host

end Amqp
