import PaymentsNotifications.Rabbit.Topology

/-! The service's queues on a virtual host that is shared. What the publisher sends to an
error queue arrives there, once, and nowhere else among them; what others do arrives in
none, as long as they bind nothing to these queues and publish elsewhere. The queues that
are consumed stay as they are here: what comes into these, and what is taken from them, is
an event of the consumers' own queues (`Broker`). -/

namespace PaymentsNotifications.Rabbit
open Amqp Utils

/-- The binding of an error queue by the publisher. -/
def Parking (b : Binding) : Prop :=
  b.queue ∈ errorQueues ∧ b.exchange = "notifications" ∧ b.routingKey = b.queue

/-- Nothing else leads from an exchange to one of the queues. -/
def Own (h : Host Bytes) : Prop := ∀ b ∈ h.bindings, b.queue ∈ queueNames → Parking b

/-- What others may do: not publish to the exchange or to one of the queues, not bind
these, and not get from a queue that is consumed. -/
def Foreign : Command Bytes → Prop
  | .declare (.queueBind b) => b.queue ∈ queueNames → Parking b
  | .declare _ => True
  | .basicPublish exchange routingKey _ =>
    exchange ≠ "notifications" ∧ (exchange = "" → routingKey ∉ queueNames)
  | .basicGet queue => queue ∉ inputQueues

theorem mem_queueNames {name : String} (hname : name ∈ errorQueues) : name ∈ queueNames :=
  List.mem_append_left _ hname

theorem Own.declared {h h' : Host Bytes} (hown : Own h) {d : Declaration}
    (hforeign : Foreign (.declare d)) (hd : h.Declared d h') : Own h' := by
  intro b hb hqueue
  rcases hd.bindings hb with hold | rfl
  · exact hown b hold hqueue
  · exact hforeign hqueue

theorem Own.apply {types : ExchangeTypes} {h h' : Host Bytes} (hown : Own h) {c : Command Bytes}
    (hforeign : Foreign c) (hc : h.apply types c = .ok h') : Own h' := by
  cases c with
  | declare d => exact hown.declared hforeign (Host.declare_spec hc)
  | basicPublish exchange routingKey message =>
    rw [Own, Host.bindings_apply hc (fun d hd => nomatch hd)]
    exact hown
  | basicGet queue =>
    rw [Own, Host.bindings_apply hc (fun d hd => nomatch hd)]
    exact hown

/-- What the service declares binds nothing else. -/
theorem Own.started {h h' : Host Bytes} (hown : Own h) (hext : h.ExtendsBy declarations h') :
    Own h' := by
  intro b hb hqueue
  rcases (hext.bindings b).mp hb with hold | hnew
  · exact hown b hold hqueue
  · rcases mem_declarations.mp hnew with heq | ⟨name, -, heq⟩ | ⟨name, hname, heq⟩
    · cases heq
    · cases heq
    · cases heq
      exact ⟨hname, rfl, rfl⟩

/-- What others publish leads to none of the queues. -/
theorem routes_foreign {types : ExchangeTypes} {h : Host Bytes} (hown : Own h)
    {exchange routingKey : String} {message : Message Bytes}
    (hforeign : Foreign (.basicPublish exchange routingKey message)) {name : String}
    (hname : name ∈ queueNames) : h.routes types exchange routingKey name = false := by
  by_contra hyes
  rw [Bool.not_eq_false] at hyes
  by_cases hdefault : exchange = ""
  · simp only [Host.routes, if_pos hdefault, beq_iff_eq] at hyes
    rw [← hyes] at hname
    exact hforeign.2 hdefault hname
  · obtain ⟨b, hb, hexchange, hqueue⟩ := Host.routes_bound hdefault hyes
    obtain ⟨-, hparking, -⟩ := hown b hb (by rw [hqueue]; exact hname)
    exact hforeign.1 (hexchange.symm.trans hparking)

theorem arrivals_foreign {types : ExchangeTypes} {h : Host Bytes} (hown : Own h)
    {c : Command Bytes} (hforeign : Foreign c) {name : String} (hname : name ∈ queueNames) :
    h.arrivals types name c = [] := by
  cases c with
  | declare => rfl
  | basicGet => rfl
  | basicPublish exchange routingKey message =>
    simp only [Host.arrivals, routes_foreign hown hforeign hname, Bool.and_false,
      Bool.false_eq_true, if_false]

/-- What the publisher sends arrives in the queue it names. -/
theorem arrivals_parked {types : ExchangeTypes} {h : Host Bytes} (hplace : InPlace h) (hown : Own h)
    {name routingKey : String} (hname : name ∈ errorQueues) (message : Message Bytes) :
    h.arrivals types name (.basicPublish "notifications" routingKey message) =
      if routingKey = name then [message] else [] := by
  obtain ⟨q, hq, -⟩ := hplace.queue (mem_queueNames hname)
  have hroutes : h.routes types "notifications" routingKey name = true ↔
      ⟨name, "notifications", routingKey⟩ ∈ h.bindings :=
    Host.routes_direct (by decide) hplace.exchange
  simp only [Host.arrivals, hq, Option.isSome_some, Bool.true_and]
  by_cases hkey : routingKey = name
  · subst hkey
    rw [if_pos (hroutes.mpr (hplace.binding hname)), if_pos rfl]
  · rw [if_neg hkey, if_neg]
    intro hyes
    exact hkey (hown _ (hroutes.mp hyes) (mem_queueNames hname)).2.2

/-- It arrives in no queue that is consumed. -/
theorem routes_input {types : ExchangeTypes} {h : Host Bytes} (hown : Own h) {name : String}
    (hname : name ∈ inputQueues) (routingKey : String) :
    h.routes types "notifications" routingKey name = false := by
  by_contra hyes
  rw [Bool.not_eq_false] at hyes
  obtain ⟨b, hb, -, rfl⟩ := Host.routes_bound (by decide) hyes
  obtain ⟨herror, -, -⟩ := hown b hb (List.mem_append_right _ hname)
  have hdisjoint : ∀ name ∈ inputQueues, name ∉ errorQueues := by decide
  exact hdisjoint _ hname herror

/-- Publications to one error queue, one after the other. -/
theorem history_parked {types : ExchangeTypes} {h h' : Host Bytes} (hplace : InPlace h)
    (hown : Own h) {routingKey : String} {messages : List (Message Bytes)}
    (hall : h.applyAll types (messages.map (.basicPublish "notifications" routingKey)) = .ok h') :
    InPlace h' ∧ Own h' ∧
      (∀ name ∈ errorQueues,
        h'.history name = h.history name ++ if routingKey = name then messages else []) ∧
      ∀ name ∈ inputQueues, h'.queues name = h.queues name := by
  induction messages generalizing h with
  | nil =>
    obtain rfl := Except.ok.inj hall
    refine ⟨hplace, hown, fun name _ => ?_, fun _ _ => rfl⟩
    split <;> simp
  | cons message messages ih =>
    obtain ⟨h₁, hc, hrest⟩ := Host.applyAll_cons hall
    have hown₁ : Own h₁ := by
      rw [Own, Host.bindings_apply hc (fun d hd => nomatch hd)]
      exact hown
    obtain ⟨hplace', hown', hhistory, hinputs⟩ :=
      ih (hplace.mono (Host.apply_extends hc)) hown₁ hrest
    refine ⟨hplace', hown', fun name hname => ?_, fun name hname => ?_⟩
    · rw [hhistory name hname, Host.history_apply hc, arrivals_parked hplace hown hname,
        List.append_assoc]
      split <;> rfl
    · rw [hinputs name hname, Host.queues_publish hc (routes_input hown hname _)]

/-- A start of the service changes nothing that is in place. -/
theorem kept_startUp {h h' : Host Bytes} (hplace : InPlace h) {ds : List Declaration}
    (hds : StartUp ds) (hall : h.declareAll ds = .ok h') : h' = h := by
  rw [Host.declareAll_again fun d hd => hplace d (hds.mem.mp hd)] at hall
  exact (Except.ok.inj hall).symm

/-- Others bring nothing into the error queues, and leave those that are consumed alone. -/
theorem kept_foreign {types : ExchangeTypes} {h h' : Host Bytes} (hplace : InPlace h) (hown : Own h)
    {c : Command Bytes} (hforeign : Foreign c) (hc : h.apply types c = .ok h') :
    InPlace h' ∧ Own h' ∧ (∀ name ∈ errorQueues, h'.history name = h.history name) ∧
      ∀ name ∈ inputQueues, h'.queues name = h.queues name := by
  refine ⟨hplace.mono (Host.apply_extends hc), hown.apply hforeign hc, fun name hname => ?_,
    fun name hname => ?_⟩
  · rw [Host.history_apply hc, arrivals_foreign hown hforeign (mem_queueNames hname),
      List.append_nil]
  have hname' : name ∈ queueNames := List.mem_append_right _ hname
  cases c with
  | declare d =>
    obtain ⟨q, hq, -⟩ := hplace.queue hname'
    rw [hq, (Host.declare_spec hc).queue_kept hq]
  | basicPublish exchange routingKey message =>
    exact Host.queues_publish hc (routes_foreign hown hforeign hname')
  | basicGet queue =>
    refine Host.queues_get hc fun heq => ?_
    rw [heq] at hname
    exact hforeign hname

/-- The host takes what the publisher sends. -/
theorem applyAll_parked (types : ExchangeTypes) {h : Host Bytes} (hplace : InPlace h)
    (routingKey : String) (messages : List (Message Bytes)) :
    ∃ h', h.applyAll types (messages.map (.basicPublish "notifications" routingKey)) = .ok h' := by
  induction messages generalizing h with
  | nil => exact ⟨h, rfl⟩
  | cons message messages ih =>
    have hsome : (h.exchanges "notifications").isSome = true := by rw [hplace.exchange]; rfl
    obtain ⟨h₁, hc⟩ : ∃ h₁,
        h.apply types (.basicPublish "notifications" routingKey message) = .ok h₁ := by
      simp only [Host.apply, hsome, Bool.or_true, if_true]
      exact ⟨_, rfl⟩
    obtain ⟨h', hrest⟩ := ih (hplace.mono (Host.apply_extends hc))
    refine ⟨h', ?_⟩
    rw [List.map_cons, Host.applyAll, hc]
    exact hrest

end PaymentsNotifications.Rabbit
