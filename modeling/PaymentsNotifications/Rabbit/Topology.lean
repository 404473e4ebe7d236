import PaymentsNotifications.Lib.Amqp.Messages
import PaymentsNotifications.Lib.Transition
import PaymentsNotifications.Utils

/-! What `start_server` declares on its broker: the publisher's exchange with the three
error queues (`TransactionPublisherImpl::init`), then the three queues that are
consumed (`TransactionConsumerImpl::subscribe`), each on a channel of its own. -/

namespace PaymentsNotifications.Rabbit
open Amqp Utils

/-- The calls of `init`, in the order they go out. -/
def TransactionPublisherImpl.init : List Declaration :=
  [.exchangeDeclare "notifications" "direct" { durable := true },
    .queueDeclare "error_callbacks" { durable := true },
    .queueBind ⟨"error_callbacks", "notifications", "error_callbacks"⟩,
    .queueDeclare "error_emails" { durable := true },
    .queueBind ⟨"error_emails", "notifications", "error_emails"⟩,
    .queueDeclare "error_pushes" { durable := true },
    .queueBind ⟨"error_pushes", "notifications", "error_pushes"⟩]

/-- `subscribe_for_currency`, up to `basic_consume`. -/
def TransactionConsumerImpl.subscribeForCurrency (queueName : String) : List Declaration :=
  [.queueDeclare queueName { durable := true }]

/-- The channels of `subscribe`. -/
def TransactionConsumerImpl.subscribe : List (List Declaration) :=
  ["pushes", "callbacks", "emails"].map subscribeForCurrency

/-- The declarations of one start, in an order they can have. -/
def StartUp (ds : List Declaration) : Prop :=
  ∃ subscriptions, Interleaving TransactionConsumerImpl.subscribe subscriptions ∧
    ds = TransactionPublisherImpl.init ++ subscriptions

/-- All that is declared. -/
def declarations : List Declaration :=
  TransactionPublisherImpl.init ++ TransactionConsumerImpl.subscribe.flatten

def errorQueues : List String := ["error_callbacks", "error_emails", "error_pushes"]

/-- The queues that are consumed. -/
def inputQueues : List String := ["pushes", "callbacks", "emails"]

def queueNames : List String := errorQueues ++ inputQueues

/-- Everything is declared. -/
def InPlace (h : Host Bytes) : Prop := ∀ d ∈ declarations, d.Made h

/-- No other exchange and no other queue has one of the names. -/
structure Free (h : Host Bytes) : Prop where
  exchange : ∀ e, h.exchanges "notifications" = some e → e = ⟨"direct", { durable := true }⟩
  queues : ∀ name ∈ queueNames, ∀ q, h.queues name = some q → q.options = { durable := true }

theorem StartUp.mem {ds : List Declaration} (h : StartUp ds) {d : Declaration} :
    d ∈ ds ↔ d ∈ declarations := by
  obtain ⟨subscriptions, hsubs, rfl⟩ := h
  rw [declarations, List.mem_append, List.mem_append, hsubs.mem, List.mem_flatten]

theorem StartUp.grounded {ds : List Declaration} (h : StartUp ds) : Amqp.grounded [] [] ds = true := by
  obtain ⟨subscriptions, hsubs, rfl⟩ := h
  show Amqp.grounded ["error_pushes", "error_emails", "error_callbacks"] ["notifications"]
    subscriptions = true
  refine hsubs.grounded fun l hl => ?_
  simp only [TransactionConsumerImpl.subscribe, TransactionConsumerImpl.subscribeForCurrency,
    List.map_cons, List.map_nil, List.mem_cons, List.not_mem_nil, or_false] at hl
  rcases hl with rfl | rfl | rfl <;> rfl

theorem declarations_agree : ∀ d ∈ declarations, ∀ d' ∈ declarations, d.agrees d' = true := by
  have hall : declarations.all (fun d => declarations.all fun d' => d.agrees d') = true := by decide
  intro d hd d' hd'
  exact List.all_eq_true.mp (List.all_eq_true.mp hall d hd) d' hd'

theorem mem_declarations {d : Declaration} : d ∈ declarations ↔
    d = .exchangeDeclare "notifications" "direct" { durable := true } ∨
      (∃ name ∈ queueNames, d = .queueDeclare name { durable := true }) ∨
        ∃ name ∈ errorQueues, d = .queueBind ⟨name, "notifications", name⟩ := by
  simp only [declarations, TransactionPublisherImpl.init, TransactionConsumerImpl.subscribe,
    TransactionConsumerImpl.subscribeForCurrency, queueNames, errorQueues, inputQueues, List.map_cons,
    List.map_nil, List.flatten_cons, List.flatten_nil, List.cons_append, List.nil_append,
    List.mem_cons, List.not_mem_nil, or_false, exists_eq_or_imp, exists_eq_left]
  tauto

theorem fits_iff_free {h : Host Bytes} : (∀ d ∈ declarations, d.Fits h) ↔ Free h := by
  constructor
  · intro hfits
    refine ⟨(hfits _ (mem_declarations.mpr (.inl rfl))).2, fun name hname => ?_⟩
    exact hfits _ (mem_declarations.mpr (.inr (.inl ⟨name, hname, rfl⟩)))
  · rintro ⟨hexchange, hqueues⟩ d hd
    rcases mem_declarations.mp hd with rfl | ⟨name, hname, rfl⟩ | ⟨name, -, rfl⟩
    · exact ⟨by decide, hexchange⟩
    · exact hqueues name hname
    · exact (by decide : "notifications" ≠ "")

/-- Instances that start together, however their declarations mix, all come up exactly
when no other exchange or queue is in the way. Then everything is declared, and all
that was there before is there as it was. -/
theorem startUp_iff {instances : List (List Declaration)} (hsome : instances ≠ [])
    (hstart : ∀ ds ∈ instances, StartUp ds) {ds : List Declaration}
    (hmixed : Interleaving instances ds) (h : Host Bytes) :
    ((∃ h', h.declareAll ds = .ok h') ↔ Free h) ∧
      ∀ h', h.declareAll ds = .ok h' → h.ExtendsBy declarations h' ∧ InPlace h' := by
  have hmem : ∀ d, d ∈ ds ↔ d ∈ declarations := by
    intro d
    rw [hmixed.mem]
    constructor
    · rintro ⟨l, hl, hd⟩
      exact (hstart l hl).mem.mp hd
    · intro hd
      obtain ⟨l, hl⟩ := List.exists_mem_of_ne_nil instances hsome
      exact ⟨l, hl, (hstart l hl).mem.mpr hd⟩
  have hagree : ds.Pairwise fun d d' => d.agrees d' = true :=
    List.pairwise_of_forall_mem_list fun d hd d' hd' =>
      declarations_agree d ((hmem d).mp hd) d' ((hmem d').mp hd')
  have hground : Amqp.grounded [] [] ds = true := hmixed.grounded fun l hl => (hstart l hl).grounded
  refine ⟨?_, fun h' hall => ?_⟩
  · rw [Host.declareAll_iff hagree hground (fun _ hname => (List.not_mem_nil hname).elim)
      (fun _ hname => (List.not_mem_nil hname).elim), ← fits_iff_free]
    simp only [hmem]
  · obtain ⟨-, hmade⟩ := Host.declareAll_made hall
    exact ⟨(Host.declareAll_extendsBy hall).congr hmem, fun d hd => hmade d ((hmem d).mpr hd)⟩

theorem startUp_declarations : StartUp declarations :=
  ⟨_, interleaving_flatten _, rfl⟩

def emptyHost : Host Bytes := ⟨fun _ => none, fun _ => none, []⟩

theorem free_emptyHost : Free emptyHost where
  exchange _ he := nomatch he
  queues _ _ _ hq := nomatch hq

/-- A broker that holds a message from before. -/
def busyHost : Host Bytes :=
  { emptyHost with queues := fun name =>
      if name = "emails" then some ⟨{ durable := true }, [⟨[0x7b, 0x7d], true⟩], []⟩ else none }

theorem free_busyHost : Free busyHost where
  exchange _ he := nomatch he
  queues name _ q hq := by
    by_cases hname : name = "emails"
    · simp only [busyHost, if_pos hname, Option.some.injEq] at hq
      rw [← hq]
    · simp [busyHost, hname] at hq

/-- Two instances that start in step. The message stays where it is, and the error
queues are new. -/
theorem startUp_iff_example :
    ∃ h', busyHost.declareAll (declarations.flatMap fun d => [d, d]) = .ok h' ∧
      h'.queues "emails" = some ⟨{ durable := true }, [⟨[0x7b, 0x7d], true⟩], []⟩ ∧
      h'.queues "error_emails" = some ⟨{ durable := true }, [], []⟩ ∧ InPlace h' := by
  have hmixed : Interleaving [declarations, declarations] (declarations.flatMap fun d => [d, d]) :=
    interleaving_pairs _
  have hstart : ∀ ds ∈ [declarations, declarations], StartUp ds := by
    intro ds hds
    simp only [List.mem_cons, List.not_mem_nil, or_false, or_self] at hds
    rw [hds]
    exact startUp_declarations
  obtain ⟨hiff, hthen⟩ := startUp_iff (List.cons_ne_nil _ _) hstart hmixed busyHost
  obtain ⟨h', hall⟩ := hiff.mpr free_busyHost
  obtain ⟨hext, hplace⟩ := hthen h' hall
  refine ⟨h', hall, (hext.queues _ _).mpr (.inl rfl), (hext.queues _ _).mpr (.inr ⟨rfl, ?_⟩), hplace⟩
  exact ⟨_, mem_declarations.mpr (.inr (.inl ⟨"error_emails", by decide, rfl⟩)), rfl⟩

/-! ## What is declared stays -/

/-- What happens on the virtual host: somebody's command, a restart of the broker, and
a start of the service. -/
inductive HostEvent where
  | command (c : Command Bytes)
  | brokerRestarted
  | started (ds : List Declaration)

def hostMachine (types : ExchangeTypes) (h : Host Bytes) :
    Transition.Machine (Host Bytes) HostEvent where
  init := h
  step h
    | .command c => (h.apply types c).toOption
    | .brokerRestarted => some h.restart
    | .started ds => (h.declareAll ds).toOption

theorem toOption_some {ε β : Type} {x : Except ε β} {b : β} (h : x.toOption = some b) :
    x = .ok b := by
  cases x with
  | error e => cases h
  | ok b' => rw [Option.some.inj h]

theorem InPlace.mono {h h' : Host Bytes} (hplace : InPlace h) (hle : h.Extends h') : InPlace h' :=
  fun d hd => (hplace d hd).mono hle

theorem InPlace.exchange {h : Host Bytes} (hplace : InPlace h) :
    h.exchanges "notifications" = some ⟨"direct", { durable := true }⟩ :=
  (hplace (.exchangeDeclare "notifications" "direct" { durable := true }) (by decide)).2

theorem InPlace.queue {h : Host Bytes} (hplace : InPlace h) {name : String}
    (hname : name ∈ queueNames) :
    ∃ q, h.queues name = some q ∧ q.options = { durable := true } :=
  hplace _ (mem_declarations.mpr (.inr (.inl ⟨name, hname, rfl⟩)))

theorem InPlace.binding {h : Host Bytes} (hplace : InPlace h) {name : String}
    (hname : name ∈ errorQueues) : ⟨name, "notifications", name⟩ ∈ h.bindings :=
  (hplace _ (mem_declarations.mpr (.inr (.inr ⟨name, hname, rfl⟩)))).2.2.2

/-- Everything that is declared is durable. -/
theorem InPlace.restart {h : Host Bytes} (hplace : InPlace h) : InPlace h.restart := by
  have hexchange := Host.restart_exchange hplace.exchange rfl
  have hqueue : ∀ name ∈ queueNames,
      ∃ q, h.restart.queues name = some q ∧ q.options = { durable := true } := by
    intro name hname
    obtain ⟨q, hq, hoptions⟩ := hplace.queue hname
    exact ⟨_, Host.restart_queue hq (by rw [hoptions]), hoptions⟩
  intro d hd
  rcases mem_declarations.mp hd with rfl | ⟨name, hname, rfl⟩ | ⟨name, hname, rfl⟩
  · exact ⟨by decide, hexchange⟩
  · exact hqueue name hname
  · have hname' : name ∈ queueNames := List.mem_append_left _ hname
    obtain ⟨q, hq, hoptions⟩ := hplace.queue hname'
    obtain ⟨q', hq', -⟩ := hqueue name hname'
    refine ⟨(by decide : "notifications" ≠ ""), Option.isSome_iff_exists.mpr ⟨q', hq'⟩,
      Option.isSome_iff_exists.mpr ⟨_, hexchange⟩, ?_⟩
    exact Host.restart_binding (hplace.binding hname) hplace.exchange rfl hq (by rw [hoptions])

/-- Once declared, everything is there after any commands of anybody, starts and
restarts of the broker, and the service can start again without changing anything. -/
theorem inPlace_reaches {types : ExchangeTypes} {h h' : Host Bytes} {events : List HostEvent}
    (hplace : InPlace h) (hrun : (hostMachine types h).Reaches events h') :
    InPlace h' ∧ ∀ ds, StartUp ds → h'.declareAll ds = .ok h' := by
  have hplace' : InPlace h' := by
    refine hrun.invariant (P := InPlace) hplace fun h event h' hin hs => ?_
    cases event with
    | command c => exact hin.mono (Host.apply_extends (toOption_some hs))
    | brokerRestarted =>
      obtain rfl := Option.some.inj hs
      exact hin.restart
    | started ds => exact hin.mono (Host.declareAll_made (toOption_some hs)).1
  exact ⟨hplace', fun ds hds => Host.declareAll_again fun d hd => hplace' d (hds.mem.mp hd)⟩

theorem exists_inPlace : ∃ h, emptyHost.declareAll declarations = .ok h ∧ InPlace h := by
  have hground : Amqp.grounded [] [] declarations = true := startUp_declarations.grounded
  have hagree : declarations.Pairwise fun d d' => d.agrees d' = true :=
    List.pairwise_of_forall_mem_list declarations_agree
  obtain ⟨h, hall⟩ := (Host.declareAll_iff hagree hground
    (fun _ hname => (List.not_mem_nil hname).elim)
    (fun _ hname => (List.not_mem_nil hname).elim)).mpr (fits_iff_free.mpr free_emptyHost)
  exact ⟨h, hall, (Host.declareAll_made hall).2⟩

/-- A broker whose exchanges are all direct. -/
def directTypes : ExchangeTypes :=
  ⟨fun _ bindingKey routingKey => bindingKey == routingKey, fun _ _ => rfl⟩

theorem inPlace_reaches_example :
    ∃ h, emptyHost.declareAll declarations = .ok h ∧ InPlace h.restart ∧
      ∀ ds, StartUp ds → h.restart.declareAll ds = .ok h.restart := by
  obtain ⟨h, hall, hplace⟩ := exists_inPlace
  have hrun : (hostMachine directTypes h).Reaches [.brokerRestarted] h.restart := rfl
  exact ⟨h, hall, inPlace_reaches hplace hrun⟩

end PaymentsNotifications.Rabbit
