import PaymentsNotifications.Server.Fate
import PaymentsNotifications.Server.Recovery

/-! The whole service: instances in any number, each with its loops on both queues, and
the broker they share with others. An instance starts when its declarations are through,
on both queues at once; what its handlings publish reaches the virtual host in between
what the other instances and others do there. -/

namespace PaymentsNotifications.Server
open Futures Futures.Fut Models Utils Transport External Services Rabbit

/-! ## One queue -/

def ClusterEvent.isRestart {κ ι : Type} : ClusterEvent κ ι → Bool
  | .party _ event => event.isRestart
  | .outside _ => false

theorem Instance.handlings_step {ι : Type} {ok : Bytes → ι → Bool} {b b' : Backlog}
    {c c' : Instance ι} {event : LivesEvent ι} (h : c.step ok b event = some (b', c')) :
    c'.handlings = c.handlings ++ (c.on b).ended event := by
  unfold step at h
  by_cases hpublished : event.published?.isSome = true
  · rw [if_pos hpublished] at h
    cases h
  · rw [if_neg hpublished] at h
    obtain ⟨l, hl, hl'⟩ := Option.map_eq_some_iff.mp h
    obtain ⟨-, rfl⟩ := Prod.mk.inj hl'
    exact (Lives.step_spec hl).handlings_eq

namespace Cluster
variable {κ ι : Type} [DecidableEq κ] {ok : Bytes → ι → Bool}

/-- The handling that ends with the event. -/
def ended (self : Cluster κ ι) : ClusterEvent κ ι → List (Delivery × ι)
  | .party i event => ((self.parties i).on self.shared).ended event
  | .outside _ => []

/-- How often all instances together have brought about something. -/
def tally [Fintype κ] {α : Type} [DecidableEq α] (f : Delivery × ι → List α) (a : α)
    (self : Cluster κ ι) : Nat :=
  ∑ i, ((self.parties i).handlings.flatMap f).count a

theorem tally_next [Fintype κ] {α : Type} [DecidableEq α] (f : Delivery × ι → List α) (a : α)
    {s s' : Cluster κ ι} {event : ClusterEvent κ ι} (h : (instances ok).next s event = some s') :
    s'.tally f a = s.tally f a + ((s.ended event).flatMap f).count a := by
  cases Parties.step_spec h with
  | @party i e b c hs =>
    have hsum := Parties.sum_update (fun c : Instance ι => (c.handlings.flatMap f).count a)
      s.parties i c
    have hhandlings : c.handlings = (s.parties i).handlings ++ s.ended (.party i e) :=
      Instance.handlings_step hs
    rw [hhandlings, List.flatMap_append, List.count_append] at hsum
    simp only [tally]
    omega
  | outside => rfl

end Cluster

/-! ## The fleet -/

structure Fleet (κ : Type) where
  queues : Outbox → Cluster κ Met
  host : Amqp.Host Bytes

inductive FleetEvent (κ : Type) where
  | queue (q : Outbox) (event : ClusterEvent κ Met)
  | restarted (i : κ) (ds : List Amqp.Declaration)
  | others (c : Amqp.Command Bytes)

/-- A new process makes its declarations, and others leave the service's queues alone. -/
def FleetEvent.Proper {κ : Type} : FleetEvent κ → Prop
  | .queue _ _ => True
  | .restarted _ ds => StartUp ds
  | .others c => Foreign c

namespace Fleet
variable {κ : Type} [DecidableEq κ]

/-- No instance is started. -/
def start (contents : Outbox → List Bytes) (host : Amqp.Host Bytes) : Fleet κ :=
  ⟨fun q => .start (contents q), host⟩

def brings (process : Process) (self : Fleet κ) (q : Outbox) (event : ClusterEvent κ Met) :
    List (Amqp.Command Bytes) :=
  ((self.queues q).ended event).flatMap (process.publications q)

def step (types : Amqp.ExchangeTypes) (process : Process) (self : Fleet κ) :
    FleetEvent κ → Option (Fleet κ)
  | .queue q event =>
    if ClusterEvent.isRestart event then none
    else do
      let s ← (instances (process.succeeds q)).next (self.queues q) event
      let host ← (self.host.applyAll types (self.brings process q event)).toOption
      some ⟨Function.update self.queues q s, host⟩
  | .restarted i ds =>
    (self.host.declareAll ds).toOption.map fun host => ⟨fun q => (self.queues q).restart i, host⟩
  | .others c => (self.host.apply types c).toOption.map fun host => { self with host := host }

def machine (types : Amqp.ExchangeTypes) (process : Process) (contents : Outbox → List Bytes)
    (host : Amqp.Host Bytes) : Transition.Machine (Fleet κ) (FleetEvent κ) where
  init := start contents host
  step := step types process

/-- What a step does, case by case. -/
inductive Step (types : Amqp.ExchangeTypes) (process : Process) :
    Fleet κ → FleetEvent κ → Fleet κ → Prop where
  | queue {F q event s host} (halive : ClusterEvent.isRestart event = false)
      (hs : (instances (process.succeeds q)).next (F.queues q) event = some s)
      (hhost : F.host.applyAll types (F.brings process q event) = .ok host) :
      Step types process F (.queue q event) ⟨Function.update F.queues q s, host⟩
  | restarted {F i ds host} (hhost : F.host.declareAll ds = .ok host) :
      Step types process F (.restarted i ds) ⟨fun q => (F.queues q).restart i, host⟩
  | others {F c host} (hhost : F.host.apply types c = .ok host) :
      Step types process F (.others c) { F with host := host }

theorem step_spec {types : Amqp.ExchangeTypes} {process : Process} {F F' : Fleet κ}
    {event : FleetEvent κ} (h : F.step types process event = some F') :
    Step types process F event F' := by
  cases event with
  | queue q event =>
    simp only [step] at h
    by_cases halive : ClusterEvent.isRestart event = true
    · rw [if_pos halive] at h
      cases h
    · rw [if_neg halive] at h
      obtain ⟨s, hs, h⟩ := Option.bind_eq_some_iff.mp h
      obtain ⟨host, hhost, h⟩ := Option.bind_eq_some_iff.mp h
      obtain rfl := Option.some.inj h
      exact .queue (Bool.eq_false_of_not_eq_true halive) hs (toOption_some hhost)
  | restarted i ds =>
    obtain ⟨host, hhost, rfl⟩ := Option.map_eq_some_iff.mp h
    exact .restarted (toOption_some hhost)
  | others c =>
    obtain ⟨host, hhost, rfl⟩ := Option.map_eq_some_iff.mp h
    exact .others (toOption_some hhost)

variable {types : Amqp.ExchangeTypes} {process : Process} {contents : Outbox → List Bytes}
  {host : Amqp.Host Bytes} {events : List (FleetEvent κ)} {F : Fleet κ}

/-- A step takes a queue one step further, or leaves it alone. -/
theorem Step.cluster {event : FleetEvent κ} {F' : Fleet κ} (hstep : Step types process F event F')
    (q : Outbox) : F'.queues q = F.queues q ∨
      ∃ label, (instances (process.succeeds q)).next (F.queues q) label = some (F'.queues q) := by
  cases hstep with
  | @queue q' event s host _ hs _ =>
    by_cases hq : q = q'
    · subst hq
      refine .inr ⟨event, ?_⟩
      simp only [hs, Function.update_self]
    · exact .inl (Function.update_of_ne hq ..)
  | restarted => exact .inr ⟨_, Cluster.next_restarted ..⟩
  | others => exact .inl rfl

/-- What happens to one queue is a run of its instances. -/
theorem reaches_cluster (h : (machine types process contents host).Reaches events F) (q : Outbox) :
    ∃ labels, (Cluster.machine (process.succeeds q) (contents q)).Reaches labels (F.queues q) := by
  refine h.invariant (P := fun F =>
    ∃ labels, (Cluster.machine (process.succeeds q) (contents q)).Reaches labels (F.queues q)) ?_ ?_
  · exact ⟨[], rfl⟩
  rintro F event F' ⟨labels, hreaches⟩ hs
  rcases (step_spec hs).cluster q with hsame | ⟨label, hlabel⟩
  · exact ⟨labels, hsame ▸ hreaches⟩
  · exact ⟨labels ++ [label], hreaches.snoc hlabel⟩

/-! ## What the service can do -/

omit [DecidableEq κ] in
theorem brings_eq (process : Process) (F : Fleet κ) (q : Outbox) (event : ClusterEvent κ Met) :
    F.brings process q event = (((F.queues q).ended event).flatMap (process.parkedMessages q)).map
      (.basicPublish "notifications" (Process.errorQueueOf q)) := by
  rw [brings, List.map_flatMap]
  exact congrArg (List.flatMap · _) (funext fun h => Process.publications_eq h)

/-- The virtual host holds no queue up. -/
theorem runFrom_cluster (types : Amqp.ExchangeTypes) (contents : Outbox → List Bytes)
    (host : Amqp.Host Bytes) {F : Fleet κ} (hplace : InPlace F.host) (q : Outbox)
    {labels : List (ClusterEvent κ Met)} {s : Cluster κ Met}
    (hrun : (Cluster.machine (process.succeeds q) (contents q)).runFrom (F.queues q) labels = some s)
    (halive : ∀ label ∈ labels, ClusterEvent.isRestart label = false) :
    ∃ host', (machine types process contents host).runFrom F (labels.map (.queue q)) =
      some ⟨Function.update F.queues q s, host'⟩ := by
  induction labels generalizing F with
  | nil =>
    obtain rfl := Option.some.inj hrun
    refine ⟨F.host, ?_⟩
    rw [Function.update_eq_self]
    rfl
  | cons label labels ih =>
    rw [Transition.Machine.runFrom] at hrun
    obtain ⟨s₁, hs₁, hrun⟩ := Option.bind_eq_some_iff.mp hrun
    obtain ⟨host₁, hhost₁⟩ := applyAll_parked types hplace (Process.errorQueueOf q)
      (((F.queues q).ended label).flatMap (process.parkedMessages q))
    have hstep : F.step types process (.queue q label) =
        some ⟨Function.update F.queues q s₁, host₁⟩ := by
      have hs : (instances (process.succeeds q)).next (F.queues q) label = some s₁ := hs₁
      simp [step, halive label List.mem_cons_self, hs, brings_eq, hhost₁, Except.toOption]
    obtain ⟨host', hrest⟩ := ih (F := ⟨Function.update F.queues q s₁, host₁⟩)
      (hplace.mono (Amqp.Host.applyAll_extends hhost₁))
      (by simpa only [Function.update_self] using hrun)
      fun label' hmem => halive label' (List.mem_cons_of_mem _ hmem)
    refine ⟨host', ?_⟩
    rw [List.map_cons, Transition.Machine.runFrom_cons _ hstep, hrest, Function.update_idem]

/-- The instances are started again, one by one. -/
theorem runFrom_restarted (types : Amqp.ExchangeTypes) (process : Process)
    (contents : Outbox → List Bytes) (host : Amqp.Host Bytes) {F : Fleet κ} (hplace : InPlace F.host)
    (is : List κ) :
    (machine types process contents host).runFrom F (is.map (.restarted · declarations)) =
      some ⟨fun q => (F.queues q).restartAll is, F.host⟩ := by
  induction is generalizing F with
  | nil => rfl
  | cons i is ih =>
    have hall : F.host.declareAll declarations = .ok F.host :=
      Amqp.Host.declareAll_again fun d hd => hplace d hd
    have hstep : F.step types process (.restarted i declarations) =
        some ⟨fun q => (F.queues q).restart i, F.host⟩ := by
      simp only [step, hall]
      rfl
    rw [List.map_cons, Transition.Machine.runFrom_cons _ hstep]
    exact ih hplace

/-! ## The error queues -/

section Accounts
variable [Fintype κ]

/-- What the error queues have got is what the handlings of all instances have published,
each message as often. The queues that are consumed are not touched on the host. -/
structure Accounts (process : Process) (host : Amqp.Host Bytes) (F : Fleet κ) : Prop where
  inPlace : InPlace F.host
  parked : ∀ q message, (F.host.history (Process.errorQueueOf q)).count message =
    (host.history (Process.errorQueueOf q)).count message +
      (F.queues q).tally (process.parkedMessages q) message
  pushes : F.host.history "error_pushes" = host.history "error_pushes"
  inputs : ∀ name ∈ inputQueues, F.host.queues name = host.queues name

omit [DecidableEq κ] in
/-- A step that brings nothing into the queues and handles nothing. -/
theorem Accounts.moved {F F' : Fleet κ} (h : Accounts process host F) (hplace : InPlace F'.host)
    (hhistory : ∀ name ∈ errorQueues, F'.host.history name = F.host.history name)
    (hinputs : ∀ name ∈ inputQueues, F'.host.queues name = F.host.queues name)
    (htally : ∀ q message, (F'.queues q).tally (process.parkedMessages q) message =
      (F.queues q).tally (process.parkedMessages q) message) : Accounts process host F' where
  inPlace := hplace
  parked q message := by
    rw [hhistory _ (Process.errorQueueOf_mem q), htally q message, h.parked q message]
  pushes := by rw [hhistory _ (by decide), h.pushes]
  inputs name hname := (hinputs name hname).trans (h.inputs name hname)

theorem Step.accounted {event : FleetEvent κ} {F' : Fleet κ} (hstep : Step types process F event F')
    (hproper : event.Proper) (hown : Own F.host) (h : Accounts process host F) :
    Own F'.host ∧ Accounts process host F' := by
  cases hstep with
  | @queue q event s host' halive hs hhost =>
    rw [brings_eq] at hhost
    obtain ⟨hplace, hown', hhistory, hpushes, hinputs⟩ :=
      Process.history_brought h.inPlace hown hhost
    refine ⟨hown', hplace, fun q' message => ?_, hpushes.trans h.pushes,
      fun name hname => (hinputs name hname).trans (h.inputs name hname)⟩
    show (host'.history _).count message =
      _ + (Function.update F.queues q s q').tally (process.parkedMessages q') message
    rw [hhistory, List.count_append, h.parked q' message]
    by_cases hq : q' = q
    · subst hq
      rw [if_pos rfl, Function.update_self, Cluster.tally_next _ _ hs, Nat.add_assoc]
    · rw [if_neg hq, List.count_nil, Nat.add_zero, Function.update_of_ne hq]
  | @restarted i ds host' hhost =>
    obtain rfl := kept_startUp h.inPlace hproper hhost
    refine ⟨hown, h.moved h.inPlace (fun _ _ => rfl) (fun _ _ => rfl) fun q message => ?_⟩
    exact Cluster.tally_next _ _ (Cluster.next_restarted (process.succeeds q) (F.queues q) i)
  | @others c host' hhost =>
    obtain ⟨hplace, hown', hhistory, hinputs⟩ := kept_foreign h.inPlace hown hproper hhost
    exact ⟨hown', h.moved hplace hhistory hinputs fun _ _ => rfl⟩

theorem reaches_accounts (h : (machine types process contents host).Reaches events F)
    (hproper : ∀ event ∈ events, event.Proper) (hplace : InPlace host) (hown : Own host) :
    Own F.host ∧ Accounts process host F := by
  have hstart : Accounts process host (start contents host : Fleet κ) :=
    { inPlace := hplace
      parked := fun q message => by
        simp [start, Cluster.tally, Cluster.start, Instance.handlings, Instance.absent]
      pushes := rfl
      inputs := fun _ _ => rfl }
  refine h.history (P := fun events F =>
    (∀ event ∈ events, event.Proper) → Own F.host ∧ Accounts process host F)
    (fun _ => ⟨hown, hstart⟩) (fun events F event F' ih hs hproper => ?_) hproper
  obtain ⟨hown, haccounts⟩ := ih fun e he => hproper e (List.mem_append_left _ he)
  exact (step_spec hs).accounted
    (hproper event (List.mem_append_right _ (List.mem_singleton.mpr rfl))) hown haccounts

/-- An instance had an answer to it that its client took for a success, or has published
it to its error queue. -/
inductive Decided (process : Process) (F : Fleet κ) (q : Outbox) (m : Message) : Prop where
  | answered {i : κ} {h : Delivery × Met} {n : Notification}
      (hmem : h ∈ ((F.queues q).parties i).handlings) (hmessage : h.1.message = m)
      (hparse : q.parse process.crates.json m.data = .ok n) (hanswered : process.Answered q h n)
  | parked {i : κ} {h : Delivery × Met} {n : Notification}
      (hmem : h ∈ ((F.queues q).parties i).handlings) (hmessage : h.1.message = m)
      (hparse : q.parse process.crates.json m.data = .ok n) (hparked : process.Parked q h n)
      (harrived : ⟨process.payload n, false⟩ ∈ F.host.history (Process.errorQueueOf q))

inductive Fate (process : Process) (F : Fleet κ) (q : Outbox) (m : Message) : Prop where
  | ready (h : m ∈ (F.queues q).shared.ready)
  | outstanding {i : κ} {d : Delivery} (h : d ∈ ((F.queues q).parties i).unacked)
      (hd : d.message = m)
  | decided (h : Decided process F q m)

/-- In no handling of the message did a timer fail, or a publication. -/
def Faithful (process : Process) (F : Fleet κ) (q : Outbox) (m : Message) : Prop :=
  ∀ i, ∀ h ∈ ((F.queues q).parties i).handlings, h.1.message = m →
    ∀ e ∈ process.handlingEvents q h, Process.Faithful e

theorem decided_of_acked (h : (machine types process contents host).Reaches events F)
    (hproper : ∀ event ∈ events, event.Proper) (hplace : InPlace host) (hown : Own host)
    {q : Outbox} {m : Message} (hm : m ∈ (F.queues q).shared.acked)
    (hfaithful : Faithful process F q m) : Decided process F q m := by
  obtain ⟨labels, hcluster⟩ := reaches_cluster h q
  obtain ⟨i, d, met, hmem, rfl, hok⟩ := (Cluster.reaches_recorded hcluster).acked m hm
  obtain ⟨n, hparse, hanswered | hparked⟩ :=
    process.decided hok (hfaithful i (d, met) hmem rfl)
  · exact .answered hmem rfl hparse hanswered
  · refine .parked hmem rfl hparse hparked (List.count_pos_iff.mp ?_)
    have hmine : 0 < (((F.queues q).parties i).handlings.flatMap (process.parkedMessages q)).count
        ⟨process.payload n, false⟩ :=
      List.count_pos_iff.mpr (List.mem_flatMap.mpr
        ⟨(d, met), hmem, Process.parkedMessages_mem hparked⟩)
    have hall := Finset.single_le_sum (f := fun j => (((F.queues q).parties j).handlings.flatMap
      (process.parkedMessages q)).count ⟨process.payload n, false⟩)
      (fun _ _ => Nat.zero_le _) (Finset.mem_univ i)
    rw [(reaches_accounts h hproper hplace hown).2.parked q, Cluster.tally]
    omega

/-- Every message that was ever in a queue, at any time, whichever instances have had it. -/
theorem shared_fate (h : (machine types process contents host).Reaches events F)
    (hproper : ∀ event ∈ events, event.Proper) (hplace : InPlace host) (hown : Own host)
    {q : Outbox} {m : Message} (hm : m ∈ (F.queues q).shared.published)
    (hfaithful : Faithful process F q m) : Fate process F q m := by
  obtain ⟨labels, hcluster⟩ := reaches_cluster h q
  have hplaced := Cluster.count_placed hcluster m
  have hpos := List.count_pos_iff.mpr hm
  by_cases hready : m ∈ (F.queues q).shared.ready
  · exact .ready hready
  by_cases hacked : m ∈ (F.queues q).shared.acked
  · exact .decided (decided_of_acked h hproper hplace hown hacked hfaithful)
  · rw [List.count_eq_zero_of_not_mem hready, List.count_eq_zero_of_not_mem hacked] at hplaced
    obtain ⟨i, -, hi⟩ := Finset.exists_ne_zero_of_sum_ne_zero
      (show ∑ i, ((F.queues q).parties i).holds m ≠ 0 by omega)
    obtain ⟨d, hd, hmessage⟩ := List.mem_map.mp (List.count_pos_iff.mp (Nat.pos_of_ne_zero hi))
    exact .outstanding hd hmessage

end Accounts

/-! ## Two instances and an email

The first instance is started, and does something with it. -/

def exampleMail : Message := ⟨0, bytesOf exampleEmailJson⟩

def workedEvents (labels : List (LivesEvent Met)) : List (FleetEvent Bool) :=
  [false].map (.restarted · declarations) ++ (labels.map (.party false)).map (.queue .emails)

/-- What has come of the queues then. -/
def worked (b : Backlog) (c : Instance Met) : Outbox → Cluster Bool Met
  | .callbacks => (Cluster.start []).restart false
  | .emails => ⟨b, fun i => if i then .absent else c⟩

theorem proper_worked {labels : List (LivesEvent Met)} :
    ∀ event ∈ workedEvents labels, event.Proper := by
  intro event hmem
  rcases List.mem_append.mp hmem with hfirst | hrest
  · obtain ⟨i, -, rfl⟩ := List.mem_map.mp hfirst
    exact startUp_declarations
  · obtain ⟨label, -, rfl⟩ := List.mem_map.mp hrest
    exact trivial

theorem exists_worked (labels : List (LivesEvent Met)) {b : Backlog} {c : Instance Met}
    (hrun : (Parties.alone (instances (patientProcess.succeeds .emails))
      (⟨[exampleMail], [exampleMail], [], []⟩, Instance.absent.restart)).runFrom
        (⟨[exampleMail], [exampleMail], [], []⟩, Instance.absent.restart) labels = some (b, c))
    (halive : ∀ label ∈ labels.map (.party false), (label : ClusterEvent Bool Met).isRestart = false) :
    ∃ (host : Amqp.Host Bytes) (F : Fleet Bool), InPlace host ∧ Own host ∧
      (∀ name, host.history name = []) ∧
      (machine directTypes patientProcess Deployment.exampleContents host).Reaches
        (workedEvents labels) F ∧ F.queues = worked b c := by
  obtain ⟨host, hall, hplace⟩ := exists_inPlace
  let F₁ : Fleet Bool :=
    ⟨fun q => ((start Deployment.exampleContents host : Fleet Bool).queues q).restartAll [false], host⟩
  have hrestarted : (machine directTypes patientProcess Deployment.exampleContents host).Reaches
      ([false].map (.restarted · declarations)) F₁ := runFrom_restarted _ _ _ _ hplace [false]
  have hcluster : (Cluster.machine (patientProcess.succeeds .emails)
      (Deployment.exampleContents .emails)).runFrom (F₁.queues .emails)
        (labels.map (.party false)) = some _ := Parties.runFrom_party hrun
  obtain ⟨host', hworked⟩ := runFrom_cluster directTypes Deployment.exampleContents host hplace
    .emails hcluster halive
  refine ⟨host, _, hplace, Deployment.own_emptyHost.started (Amqp.Host.declareAll_extendsBy hall),
    fun name => Amqp.Host.history_declareAll hall name,
    Transition.Machine.runFrom_trans _ hrestarted hworked, funext fun q => ?_⟩
  cases q with
  | callbacks => rfl
  | emails =>
    have hparties : Function.update (F₁.queues .emails).parties false c =
        fun i => if i then .absent else c := funext fun i => by cases i <;> rfl
    simp only [Function.update_self, worked, hparties]

/-- The mail service answers 500 to every attempt. -/
def refusedMail : Instance Met :=
  .of ⟨(Instance.absent.restart.on ⟨[exampleMail], [exampleMail], [], []⟩).system.taken exampleMail []
    Deployment.refusing500, true, [[]]⟩

theorem exists_refused : ∃ (host : Amqp.Host Bytes) (F : Fleet Bool), InPlace host ∧ Own host ∧
    (∀ name, host.history name = []) ∧
    (machine directTypes patientProcess Deployment.exampleContents host).Reaches
      (workedEvents ((System.takenLabels Deployment.refusing500).map .event)) F ∧
    F.queues = worked ⟨[], [exampleMail], [exampleMail], []⟩ refusedMail :=
  exists_worked _ (Instance.runFrom_system _ rfl (by decide)
    (System.runFrom_taken [] ((Instance.fresh_restart _).idle _) rfl (by decide))) (by decide)

theorem shared_fate_example : ∃ F : Fleet Bool, Fate patientProcess F .emails exampleMail := by
  obtain ⟨host, F, hplace, hown, -, hreaches, hqueues⟩ := exists_refused
  refine ⟨F, shared_fate hreaches proper_worked hplace hown ?_ fun i h hmem _ e he => ?_⟩
  · rw [hqueues]
    exact List.mem_cons_self
  · rw [hqueues] at hmem
    cases i with
    | true => cases hmem
    | false =>
      rw [List.mem_singleton.mp hmem] at he
      exact Deployment.faithful_answering _ .emails _ e he

end Fleet

end PaymentsNotifications.Server
