import PaymentsNotifications.Lib.Amqp.Host

/-! Declarations on a virtual host. A declaration is a no-op where it has been made,
and every later host is such a place; so channels can declare side by side, as often
as they like. -/

namespace Amqp
variable {α : Type}

/-- Everything there is stays, with its options. -/
structure Host.Extends (h h' : Host α) : Prop where
  exchanges : ∀ name e, h.exchanges name = some e → h'.exchanges name = some e
  queues : ∀ name q, h.queues name = some q → ∃ q', h'.queues name = some q' ∧ q'.options = q.options
  bindings : h.bindings ⊆ h'.bindings

/-- The declaration has been made. -/
def Declaration.Made (h : Host α) : Declaration → Prop
  | .exchangeDeclare exchange kind options =>
    exchange ≠ "" ∧ h.exchanges exchange = some ⟨kind, options⟩
  | .queueDeclare queue options => ∃ q, h.queues queue = some q ∧ q.options = options
  | .queueBind binding =>
    binding.exchange ≠ "" ∧ (h.queues binding.queue).isSome = true ∧
      (h.exchanges binding.exchange).isSome = true ∧ binding ∈ h.bindings

namespace Host

theorem Extends.refl (h : Host α) : h.Extends h :=
  ⟨fun _ _ => id, fun _ q hq => ⟨q, hq, rfl⟩, fun _ => id⟩

theorem Extends.trans {h h' h'' : Host α} (hle : h.Extends h') (hle' : h'.Extends h'') :
    h.Extends h'' where
  exchanges name e he := hle'.exchanges name e (hle.exchanges name e he)
  queues name q hq := by
    obtain ⟨q', hq', hoptions⟩ := hle.queues name q hq
    obtain ⟨q'', hq'', hoptions'⟩ := hle'.queues name q' hq'
    exact ⟨q'', hq'', hoptions'.trans hoptions⟩
  bindings := fun _ hb => hle'.bindings (hle.bindings hb)

theorem Extends.exchange_isSome {h h' : Host α} (hle : h.Extends h') {name : String}
    (hsome : (h.exchanges name).isSome = true) : (h'.exchanges name).isSome = true := by
  obtain ⟨e, he⟩ := Option.isSome_iff_exists.mp hsome
  exact Option.isSome_iff_exists.mpr ⟨e, hle.exchanges name e he⟩

theorem Extends.queue_isSome {h h' : Host α} (hle : h.Extends h') {name : String}
    (hsome : (h.queues name).isSome = true) : (h'.queues name).isSome = true := by
  obtain ⟨q, hq⟩ := Option.isSome_iff_exists.mp hsome
  obtain ⟨q', hq', -⟩ := hle.queues name q hq
  exact Option.isSome_iff_exists.mpr ⟨q', hq'⟩

theorem extends_exchange {h : Host α} {name : String} (hnone : h.exchanges name = none)
    (e : Exchange) : h.Extends { h with exchanges := Function.update h.exchanges name (some e) } where
  exchanges name' e' he' := by
    have hne : name' ≠ name := fun heq => by rw [heq, hnone] at he'; cases he'
    exact (Function.update_of_ne hne _ _).trans he'
  queues _ q hq := ⟨q, hq, rfl⟩
  bindings _ hb := hb

/-- A queue is made, or changed in its messages. -/
theorem extends_queue {h : Host α} {name : String} {q : Queue α}
    (hsame : ∀ q', h.queues name = some q' → q.options = q'.options) :
    h.Extends { h with queues := Function.update h.queues name (some q) } where
  exchanges _ _ he := he
  queues name' q' hq' := by
    by_cases hname : name' = name
    · subst hname
      exact ⟨q, Function.update_self .., hsame q' hq'⟩
    · exact ⟨q', (Function.update_of_ne hname _ _).trans hq', rfl⟩
  bindings _ hb := hb

/-- What a declaration that is accepted does: nothing, or it adds what it declares. -/
inductive Declared (h : Host α) : Declaration → Host α → Prop where
  | present {d : Declaration} (hmade : d.Made h) : Declared h d h
  | exchange {exchange kind : String} {options : ExchangeOptions} (hname : exchange ≠ "")
      (hnone : h.exchanges exchange = none) :
      Declared h (.exchangeDeclare exchange kind options)
        { h with exchanges := Function.update h.exchanges exchange (some ⟨kind, options⟩) }
  | queue {queue : String} {options : QueueOptions} (hnone : h.queues queue = none) :
      Declared h (.queueDeclare queue options)
        { h with queues := Function.update h.queues queue (some ⟨options, [], []⟩) }
  | binding {binding : Binding} (hname : binding.exchange ≠ "")
      (hqueue : (h.queues binding.queue).isSome = true)
      (hexchange : (h.exchanges binding.exchange).isSome = true) :
      Declared h (.queueBind binding) { h with bindings := h.bindings ++ [binding] }

theorem declare_spec {h h' : Host α} {d : Declaration} (hd : h.declare d = .ok h') :
    Declared h d h' := by
  cases d with
  | exchangeDeclare exchange kind options =>
    simp only [declare] at hd
    by_cases hname : exchange = ""
    · rw [if_pos hname] at hd
      cases hd
    · rw [if_neg hname] at hd
      cases he : h.exchanges exchange with
      | none =>
        rw [he] at hd
        obtain rfl := Except.ok.inj hd
        exact .exchange hname he
      | some e =>
        simp only [he] at hd
        by_cases hsame : e = ⟨kind, options⟩
        · rw [if_pos hsame] at hd
          obtain rfl := Except.ok.inj hd
          exact .present ⟨hname, he.trans (congrArg some hsame)⟩
        · rw [if_neg hsame] at hd
          cases hd
  | queueDeclare queue options =>
    simp only [declare] at hd
    cases hq : h.queues queue with
    | none =>
      rw [hq] at hd
      obtain rfl := Except.ok.inj hd
      exact .queue hq
    | some q =>
      simp only [hq] at hd
      by_cases hsame : q.options = options
      · rw [if_pos hsame] at hd
        obtain rfl := Except.ok.inj hd
        exact .present ⟨q, hq, hsame⟩
      · rw [if_neg hsame] at hd
        cases hd
  | queueBind binding =>
    simp only [declare] at hd
    by_cases hname : binding.exchange = ""
    · rw [if_pos hname] at hd
      cases hd
    rw [if_neg hname] at hd
    by_cases hthere : ((h.queues binding.queue).isSome && (h.exchanges binding.exchange).isSome) = true
    · rw [if_pos hthere] at hd
      rw [Bool.and_eq_true] at hthere
      by_cases hmem : binding ∈ h.bindings
      · rw [if_pos hmem] at hd
        obtain rfl := Except.ok.inj hd
        exact .present ⟨hname, hthere.1, hthere.2, hmem⟩
      · rw [if_neg hmem] at hd
        obtain rfl := Except.ok.inj hd
        exact .binding hname hthere.1 hthere.2
    · rw [if_neg hthere] at hd
      cases hd

theorem Declared.made {h h' : Host α} {d : Declaration} (hd : Declared h d h') : d.Made h' := by
  cases hd with
  | present hmade => exact hmade
  | exchange hname => exact ⟨hname, Function.update_self ..⟩
  | queue => exact ⟨_, Function.update_self .., rfl⟩
  | binding hname hqueue hexchange =>
    exact ⟨hname, hqueue, hexchange, List.mem_append_right _ (List.mem_singleton.mpr rfl)⟩

theorem Declared.extends {h h' : Host α} {d : Declaration} (hd : Declared h d h') :
    h.Extends h' := by
  cases hd with
  | present => exact .refl h
  | exchange _ hnone => exact extends_exchange hnone _
  | queue hnone => exact extends_queue fun q' hq' => by rw [hnone] at hq'; cases hq'
  | binding => exact ⟨fun _ _ => id, fun _ q hq => ⟨q, hq, rfl⟩, List.subset_append_left _ _⟩

theorem Declared.exchanges {h h' : Host α} {d : Declaration} (hd : Declared h d h') {name : String}
    {e : Exchange} (he : h'.exchanges name = some e) :
    h.exchanges name = some e ∨ d = .exchangeDeclare name e.kind e.options := by
  cases hd with
  | @exchange exchange kind options =>
    by_cases hname : name = exchange
    · subst hname
      simp only [Function.update_self, Option.some.injEq] at he
      subst he
      exact .inr rfl
    · exact .inl ((Function.update_of_ne hname _ _).symm.trans he)
  | present => exact .inl he
  | queue => exact .inl he
  | binding => exact .inl he

theorem Declared.queues {h h' : Host α} {d : Declaration} (hd : Declared h d h') {name : String}
    {q : Queue α} (hq : h'.queues name = some q) :
    h.queues name = some q ∨
      h.queues name = none ∧ d = .queueDeclare name q.options ∧ q.history = [] := by
  cases hd with
  | @queue queue options hnone =>
    by_cases hname : name = queue
    · subst hname
      simp only [Function.update_self, Option.some.injEq] at hq
      subst hq
      exact .inr ⟨hnone, rfl, rfl⟩
    · exact .inl ((Function.update_of_ne hname _ _).symm.trans hq)
  | present => exact .inl hq
  | exchange => exact .inl hq
  | binding => exact .inl hq

/-- A queue that is there stays as it is. -/
theorem Declared.queue_kept {h h' : Host α} {d : Declaration} (hd : Declared h d h') {name : String}
    {q : Queue α} (hq : h.queues name = some q) : h'.queues name = some q := by
  obtain ⟨q', hq', -⟩ := hd.extends.queues name q hq
  rcases hd.queues hq' with hold | ⟨hnone, -⟩
  · rw [hq', ← hold, hq]
  · rw [hnone] at hq
    cases hq

theorem Declared.bindings {h h' : Host α} {d : Declaration} (hd : Declared h d h') {b : Binding}
    (hb : b ∈ h'.bindings) : b ∈ h.bindings ∨ d = .queueBind b := by
  cases hd with
  | binding =>
    rcases List.mem_append.mp hb with hold | hnew
    · exact .inl hold
    · rw [List.mem_singleton.mp hnew]
      exact .inr rfl
  | present => exact .inl hb
  | exchange => exact .inl hb
  | queue => exact .inl hb

theorem apply_extends {types : ExchangeTypes} {h h' : Host α} {c : Command α}
    (hc : h.apply types c = .ok h') : h.Extends h' := by
  cases c with
  | declare d => exact (declare_spec hc).extends
  | basicPublish exchange routingKey message =>
    simp only [apply] at hc
    split at hc
    · obtain rfl := Except.ok.inj hc
      refine ⟨fun _ _ => id, fun name q hq => ?_, fun _ => id⟩
      refine ⟨if h.routes types exchange routingKey name then q.push message else q, ?_, ?_⟩
      · show (h.queues name).map _ = _
        rw [hq]
        rfl
      · split <;> rfl
    · cases hc
  | basicGet queue =>
    simp only [apply] at hc
    cases hq : h.queues queue with
    | none =>
      rw [hq] at hc
      cases hc
    | some q =>
      rw [hq] at hc
      obtain rfl := Except.ok.inj hc
      refine extends_queue fun q' hq' => ?_
      rw [hq] at hq'
      obtain rfl := Option.some.inj hq'
      exact q.pop_options

end Host

/-- What was declared stays declared. -/
theorem Declaration.Made.mono {d : Declaration} {h h' : Host α} (hmade : d.Made h)
    (hle : h.Extends h') : d.Made h' := by
  cases d with
  | exchangeDeclare => exact ⟨hmade.1, hle.exchanges _ _ hmade.2⟩
  | queueDeclare =>
    obtain ⟨q, hq, hoptions⟩ := hmade
    obtain ⟨q', hq', hsame⟩ := hle.queues _ q hq
    exact ⟨q', hq', hsame.trans hoptions⟩
  | queueBind =>
    obtain ⟨hname, hq, he, hmem⟩ := hmade
    exact ⟨hname, hle.queue_isSome hq, hle.exchange_isSome he, hle.bindings hmem⟩

/-- To declare it again changes nothing. -/
theorem Declaration.Made.declare {d : Declaration} {h : Host α} (hmade : d.Made h) :
    h.declare d = .ok h := by
  cases d with
  | exchangeDeclare exchange kind options =>
    obtain ⟨hname, he⟩ := hmade
    simp [Host.declare, hname, he]
  | queueDeclare queue options =>
    obtain ⟨q, hq, hoptions⟩ := hmade
    simp [Host.declare, hq, hoptions]
  | queueBind binding =>
    obtain ⟨hname, hq, he, hmem⟩ := hmade
    simp [Host.declare, hname, hq, he, hmem]

/-! ## A channel's declarations -/

/-- Nothing of the host is in the way. -/
def Declaration.Fits (h : Host α) : Declaration → Prop
  | .exchangeDeclare exchange kind options =>
    exchange ≠ "" ∧ ∀ e, h.exchanges exchange = some e → e = ⟨kind, options⟩
  | .queueDeclare queue options => ∀ q, h.queues queue = some q → q.options = options
  | .queueBind binding => binding.exchange ≠ ""

def Declaration.agrees : Declaration → Declaration → Bool
  | .exchangeDeclare exchange kind options, .exchangeDeclare exchange' kind' options' =>
    exchange != exchange' || (kind == kind' && options == options')
  | .queueDeclare queue options, .queueDeclare queue' options' =>
    queue != queue' || options == options'
  | _, _ => true

/-- What is bound is there, or has been declared before. -/
def grounded (queues exchanges : List String) : List Declaration → Bool
  | [] => true
  | .exchangeDeclare exchange _ _ :: ds => grounded queues (exchange :: exchanges) ds
  | .queueDeclare queue _ :: ds => grounded (queue :: queues) exchanges ds
  | .queueBind binding :: ds =>
    queues.contains binding.queue && exchanges.contains binding.exchange && grounded queues exchanges ds

theorem Declaration.Made.fits {d : Declaration} {h h' : Host α} (hmade : d.Made h')
    (hle : h.Extends h') : d.Fits h := by
  cases d with
  | exchangeDeclare exchange kind options =>
    refine ⟨hmade.1, fun e he => ?_⟩
    exact Option.some.inj ((hle.exchanges _ _ he).symm.trans hmade.2)
  | queueDeclare queue options =>
    intro q hq
    obtain ⟨q', hq', hsame⟩ := hle.queues _ _ hq
    obtain ⟨q'', hq'', hoptions⟩ := hmade
    rw [hq'] at hq''
    obtain rfl := Option.some.inj hq''
    exact hsame.symm.trans hoptions
  | queueBind binding => exact hmade.1

theorem Declaration.Fits.declared {d d' : Declaration} {h h' : Host α} (hfits : d'.Fits h)
    (hagree : d.agrees d' = true) (hd : h.Declared d h') : d'.Fits h' := by
  cases d' with
  | exchangeDeclare exchange kind options =>
    refine ⟨hfits.1, fun e he => ?_⟩
    rcases hd.exchanges he with hold | rfl
    · exact hfits.2 e hold
    · obtain ⟨rfl, rfl⟩ : e.kind = kind ∧ e.options = options := by
        simpa [Declaration.agrees] using hagree
      rfl
  | queueDeclare queue options =>
    intro q hq
    rcases hd.queues hq with hold | ⟨-, rfl, -⟩
    · exact hfits q hold
    · simpa [Declaration.agrees] using hagree
  | queueBind binding => exact hfits

namespace Host

theorem declareAll_cons {h h' : Host α} {d : Declaration} {ds : List Declaration}
    (hall : h.declareAll (d :: ds) = .ok h') :
    ∃ h₁, h.Declared d h₁ ∧ h₁.declareAll ds = .ok h' := by
  rw [declareAll] at hall
  cases hd : h.declare d with
  | error e =>
    rw [hd] at hall
    cases hall
  | ok h₁ =>
    rw [hd] at hall
    exact ⟨h₁, declare_spec hd, hall⟩

/-- What each of its declarations keeps, a channel keeps. -/
theorem declareAll_invariant {P : Host α → Prop} {h h' : Host α} {ds : List Declaration}
    (hall : h.declareAll ds = .ok h') (hinit : P h)
    (hkeep : ∀ d ∈ ds, ∀ h₁ h₂, P h₁ → h₁.Declared d h₂ → P h₂) : P h' := by
  induction ds generalizing h with
  | nil =>
    obtain rfl := Except.ok.inj hall
    exact hinit
  | cons d ds ih =>
    obtain ⟨h₁, hd, hrest⟩ := declareAll_cons hall
    exact ih hrest (hkeep d List.mem_cons_self h h₁ hinit hd) fun d' hd' =>
      hkeep d' (List.mem_cons_of_mem _ hd')

theorem declareAll_made {h h' : Host α} {ds : List Declaration} (hall : h.declareAll ds = .ok h') :
    h.Extends h' ∧ ∀ d ∈ ds, d.Made h' := by
  induction ds generalizing h with
  | nil =>
    obtain rfl := Except.ok.inj hall
    exact ⟨.refl _, fun d hd => (List.not_mem_nil hd).elim⟩
  | cons d ds ih =>
    obtain ⟨h₁, hd, hrest⟩ := declareAll_cons hall
    obtain ⟨hle, hmade⟩ := ih hrest
    refine ⟨hd.extends.trans hle, fun d' hd' => ?_⟩
    rcases List.mem_cons.mp hd' with rfl | hd'
    · exact hd.made.mono hle
    · exact hmade d' hd'

/-- `h'` is `h` with what is declared: what `h` has is in `h'` as it was, the messages
included, and a queue that is new is empty. -/
structure ExtendsBy (h : Host α) (ds : List Declaration) (h' : Host α) : Prop where
  exchanges : ∀ name e, h'.exchanges name = some e ↔
    h.exchanges name = some e ∨ .exchangeDeclare name e.kind e.options ∈ ds
  queues : ∀ name q, h'.queues name = some q ↔ h.queues name = some q ∨
    h.queues name = none ∧ ∃ options, .queueDeclare name options ∈ ds ∧ q = ⟨options, [], []⟩
  bindings : ∀ b, b ∈ h'.bindings ↔ b ∈ h.bindings ∨ .queueBind b ∈ ds

theorem declareAll_exchanges {h h' : Host α} {ds : List Declaration}
    (hall : h.declareAll ds = .ok h') {name : String} {e : Exchange}
    (he : h'.exchanges name = some e) :
    h.exchanges name = some e ∨ .exchangeDeclare name e.kind e.options ∈ ds := by
  refine declareAll_invariant (P := fun h₁ => h₁.exchanges name = some e → _) hall .inl
    (fun d hmem h₁ h₂ ih hd he => ?_) he
  rcases hd.exchanges he with hold | rfl
  · exact ih hold
  · exact .inr hmem

theorem declareAll_queue_kept {h h' : Host α} {ds : List Declaration}
    (hall : h.declareAll ds = .ok h') {name : String} {q : Queue α}
    (hq : h.queues name = some q) : h'.queues name = some q :=
  declareAll_invariant (P := fun h₁ => h₁.queues name = some q) hall hq
    fun _ _ _ _ hq hd => hd.queue_kept hq

theorem declareAll_queues {h h' : Host α} {ds : List Declaration}
    (hall : h.declareAll ds = .ok h') {name : String} {q : Queue α}
    (hq : h'.queues name = some q) : h.queues name = some q ∨
      h.queues name = none ∧ ∃ options, .queueDeclare name options ∈ ds ∧ q = ⟨options, [], []⟩ := by
  cases hold : h.queues name with
  | some q' => exact .inl ((declareAll_queue_kept hall hold).symm.trans hq)
  | none =>
    -- whenever the queue came, it came empty
    refine .inr ⟨rfl, declareAll_invariant (P := fun h₁ => h₁.queues name = some q → _) hall
      (fun hq => ?_) (fun d hmem h₁ h₂ ih hd hq => ?_) hq⟩
    · rw [hold] at hq
      cases hq
    · rcases hd.queues hq with hbefore | ⟨-, rfl, hempty⟩
      · exact ih hbefore
      · obtain ⟨options, messages, taken⟩ := q
        obtain ⟨rfl, rfl⟩ := List.append_eq_nil_iff.mp hempty
        exact ⟨options, hmem, rfl⟩

theorem declareAll_bindings {h h' : Host α} {ds : List Declaration}
    (hall : h.declareAll ds = .ok h') {b : Binding} (hb : b ∈ h'.bindings) :
    b ∈ h.bindings ∨ .queueBind b ∈ ds := by
  refine declareAll_invariant (P := fun h₁ => b ∈ h₁.bindings → _) hall .inl
    (fun d hmem h₁ h₂ ih hd hb => ?_) hb
  rcases hd.bindings hb with hold | rfl
  · exact ih hold
  · exact .inr hmem

/-- Declarations that are accepted add what they declare, where it is missing, and
leave the rest alone. -/
theorem declareAll_extendsBy {h h' : Host α} {ds : List Declaration}
    (hall : h.declareAll ds = .ok h') : h.ExtendsBy ds h' := by
  obtain ⟨hle, hmade⟩ := declareAll_made hall
  constructor
  · refine fun name e => ⟨declareAll_exchanges hall, ?_⟩
    rintro (hold | hnew)
    · exact hle.exchanges name e hold
    · exact (hmade _ hnew).2
  · refine fun name q => ⟨declareAll_queues hall, ?_⟩
    rintro (hold | ⟨hnone, options, hnew, rfl⟩)
    · exact declareAll_queue_kept hall hold
    · obtain ⟨q', hq', hoptions⟩ := hmade _ hnew
      rcases declareAll_queues hall hq' with hold | ⟨-, options', -, rfl⟩
      · rw [hnone] at hold
        cases hold
      · rw [hq', show options' = options from hoptions]
  · refine fun b => ⟨declareAll_bindings hall, ?_⟩
    rintro (hold | hnew)
    · exact hle.bindings hold
    · exact (hmade _ hnew).2.2.2

theorem ExtendsBy.congr {h h' : Host α} {ds ds' : List Declaration} (hext : h.ExtendsBy ds h')
    (hmem : ∀ d, d ∈ ds ↔ d ∈ ds') : h.ExtendsBy ds' h' := by
  constructor
  · simpa only [hmem] using hext.exchanges
  · simpa only [hmem] using hext.queues
  · simpa only [hmem] using hext.bindings

theorem declareAll_again {h : Host α} {ds : List Declaration} (hmade : ∀ d ∈ ds, d.Made h) :
    h.declareAll ds = .ok h := by
  induction ds with
  | nil => rfl
  | cons d ds ih =>
    rw [declareAll, (hmade d List.mem_cons_self).declare]
    exact ih fun d' hd' => hmade d' (List.mem_cons_of_mem _ hd')

theorem declare_of_fits {h : Host α} {d : Declaration} (hfits : d.Fits h)
    (hground : ∀ b, d = .queueBind b →
      (h.queues b.queue).isSome = true ∧ (h.exchanges b.exchange).isSome = true) :
    ∃ h', h.declare d = .ok h' := by
  cases d with
  | exchangeDeclare exchange kind options =>
    obtain ⟨hname, hsame⟩ := hfits
    simp only [declare, if_neg hname]
    cases he : h.exchanges exchange with
    | none => exact ⟨_, rfl⟩
    | some e => exact ⟨_, if_pos (hsame e he)⟩
  | queueDeclare queue options =>
    simp only [declare]
    cases hq : h.queues queue with
    | none => exact ⟨_, rfl⟩
    | some q => exact ⟨_, if_pos (hfits q hq)⟩
  | queueBind binding =>
    obtain ⟨hq, he⟩ := hground binding rfl
    simp only [declare, if_neg (show ¬ binding.exchange = "" from hfits), hq, he, Bool.and_self, if_true]
    by_cases hmem : binding ∈ h.bindings
    · exact ⟨_, if_pos hmem⟩
    · exact ⟨_, if_neg hmem⟩

/-- Declarations that agree with each other and name only what is declared before are
accepted by every host in which nothing is in the way, and by no other. -/
theorem declareAll_iff {ds : List Declaration} (hagree : ds.Pairwise fun d d' => d.agrees d' = true)
    {queues exchanges : List String} (hground : grounded queues exchanges ds = true) {h : Host α}
    (hqueues : ∀ name ∈ queues, (h.queues name).isSome = true)
    (hexchanges : ∀ name ∈ exchanges, (h.exchanges name).isSome = true) :
    (∃ h', h.declareAll ds = .ok h') ↔ ∀ d ∈ ds, d.Fits h := by
  constructor
  · rintro ⟨h', hall⟩ d hd
    obtain ⟨hle, hmade⟩ := declareAll_made hall
    exact (hmade d hd).fits hle
  intro hfits
  induction ds generalizing h queues exchanges with
  | nil => exact ⟨h, rfl⟩
  | cons d ds ih =>
    obtain ⟨hfirst, hagree⟩ := List.pairwise_cons.mp hagree
    have hgo : ∀ queues exchanges, grounded queues exchanges ds = true →
        (∀ b, d = .queueBind b →
          (h.queues b.queue).isSome = true ∧ (h.exchanges b.exchange).isSome = true) →
        (∀ h₁, h.Declared d h₁ → ∀ name ∈ queues, (h₁.queues name).isSome = true) →
        (∀ h₁, h.Declared d h₁ → ∀ name ∈ exchanges, (h₁.exchanges name).isSome = true) →
        ∃ h', h.declareAll (d :: ds) = .ok h' := by
      intro queues exchanges hground hbind hqueues hexchanges
      obtain ⟨h₁, hd⟩ := declare_of_fits (hfits d List.mem_cons_self) hbind
      have hspec := declare_spec hd
      obtain ⟨h', hrest⟩ := ih hagree hground (hqueues h₁ hspec) (hexchanges h₁ hspec)
        fun d' hd' => (hfits d' (List.mem_cons_of_mem _ hd')).declared (hfirst d' hd') hspec
      refine ⟨h', ?_⟩
      rw [declareAll, hd]
      exact hrest
    cases d with
    | exchangeDeclare exchange kind options =>
      refine hgo queues (exchange :: exchanges) hground (fun b hb => nomatch hb)
        (fun h₁ hd name hmem => hd.extends.queue_isSome (hqueues name hmem))
        fun h₁ hd name hmem => ?_
      rcases List.mem_cons.mp hmem with rfl | hmem
      · exact Option.isSome_iff_exists.mpr ⟨_, hd.made.2⟩
      · exact hd.extends.exchange_isSome (hexchanges name hmem)
    | queueDeclare queue options =>
      refine hgo (queue :: queues) exchanges hground (fun b hb => nomatch hb)
        (fun h₁ hd name hmem => ?_)
        fun h₁ hd name hmem => hd.extends.exchange_isSome (hexchanges name hmem)
      rcases List.mem_cons.mp hmem with rfl | hmem
      · obtain ⟨q, hq, -⟩ := hd.made
        exact Option.isSome_iff_exists.mpr ⟨q, hq⟩
      · exact hd.extends.queue_isSome (hqueues name hmem)
    | queueBind binding =>
      simp only [grounded, Bool.and_eq_true, List.contains_iff_mem] at hground
      obtain ⟨⟨hqueue, hexchange⟩, hground⟩ := hground
      refine hgo queues exchanges hground (fun b hb => ?_)
        (fun h₁ hd name hmem => hd.extends.queue_isSome (hqueues name hmem))
        fun h₁ hd name hmem => hd.extends.exchange_isSome (hexchanges name hmem)
      cases hb
      exact ⟨hqueues _ hqueue, hexchanges _ hexchange⟩

end Host

/-! ## Channels side by side -/

/-- The lists put into one, each in its own order. -/
inductive Interleaving {β : Type} : List (List β) → List β → Prop where
  | done {lists : List (List β)} (h : ∀ l ∈ lists, l = []) : Interleaving lists []
  | step {before after : List (List β)} {b : β} {l bs : List β}
      (h : Interleaving (before ++ l :: after) bs) : Interleaving (before ++ (b :: l) :: after) (b :: bs)

theorem Interleaving.mem {β : Type} {lists : List (List β)} {bs : List β}
    (h : Interleaving lists bs) {b : β} : b ∈ bs ↔ ∃ l ∈ lists, b ∈ l := by
  induction h with
  | done hempty =>
    refine ⟨fun hb => (List.not_mem_nil hb).elim, fun ⟨l, hl, hb⟩ => ?_⟩
    rw [hempty l hl] at hb
    exact hb
  | @step before after b' l bs _ ih =>
    simp only [List.mem_cons, List.mem_append, ih]
    constructor
    · rintro (rfl | ⟨l', hl' | rfl | hl', hb⟩)
      · exact ⟨b :: l, .inr (.inl rfl), List.mem_cons_self⟩
      · exact ⟨l', .inl hl', hb⟩
      · exact ⟨b' :: l', .inr (.inl rfl), List.mem_cons_of_mem _ hb⟩
      · exact ⟨l', .inr (.inr hl'), hb⟩
    · rintro ⟨l', hl' | rfl | hl', hb⟩
      · exact .inr ⟨l', .inl hl', hb⟩
      · rcases List.mem_cons.mp hb with rfl | hb
        · exact .inl rfl
        · exact .inr ⟨l, .inr (.inl rfl), hb⟩
      · exact .inr ⟨l', .inr (.inr hl'), hb⟩

/-- One list after the other. -/
theorem interleaving_flatten {β : Type} (lists : List (List β)) :
    Interleaving lists lists.flatten := by
  have hall : ∀ before : List (List β), (∀ l ∈ before, l = []) →
      Interleaving (before ++ lists) lists.flatten := by
    induction lists with
    | nil =>
      intro before hempty
      exact .done fun l hl => hempty l (by simpa using hl)
    | cons l lists ih =>
      intro before hempty
      rw [List.flatten_cons]
      induction l with
      | nil =>
        have hrest := ih (before ++ [[]]) fun l hl => by
          rcases List.mem_append.mp hl with hold | hnew
          · exact hempty l hold
          · exact List.mem_singleton.mp hnew
        rwa [List.append_assoc] at hrest
      | cons b l ihl => exact .step ihl
  exact hall [] fun l hl => (List.not_mem_nil hl).elim

/-- Two channels that declare the same, in step. -/
theorem interleaving_pairs {β : Type} (l : List β) :
    Interleaving [l, l] (l.flatMap fun b => [b, b]) := by
  induction l with
  | nil => exact .done fun l' hl' => by simpa using hl'
  | cons b l ih =>
    have hsecond : Interleaving ([l] ++ (b :: l) :: []) (b :: l.flatMap fun b => [b, b]) := .step ih
    show Interleaving ([] ++ (b :: l) :: [b :: l]) _
    exact .step hsecond

theorem grounded_mono {queues queues' exchanges exchanges' : List String} {ds : List Declaration}
    (hq : queues ⊆ queues') (he : exchanges ⊆ exchanges') (h : grounded queues exchanges ds = true) :
    grounded queues' exchanges' ds = true := by
  induction ds generalizing queues queues' exchanges exchanges' with
  | nil => rfl
  | cons d ds ih =>
    cases d with
    | exchangeDeclare => exact ih hq (List.cons_subset_cons _ he) h
    | queueDeclare => exact ih (List.cons_subset_cons _ hq) he h
    | queueBind binding =>
      simp only [grounded, Bool.and_eq_true, List.contains_iff_mem] at h ⊢
      exact ⟨⟨hq h.1.1, he h.1.2⟩, ih hq he h.2⟩

/-- What each channel declares before it binds is there, whatever the others do. -/
theorem Interleaving.grounded {lists : List (List Declaration)} {ds : List Declaration}
    (h : Interleaving lists ds) {queues exchanges : List String}
    (hall : ∀ l ∈ lists, Amqp.grounded queues exchanges l = true) :
    Amqp.grounded queues exchanges ds = true := by
  induction h generalizing queues exchanges with
  | done => rfl
  | @step before after d l ds _ ih =>
    have hd := hall (d :: l) (List.mem_append_right _ List.mem_cons_self)
    have hothers : ∀ {queues' exchanges' : List String}, queues ⊆ queues' → exchanges ⊆ exchanges' →
        Amqp.grounded queues' exchanges' l = true →
        Amqp.grounded queues' exchanges' ds = true := by
      intro queues' exchanges' hq he hl
      refine ih fun l' hl' => ?_
      rcases List.mem_append.mp hl' with hbefore | hrest
      · exact grounded_mono hq he (hall l' (List.mem_append_left _ hbefore))
      rcases List.mem_cons.mp hrest with rfl | hafter
      · exact hl
      · exact grounded_mono hq he (hall l' (List.mem_append_right _ (List.mem_cons_of_mem _ hafter)))
    cases d with
    | exchangeDeclare =>
      exact hothers (List.Subset.refl _) (List.subset_cons_self _ _) hd
    | queueDeclare => exact hothers (List.subset_cons_self _ _) (List.Subset.refl _) hd
    | queueBind binding =>
      rw [Amqp.grounded, Bool.and_eq_true] at hd ⊢
      exact ⟨hd.1, hothers (List.Subset.refl _) (List.Subset.refl _) hd.2⟩

end Amqp
