import Mathlib.Logic.Function.Basic

/-! A virtual host of an AMQP broker: exchanges, queues and bindings, and the
commands that declare, bind, publish and get. Nothing is deleted. -/

namespace Amqp

/-- Which bindings let a message pass, by the type of the exchange. The types other
than direct are the broker's. -/
structure ExchangeTypes where
  passes : (kind bindingKey routingKey : String) → Bool
  direct : ∀ bindingKey routingKey, passes "direct" bindingKey routingKey = (bindingKey == routingKey)

structure ExchangeOptions where
  durable : Bool := false
  autoDelete : Bool := false
  internal : Bool := false
  deriving DecidableEq, Repr

structure QueueOptions where
  durable : Bool := false
  exclusive : Bool := false
  autoDelete : Bool := false
  deriving DecidableEq, Repr

structure Exchange where
  kind : String
  options : ExchangeOptions
  deriving DecidableEq, Repr

structure Binding where
  queue : String
  exchange : String
  routingKey : String
  deriving DecidableEq, Repr

/-- `persistent` is delivery mode 2. -/
structure Message (α : Type) where
  payload : α
  persistent : Bool := false
  deriving DecidableEq, Repr

/-- A queue, with the messages that were taken from it. -/
structure Queue (α : Type) where
  options : QueueOptions
  messages : List (Message α)
  taken : List (Message α)
  deriving DecidableEq, Repr

structure Host (α : Type) where
  exchanges : String → Option Exchange
  queues : String → Option (Queue α)
  bindings : List Binding

/-- The reply codes 403, 404 and 406. The channel is closed. -/
inductive Failure where
  | accessRefused
  | notFound
  | preconditionFailed
  deriving DecidableEq, Repr

inductive Declaration where
  | exchangeDeclare (exchange kind : String) (options : ExchangeOptions)
  | queueDeclare (queue : String) (options : QueueOptions)
  | queueBind (binding : Binding)
  deriving DecidableEq, Repr

inductive Command (α : Type) where
  | declare (d : Declaration)
  | basicPublish (exchange routingKey : String) (message : Message α)
  | basicGet (queue : String)

variable {α : Type}

def Command.message? : Command α → Option (Message α)
  | .basicPublish _ _ message => some message
  | _ => none

namespace Queue

def push (self : Queue α) (message : Message α) : Queue α :=
  { self with messages := self.messages ++ [message] }

def pop (self : Queue α) : Queue α :=
  match self.messages with
  | [] => self
  | message :: rest => { self with messages := rest, taken := self.taken ++ [message] }

/-- What has come in, in order. -/
def history (self : Queue α) : List (Message α) := self.taken ++ self.messages

@[simp] theorem push_options (q : Queue α) (message : Message α) :
    (q.push message).options = q.options := rfl

@[simp] theorem push_history (q : Queue α) (message : Message α) :
    (q.push message).history = q.history ++ [message] :=
  (List.append_assoc _ _ _).symm

@[simp] theorem pop_options (q : Queue α) : q.pop.options = q.options := by
  unfold pop
  split <;> rfl

@[simp] theorem pop_history (q : Queue α) : q.pop.history = q.history := by
  unfold pop
  split
  · rfl
  · rename_i message rest hmessages
    simp [history, hmessages]

end Queue

namespace Host

/-- The exchange without a name is there from the start, and is nobody's to declare or
to bind to. -/
def declare (self : Host α) : Declaration → Except Failure (Host α)
  | .exchangeDeclare exchange kind options =>
    if exchange = "" then .error .accessRefused
    else match self.exchanges exchange with
      | none => .ok { self with
          exchanges := Function.update self.exchanges exchange (some ⟨kind, options⟩) }
      | some e => if e = ⟨kind, options⟩ then .ok self else .error .preconditionFailed
  | .queueDeclare queue options =>
    match self.queues queue with
    | none => .ok { self with
        queues := Function.update self.queues queue (some ⟨options, [], []⟩) }
    | some q => if q.options = options then .ok self else .error .preconditionFailed
  | .queueBind binding =>
    if binding.exchange = "" then .error .accessRefused
    else if (self.queues binding.queue).isSome && (self.exchanges binding.exchange).isSome then
      if binding ∈ self.bindings then .ok self
      else .ok { self with bindings := self.bindings ++ [binding] }
    else .error .notFound

/-- The queue gets what is published so. The exchange without a name leads to the queue
the routing key names. -/
def routes (types : ExchangeTypes) (self : Host α) (exchange routingKey queue : String) : Bool :=
  if exchange = "" then routingKey == queue
  else match self.exchanges exchange with
    | none => false
    | some e => self.bindings.any fun b =>
        b.exchange == exchange && b.queue == queue && types.passes e.kind b.routingKey routingKey

def apply (types : ExchangeTypes) (self : Host α) : Command α → Except Failure (Host α)
  | .declare d => self.declare d
  | .basicPublish exchange routingKey message =>
    if exchange = "" || (self.exchanges exchange).isSome then
      .ok { self with queues := fun queue => (self.queues queue).map fun q =>
        if self.routes types exchange routingKey queue then q.push message else q }
    else .error .notFound
  | .basicGet queue =>
    match self.queues queue with
    | none => .error .notFound
    | some q => .ok { self with queues := Function.update self.queues queue (some q.pop) }

/-- The declarations of one channel, up to the first failure. -/
def declareAll (self : Host α) : List Declaration → Except Failure (Host α)
  | [] => .ok self
  | d :: ds => do (← self.declare d).declareAll ds

def applyAll (types : ExchangeTypes) (self : Host α) : List (Command α) → Except Failure (Host α)
  | [] => .ok self
  | c :: cs => do (← self.apply types c).applyAll types cs

/-- The broker is restarted: what is not durable is gone. -/
def restart (self : Host α) : Host α where
  exchanges name := (self.exchanges name).filter fun e => e.options.durable
  queues name := ((self.queues name).filter fun q => q.options.durable).map fun q =>
    { q with messages := q.messages.filter fun message => message.persistent }
  bindings := self.bindings.filter fun b =>
    (self.exchanges b.exchange).any (fun e => e.options.durable) &&
      (self.queues b.queue).any (fun q => q.options.durable)

end Host

end Amqp
