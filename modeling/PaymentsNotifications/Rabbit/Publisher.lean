import PaymentsNotifications.Error
import PaymentsNotifications.External
import PaymentsNotifications.Transport

/-! The publisher of the error queues (`rabbit/transactions_publisher.rs`). -/

namespace PaymentsNotifications.Rabbit
open Futures Futures.Fut Models Utils Transport External

/-- `trait TransactionPublisher`, over the calls its futures make. -/
structure TransactionPublisher (σ : Signature) where
  errorCallbacks : Callback → Fut σ (Except RabbitError Unit)
  errorEmails : Email → Fut σ (Except RabbitError Unit)
  errorPushes : PushNotifications → Fut σ (Except RabbitError Unit)

/-- The body of the three methods. -/
def publishTo (routingKey json : String) : Fut Wire (Except RabbitError Unit) :=
  (perform (σ := Wire) (.basicPublish "notifications" routingKey (bytesOf json)))
    |>.mapErr (ectx .internal (some .lapin))
    |>.map fun _ => ()

/-- `TransactionPublisherImpl`, on the channel it was given. -/
def transactionPublisherImpl (json : SerdeJson) : TransactionPublisher Wire where
  errorCallbacks callback := publishTo "error_callbacks" (json.callbackToString callback)
  errorEmails email := publishTo "error_emails" (json.emailToString email)
  errorPushes push := publishTo "error_pushes" (json.pushToString push)

/-- What the publisher makes of the channel's answer. -/
def publication (answer : Except LapinError Unit) : Except RabbitError Unit :=
  answer.mapError (ectx .internal (some .lapin))

theorem publishTo_eq (routingKey json : String) :
    publishTo routingKey json =
      .call (.basicPublish "notifications" routingKey (bytesOf json)) fun answer =>
        .ready (publication answer) := by
  unfold publishTo
  simp only [perform, mapErr, Fut.map, andThen, call_bind]
  congr 1
  funext answer
  cases answer with
  | error e => rfl
  | ok u => rfl

end PaymentsNotifications.Rabbit
