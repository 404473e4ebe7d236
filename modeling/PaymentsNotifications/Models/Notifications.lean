/-! The messages of the three queues (`models/callback.rs`, `emails.rs`,
`push_notifications.rs` and the types they are made of). Identifiers wrap a
`Uuid`, addresses and blockchain ids wrap a string, as in the source. -/

namespace PaymentsNotifications.Models

structure Uuid where
  bits : BitVec 128
  deriving DecidableEq, Repr

structure TransactionId where
  inner : Uuid
  deriving DecidableEq, Repr

structure AccountId where
  inner : Uuid
  deriving DecidableEq, Repr

structure AccountAddress where
  raw : String
  deriving DecidableEq, Repr

structure BlockchainTransactionId where
  inner : String
  deriving DecidableEq, Repr

inductive Currency where
  | eth
  | stq
  | btc
  deriving DecidableEq, Repr

inductive TransactionStatus where
  | pending
  | done
  deriving DecidableEq, Repr

structure Callback where
  url : String
  transactionId : TransactionId
  amountCaptured : String
  currency : Currency
  address : AccountAddress
  accountId : AccountId
  deriving DecidableEq, Repr

structure Email where
  «to» : String
  subject : String
  text : String
  deriving DecidableEq, Repr

structure TransactionAddressInfo where
  accountId : Option AccountId
  ownerName : Option String
  blockchainAddress : AccountAddress
  deriving DecidableEq, Repr

/-- Seconds since the epoch and the nanoseconds within the second. -/
structure NaiveDateTime where
  secs : Int
  nanos : UInt32
  deriving DecidableEq, Repr

structure TransactionsResponse where
  id : TransactionId
  «from» : List TransactionAddressInfo
  «to» : TransactionAddressInfo
  fromValue : String
  fromCurrency : Currency
  toValue : String
  toCurrency : Currency
  fee : String
  status : TransactionStatus
  blockchainTxId : Option BlockchainTransactionId
  createdAt : NaiveDateTime
  updatedAt : NaiveDateTime
  deriving DecidableEq, Repr

structure PushNotifications where
  deviceId : String
  deviceOs : String
  transaction : TransactionsResponse
  deriving DecidableEq, Repr

/-- A message of one of the queues. -/
inductive Notification where
  | push (push : PushNotifications)
  | callback (callback : Callback)
  | email (email : Email)
  deriving DecidableEq, Repr

/-! ## The payload of the mail service (`client/email/requests.rs`) -/

structure Address where
  email : String
  name : Option String
  deriving DecidableEq, Repr

structure Personalization where
  «to» : List Address
  deriving DecidableEq, Repr

structure Content where
  typeField : String
  value : String
  deriving DecidableEq, Repr

structure SendGridPayload where
  personalizations : List Personalization
  «from» : Address
  subject : String
  content : List Content
  deriving DecidableEq, Repr

def SendGridPayload.fromEmail (email : Email) (fromEmail fromName : String) :
    SendGridPayload where
  personalizations := [⟨[⟨email.to, none⟩]⟩]
  «from» := ⟨fromEmail, some fromName⟩
  subject := email.subject
  content := [⟨"text/html", email.text⟩]

end PaymentsNotifications.Models
