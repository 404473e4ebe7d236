import PaymentsNotifications.Client.Query
import PaymentsNotifications.Config

/-! `EmailClientImpl` (`client/email/mod.rs`): an email is posted to the mail
service. Of the response only the status matters. -/

namespace PaymentsNotifications.Client
open Futures Futures.Fut Utils Transport External Models

structure EmailClientImpl where
  cli : HttpClientImpl
  apiAddr : String
  apiKey : String
  sendMailPath : String
  fromEmail : String
  fromName : String
  deriving DecidableEq, Repr

def EmailClientImpl.new (config : Config) (cli : HttpClientImpl) : EmailClientImpl where
  cli := cli
  apiAddr := config.sendgrid.apiAddr
  apiKey := config.sendgrid.apiKey
  sendMailPath := config.sendgrid.sendMailPath
  fromEmail := config.sendgrid.fromEmail
  fromName := config.sendgrid.fromName

namespace EmailClientImpl
variable (self : EmailClientImpl) (crates : Crates)

/-- The request of an attempt, the same for every attempt and every log level. -/
def request (email : Email) : Except ClientError Request :=
  let payload := SendGridPayload.fromEmail email self.fromEmail self.fromName
  let query := self.apiAddr ++ "/" ++ self.sendMailPath
  buildRequestFor crates.http query
    [("Authorization", "Bearer " ++ self.apiKey), ("Content-Type", "application/json")]
    (crates.json.payloadToString payload)

def execQuery (email : Email) : Fut Wire (Except ClientError Unit) :=
  query self.cli (fun _ => .ok ()) (self.request crates email)

def send (email : Email) : Fut Wire (Except ClientError Unit) := self.execQuery crates email

end EmailClientImpl

end PaymentsNotifications.Client
