import PaymentsNotifications.Client.Query
import PaymentsNotifications.Config

/-! `IosClientImpl` (`client/ios/mod.rs`): a push notification is posted as JSON
to the configured url, without headers. -/

namespace PaymentsNotifications.Client
open Futures Futures.Fut Utils Transport External Models

structure IosClientImpl where
  cli : HttpClientImpl
  iosUrl : String
  iosToken : String
  iosUserId : String
  deriving DecidableEq, Repr

def IosClientImpl.new (config : Config) (cli : HttpClientImpl) : IosClientImpl where
  cli := cli
  iosUrl := config.iosCredentials.iosUrl
  iosToken := config.iosCredentials.iosToken
  iosUserId := config.iosCredentials.iosUserId

namespace IosClientImpl
variable (self : IosClientImpl) (crates : Crates) {α : Type}

/-- The request of an attempt. -/
def request (body : String) : Except ClientError Request :=
  buildRequestFor crates.http self.iosUrl [] body

def execQuery (fromStr : String → Except JsonError α) (body : String) :
    Fut Wire (Except ClientError α) :=
  query self.cli (readJson fromStr) (self.request crates body)

def pushNotify (push : PushNotifications) : Fut Wire (Except ClientError Unit) :=
  self.execQuery crates crates.json.unitFromStr (crates.json.pushToString push)

end IosClientImpl

end PaymentsNotifications.Client
