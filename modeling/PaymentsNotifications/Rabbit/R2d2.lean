import PaymentsNotifications.Config.Debug
import PaymentsNotifications.Error
import PaymentsNotifications.Failure
import PaymentsNotifications.Lib.Pattern

/-! `RabbitConnectionManager::create` (`rabbit/r2d2.rs`): the address and the options are
read from the url, then the connection is established under a timeout. -/

namespace PaymentsNotifications
open Failure Pattern

/-! ## The texts of the errors (`rabbit/error.rs`) -/

inductive RabbitErrorContext where
  | tcpConnection
  | rabbitUrl
  | rabbitConnection
  | rabbitChannel
  | heartbeatHandle
  | heartbeat
  | connectionTimeout
  | alreadyConnecting
  | channelClose
  deriving DecidableEq, Repr

def RabbitErrorKind.display : RabbitErrorKind → Text
  | .internal => "rabbit error - internal error".toList

def RabbitErrorSource.display : RabbitErrorSource → Text
  | .io => "rabbit error source - io error".toList
  | .timeout => "rabbit error source - timeout error".toList
  | .lapin => "rabbit error source - lapin lib".toList

def RabbitErrorContext.display : RabbitErrorContext → Text
  | .tcpConnection => "rabbit error context - error establishing TCP/IP connection".toList
  | .rabbitUrl => "rabbit error context - error parsing RabbitMQ url".toList
  | .rabbitConnection => "rabbit error context - error establishing RabbitMQ connection".toList
  | .rabbitChannel => "rabbit error context - error creating RabbitMQ channel".toList
  | .heartbeatHandle => "rabbit error context - error acquiring heartbeat handle".toList
  | .heartbeat => "rabbit error context - error during heartbeat".toList
  | .connectionTimeout => "rabbit error context - connection timeout".toList
  | .alreadyConnecting =>
    ("rabbit error context - attempted to connect again in process of " ++
      "establishing a connection").toList
  | .channelClose => "rabbit error context - attempted to close the channel, but failed".toList

namespace Rabbit

/-! ## The address in the url -/

/-- `[a-zA-Z0-9-_\.]` -/
def isHostChar (c : Char) : Bool :=
  c.isAlphanum || c == '-' || c == '_' || c == '.'

/-- `@([a-zA-Z0-9-_\.]*:[0-9]*)` -/
def addressPattern : List Item :=
  [.one (· == '@'), .many isHostChar, .one (· == ':'), .many Char.isDigit]

/-- The text of group 1, which is the match without the `@`. -/
def hostAndPort (url : Text) : Option Text :=
  (search addressPattern url).map fun found => found.text.drop 1

/-! ## The surroundings of a start -/

/-- An address, as it is displayed. -/
structure SocketAddr where
  text : Text

/-- What the start meets outside the program: the answers of the resolver, of the
parser of connection options and of the broker, whether the timer cuts the
connecting short, and the backtraces captured at the lines of `r2d2.rs`. -/
structure Surroundings (Options : Type) where
  toSocketAddrs : Text → Except Fail (List SocketAddr)
  parseOptions : Text → Except Text Options
  connect : SocketAddr → Except Fail Unit
  handshake : SocketAddr → Options → Except Fail Bool
  cutShort : Bool
  captured : Nat → Backtrace
  printable : Char → Bool

structure RabbitConnectionManager (Options : Type) where
  connectionTimeout : Nat
  connectionOptions : Options
  address : SocketAddr

/-- `{:#?}` of a `Duration` of whole seconds. -/
def durationDebug (secs : Nat) : Text :=
  if 0 < secs then decimal secs ++ ['s'] else "0ns".toList

namespace Surroundings
variable {Options : Type} (self : Surroundings Options)

/-- `ectx!` at a line of `r2d2.rs`. -/
def ectx (line : Nat) (args : List (String × Text)) (contexts : List Text) (error : Fail) : Fail :=
  error.ectx (self.captured line) (place "src/rabbit/r2d2.rs" line args) contexts

/-- `extract_options_and_address` -/
def extractOptionsAndAddress (config : Config) : Except Fail (Options × SocketAddr) := do
  let url := config.rabbit.url.toList
  let urlDebug := stringDebug self.printable config.rabbit.url
  let hostAndPort ←
    match hostAndPort url with
    | some hostAndPort => .ok hostAndPort
    | none =>
      .error (self.ectx 89 [("config", config.debug self.printable)]
        [RabbitErrorKind.internal.display]
        (.root RabbitErrorContext.rabbitUrl.display none))
  let addrs ← (self.toSocketAddrs hostAndPort).mapError
    (self.ectx 94 [("url", urlDebug)]
      [RabbitErrorContext.rabbitUrl.display, RabbitErrorKind.internal.display])
  let address ←
    match addrs with
    | addr :: _ => .ok addr
    | [] =>
      .error (self.ectx 97 [("url_clone", urlDebug)] [RabbitErrorKind.internal.display]
        (.root RabbitErrorContext.rabbitUrl.display none))
  let options ← (self.parseOptions url).mapError fun e =>
    self.ectx 104 [("url_clone", urlDebug)]
      [RabbitErrorContext.rabbitUrl.display, RabbitErrorKind.internal.display]
      (.root e (some (self.captured 104)))
  .ok (options, address)

/-- `establish_client` -/
def establishClient (address : SocketAddr) (options : Options) : Except Fail Unit := do
  (self.connect address).mapError (self.ectx 116 [("address_clone3", address.text)]
    [RabbitErrorSource.io.display, RabbitErrorContext.tcpConnection.display,
     RabbitErrorKind.internal.display])
  let handle ← (self.handshake address options).mapError (self.ectx 120
    [("address_clone2", address.text)]
    [RabbitErrorSource.io.display, RabbitErrorContext.rabbitConnection.display,
     RabbitErrorKind.internal.display])
  if handle then .ok ()
  else .error (self.ectx 130 [] [RabbitErrorKind.internal.display]
    (.root RabbitErrorContext.heartbeatHandle.display none))

/-- The connecting under its timeout: cut short there is no inner error. -/
def connecting (address : SocketAddr) (options : Options) : Except Fail Unit :=
  if self.cutShort then .error (.root "Timeout error".toList (some (self.captured 75)))
  else self.establishClient address options

/-- `create` -/
def create (config : Config) : Except Fail (RabbitConnectionManager Options) := do
  let connectionTimeout := config.rabbit.connectionTimeoutSecs
  let (options, address) ← self.extractOptionsAndAddress config
  (self.connecting address options).mapError (self.ectx 76
    [("connection_timeout", durationDebug connectionTimeout)]
    [RabbitErrorSource.timeout.display, RabbitErrorContext.connectionTimeout.display,
     RabbitErrorKind.internal.display])
  .ok ⟨connectionTimeout, options, address⟩

end Surroundings

end Rabbit

end PaymentsNotifications
