import PaymentsNotifications.Lib.Futures
import PaymentsNotifications.Utils

/-! What the service asks of the outside world: an HTTP request, a timer, and a
publication on a broker channel. Bodies are streams of chunks that end normally
or with an error, as in `hyper`. -/

namespace PaymentsNotifications.Transport
open Futures Utils

inductive StreamEnd where
  | finished
  | failed
  deriving DecidableEq, Repr

structure Body where
  chunks : List Bytes
  ending : StreamEnd
  deriving DecidableEq, Repr

/-- `Body::from`: an empty vector makes an empty body. -/
def Body.from (bytes : Bytes) : Body := ⟨if bytes = [] then [] else [bytes], .finished⟩

inductive Method where
  | post
  deriving DecidableEq, Repr

structure Request where
  method : Method
  uri : String
  headers : List (String × String)
  body : Body
  deriving DecidableEq, Repr

structure StatusCode where
  asU16 : UInt16
  deriving DecidableEq, Repr

def StatusCode.isSuccess (status : StatusCode) : Bool := 200 ≤ status.asU16 && status.asU16 < 300
def StatusCode.isClientError (status : StatusCode) : Bool := 400 ≤ status.asU16 && status.asU16 < 500
def StatusCode.isServerError (status : StatusCode) : Bool := 500 ≤ status.asU16 && status.asU16 < 600

structure Response where
  status : StatusCode
  body : Body
  deriving DecidableEq, Repr

inductive HyperError where
  | transport
  | body
  deriving DecidableEq, Repr

inductive TimerError where
  | shutdown
  | atCapacity
  deriving DecidableEq, Repr

inductive LapinError where
  | io
  deriving DecidableEq, Repr

inductive WireCall where
  | http (req : Request)
  | delay (secs : Nat)
  | basicPublish (exchange routingKey : String) (payload : Bytes)
  deriving DecidableEq, Repr

abbrev WireAnswer : WireCall → Type
  | .http _ => Except HyperError Response
  | .delay _ => Except TimerError Unit
  | .basicPublish _ _ _ => Except LapinError Unit

abbrev Wire : Signature := ⟨WireCall, WireAnswer⟩

/-- `utils::read_body`: the chunks one after the other, or the stream's error. -/
def readBody (body : Body) : Except HyperError Bytes :=
  match body.ending with
  | .finished => .ok body.chunks.flatten
  | .failed => .error .body

theorem readBody_from (bytes : Bytes) : readBody (Body.from bytes) = .ok bytes := by
  by_cases h : bytes = [] <;> simp [readBody, Body.from, h]

end PaymentsNotifications.Transport
