/-! The errors of the modules (`error.rs` in `client/*`, `rabbit` and `services`).
An error is its kind and the source or context it was tagged with; the cause is
only logged. The callback, email and iOS clients declare the same kinds and
sources. -/

namespace PaymentsNotifications

structure Error (κ ς : Type) where
  kind : κ
  tag : Option ς
  deriving DecidableEq, Repr

/-- `map_err(ectx!(tag, kind => ..))`. -/
def ectx {κ ς ε : Type} (kind : κ) (tag : Option ς) (_ : ε) : Error κ ς := ⟨kind, tag⟩

theorem exists_of_isOk {ε α : Type} {r : Except ε α} (h : r.isOk = true) : ∃ a, r = .ok a := by
  cases r with
  | error e => exact Bool.noConfusion h
  | ok a => exact ⟨a, rfl⟩

inductive HttpErrorKind where
  | badRequest
  | unauthorized
  | notFound
  | unprocessableEntity
  | internalServer
  | badGateway
  | gatewayTimeout
  | unknownServerError
  | internal
  deriving DecidableEq, Repr

inductive HttpErrorSource where
  | hyper
  | server
  deriving DecidableEq, Repr

abbrev HttpError := Error HttpErrorKind HttpErrorSource

inductive ClientErrorKind where
  | malformedInput
  | unauthorized
  | internal
  deriving DecidableEq, Repr

inductive ClientErrorSource where
  | hyper
  | utf8
  | json
  deriving DecidableEq, Repr

abbrev ClientError := Error ClientErrorKind ClientErrorSource

inductive RabbitErrorKind where
  | internal
  deriving DecidableEq, Repr

inductive RabbitErrorSource where
  | io
  | timeout
  | lapin
  deriving DecidableEq, Repr

abbrev RabbitError := Error RabbitErrorKind RabbitErrorSource

inductive ServiceErrorKind where
  | unauthorized
  | malformedInput
  | internal
  | notFound
  | balance
  | fake
  deriving DecidableEq, Repr

inductive ServiceErrorContext where
  | utf8
  | json
  | notSupported
  deriving DecidableEq, Repr

abbrev ServiceError := Error ServiceErrorKind ServiceErrorContext

/-- `From<CallbackClientErrorKind> for ErrorKind`, and the same for the other clients. -/
def ClientErrorKind.into : ClientErrorKind → ServiceErrorKind
  | .internal => .internal
  | .unauthorized => .unauthorized
  | .malformedInput => .malformedInput

end PaymentsNotifications
