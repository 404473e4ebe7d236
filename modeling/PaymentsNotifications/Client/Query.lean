import PaymentsNotifications.Client.Http

/-! The pipeline the three clients share in their `exec_query`: build a request,
hand it to the HTTP client, make something of the response. Two of them read a
JSON value from the body. -/

namespace PaymentsNotifications.Client
open Futures Futures.Fut Utils Transport External Models

variable {α : Type}

def query (cli : HttpClientImpl) (consume : Response → Except ClientError α)
    (built : Except ClientError Request) : Fut Wire (Except ClientError α) :=
  (Fut.ready built)
    |>.andThen (fun req => (cli.request req).mapErr (ectx .internal none))
    |>.andThen fun resp => .ready (consume resp)

/-- `read_body`, `String::from_utf8` and `serde_json::from_str`. -/
def readJson (fromStr : String → Except JsonError α) (resp : Response) :
    Except ClientError α := do
  let bytes ← (readBody resp.body).mapError (ectx .internal (some .hyper))
  let string ← (fromUtf8 bytes).mapError (ectx .internal (some .utf8))
  (fromStr string).mapError (ectx .internal (some .json))

/-- The result of an attempt, given what the transport answered. -/
def verdict (cli : HttpClientImpl) (consume : Response → Except ClientError α)
    (answer : Except HyperError Response) : Except ClientError α := do
  let resp ← (cli.received answer).mapError (ectx .internal none)
  consume resp

theorem query_error (cli : HttpClientImpl) (consume : Response → Except ClientError α)
    (e : ClientError) : query cli consume (.error e) = .ready (.error e) := rfl

/-- One request, and the verdict on its answer. -/
theorem query_ok (cli : HttpClientImpl) (consume : Response → Except ClientError α)
    (req : Request) (bytes : Bytes) (hb : req.body = Body.from bytes) :
    query cli consume (.ok req) =
      .call (.http req) fun answer => .ready (verdict cli consume answer) := by
  unfold query
  simp only [andThen, mapErr, ready_bind, cli.request_eq req bytes hb, call_bind]
  congr 1
  funext answer
  unfold verdict
  cases cli.received answer with
  | error e => rfl
  | ok resp => rfl

/-- `ClientErrorKind` and its source in the step that builds a request. -/
def buildRequestFor (http : HttpCrate) (uri : String) (headers : List (String × String))
    (body : String) : Except ClientError Request :=
  (buildRequest http uri headers (Body.from (bytesOf body))).mapError
    (ectx .malformedInput (some .hyper))

/-- A request that was built is the one asked for, and its texts are acceptable. -/
theorem buildRequestFor_ok {http : HttpCrate} {uri : String} {headers : List (String × String)}
    {body : String} {req : Request} :
    buildRequestFor http uri headers body = .ok req ↔
      (http.validUri uri = true ∧ ∀ header ∈ headers, http.validHeaderValue header.2 = true) ∧
        req = ⟨.post, uri, headers, Body.from (bytesOf body)⟩ := by
  unfold buildRequestFor buildRequest
  cases hv : (http.validUri uri && headers.all fun header => http.validHeaderValue header.2) with
  | false =>
    have hno : ¬ (http.validUri uri = true ∧
        ∀ header ∈ headers, http.validHeaderValue header.2 = true) := by
      rintro ⟨huri, hheaders⟩
      simp [huri, List.all_eq_true.mpr hheaders] at hv
    simp only [Bool.false_eq_true, if_false, Except.mapError, hno, false_and, reduceCtorEq]
  | true =>
    have hyes : http.validUri uri = true ∧
        ∀ header ∈ headers, http.validHeaderValue header.2 = true := by
      simpa using hv
    simp only [if_true, Except.mapError, Except.ok.injEq]
    exact ⟨fun h => ⟨hyes, h.symm⟩, fun h => h.2.symm⟩

end PaymentsNotifications.Client
