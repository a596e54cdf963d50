import InternetComputer.CanonicalState.Encoding
import InternetComputer.Messages.InterCanister

/-!
# The canonical encoding of messages

`encode_message` converts a `RequestOrResponse` into its canonical form `types::RequestOrResponse`
(the cycles split into a low `u64` and a high one left out when zero) and writes it in packed CBOR,
each struct a map keyed by field index; `decode_message` reads it back, taking the legacy
`cycles_payment` and `cycles_refund` over the funds when given. The CBOR format is a parameter
(`Serde.Format`) that decodes what it encodes.

* `Types.*`, each with `serialize`, `deserialize` and `deserialize_serialize`, and the conversions
  `ofMessage`, `toMessage`, each way back inverting the way there;
* **`decodeMessage_encodeMessage`**: every message, at every certification version, decodes to
  itself.
-/

namespace IC.CanonicalState

open Serde IC.Messages IC.State

namespace Types

/-! ## Cycles and funds -/

/-- `types::Cycles`: the low 64 bits, and the high ones, left out when zero. -/
structure Cycles where
  low : UInt64
  high : Option UInt64

namespace Cycles

/-- The derived `Serialize`, packed: `high` is skipped when `None`. -/
def serialize (c : Cycles) : Value :=
  .map ([(.uint 0, .uint c.low)] ++ (c.high.map fun high => [(.uint 1, .uint high)]).getD [])

/-- The fields of a `Cycles` read so far. -/
structure Partial where
  low : Option UInt64
  high : Option (Option UInt64)

/-- The fields of the derived `Deserialize`. -/
def fields : StructFields Partial where
  names := ["low", "high"]
  given
    | 0, acc => acc.low.isSome
    | 1, acc => acc.high.isSome
    | _, _ => false
  read
    | 0, acc, v => do pure { acc with low := some (← v.toU64) }
    | 1, acc, v => do pure { acc with high := some (some (← v.toU64)) }
    | _, acc, _ => pure acc
  required _ := true

/-- The end of the derived `visit_map`: `low` must be given, `high` is `None` when missing. -/
def ofPartial (acc : Partial) : Except Error Cycles := do
  let some low := acc.low | .error (.missingField "low")
  pure ⟨low, acc.high.getD none⟩

/-- The derived `Deserialize`. -/
def deserialize : Value → Except Error Cycles :=
  fields.deserialize "Cycles" ⟨none, none⟩ ofPartial

theorem deserialize_serialize (c : Cycles) : deserialize c.serialize = .ok c := by
  obtain ⟨low, _ | high⟩ := c <;> rfl

end Cycles

/-- `types::Funds`. -/
structure Funds where
  cycles : Cycles
  icp : UInt64

namespace Funds

/-- The derived `Serialize`, packed: `icp` is skipped when zero. -/
def serialize (f : Funds) : Value :=
  .map ([(.uint 0, f.cycles.serialize)] ++ if f.icp = 0 then [] else [(.uint 1, .uint f.icp)])

/-- The fields of a `Funds` read so far. -/
structure Partial where
  cycles : Option Cycles
  icp : Option UInt64

/-- The fields of the derived `Deserialize`; `icp` has a default. -/
def fields : StructFields Partial where
  names := ["cycles", "icp"]
  given
    | 0, acc => acc.cycles.isSome
    | 1, acc => acc.icp.isSome
    | _, _ => false
  read
    | 0, acc, v => do pure { acc with cycles := some (← Cycles.deserialize v) }
    | 1, acc, v => do pure { acc with icp := some (← v.toU64) }
    | _, acc, _ => pure acc
  required
    | 1 => false
    | _ => true

/-- The end of the derived `visit_map`: `cycles` must be given, `icp` defaults to zero. -/
def ofPartial (acc : Partial) : Except Error Funds := do
  let some cycles := acc.cycles | .error (.missingField "cycles")
  pure ⟨cycles, acc.icp.getD 0⟩

/-- The derived `Deserialize`. -/
def deserialize : Value → Except Error Funds :=
  fields.deserialize "Funds" ⟨none, none⟩ ofPartial

theorem deserialize_serialize (f : Funds) : deserialize f.serialize = .ok f := by
  obtain ⟨cycles, icp⟩ := f
  by_cases h : icp = 0
  · subst h
    simp [serialize, deserialize, fields, Cycles.deserialize_serialize, ofPartial]
  · simp [serialize, deserialize, fields, Cycles.deserialize_serialize, ofPartial, h]

end Funds

/-! ## Payloads -/

/-- `types::RejectContext`: the code as a `u8`. -/
structure RejectContext where
  code : UInt8
  message : String

namespace RejectContext

/-- The derived `Serialize`, packed. -/
def serialize (r : RejectContext) : Value :=
  .map [(.uint 0, .uint r.code.toUInt64), (.uint 1, .str r.message)]

/-- The fields of a `RejectContext` read so far. -/
structure Partial where
  code : Option UInt8
  message : Option String

/-- The fields of the derived `Deserialize`. -/
def fields : StructFields Partial where
  names := ["code", "message"]
  given
    | 0, acc => acc.code.isSome
    | 1, acc => acc.message.isSome
    | _, _ => false
  read
    | 0, acc, v => do pure { acc with code := some (← v.toU8) }
    | 1, acc, v => do pure { acc with message := some (← v.toStr) }
    | _, acc, _ => pure acc
  required _ := true

/-- The end of the derived `visit_map`: both fields must be given. -/
def ofPartial (acc : Partial) : Except Error RejectContext := do
  let some code := acc.code | .error (.missingField "code")
  let some message := acc.message | .error (.missingField "message")
  pure ⟨code, message⟩

/-- The derived `Deserialize`. -/
def deserialize : Value → Except Error RejectContext :=
  fields.deserialize "RejectContext" ⟨none, none⟩ ofPartial

theorem deserialize_serialize (r : RejectContext) : deserialize r.serialize = .ok r := by
  have hcode : r.code.toUInt64 < 256 :=
    UInt64.lt_iff_toNat_lt.mpr (by simp only [UInt8.toNat_toUInt64]; exact r.code.toNat_lt)
  simp [serialize, deserialize, fields, ofPartial, Value.toU8_uint hcode]

end RejectContext

/-- `types::Payload`: the data or the reject context, each left out when `None`. -/
structure Payload where
  data : Option (List UInt8)
  reject : Option RejectContext

namespace Payload

/-- The derived `Serialize`, packed. -/
def serialize (p : Payload) : Value :=
  .map ((p.data.map fun data => [(.uint 0, .bytes data)]).getD [] ++
    (p.reject.map fun reject => [(.uint 1, reject.serialize)]).getD [])

/-- The fields of a `Payload` read so far. -/
structure Partial where
  data : Option (Option (List UInt8))
  reject : Option (Option RejectContext)

/-- The fields of the derived `Deserialize`; `data` has a default. -/
def fields : StructFields Partial where
  names := ["data", "reject"]
  given
    | 0, acc => acc.data.isSome
    | 1, acc => acc.reject.isSome
    | _, _ => false
  read
    | 0, acc, v => do pure { acc with data := some (some (← v.toByteBuf)) }
    | 1, acc, v => do pure { acc with reject := some (some (← RejectContext.deserialize v)) }
    | _, acc, _ => pure acc
  required
    | 0 => false
    | _ => true

/-- The end of the derived `visit_map`: a field not given is `None`. -/
def ofPartial (acc : Partial) : Except Error Payload :=
  pure ⟨acc.data.getD none, acc.reject.getD none⟩

/-- The derived `Deserialize`. -/
def deserialize : Value → Except Error Payload :=
  fields.deserialize "Payload" ⟨none, none⟩ ofPartial

theorem deserialize_serialize (p : Payload) : deserialize p.serialize = .ok p := by
  obtain ⟨_ | data, _ | reject⟩ := p <;>
    simp [serialize, deserialize, fields, ofPartial, RejectContext.deserialize_serialize]

end Payload

/-! ## Requests and responses -/

/-- `types::Request`, with the legacy `cycles_payment`. -/
structure Request where
  receiver : List UInt8
  sender : List UInt8
  senderReplyCallback : UInt64
  payment : Funds
  methodName : String
  methodPayload : List UInt8
  cyclesPayment : Option Cycles

namespace Request

/-- The derived `Serialize`, packed. -/
def serialize (r : Request) : Value :=
  .map ([(.uint 0, .bytes r.receiver), (.uint 1, .bytes r.sender),
    (.uint 2, .uint r.senderReplyCallback), (.uint 3, r.payment.serialize),
    (.uint 4, .str r.methodName), (.uint 5, .bytes r.methodPayload)] ++
    (r.cyclesPayment.map fun c => [(.uint 6, c.serialize)]).getD [])

/-- The fields of a `Request` read so far. -/
structure Partial where
  receiver : Option (List UInt8)
  sender : Option (List UInt8)
  senderReplyCallback : Option UInt64
  payment : Option Funds
  methodName : Option String
  methodPayload : Option (List UInt8)
  cyclesPayment : Option (Option Cycles)

/-- The fields of the derived `Deserialize`. -/
def fields : StructFields Partial where
  names := ["receiver", "sender", "sender_reply_callback", "payment", "method_name",
    "method_payload", "cycles_payment"]
  given
    | 0, acc => acc.receiver.isSome
    | 1, acc => acc.sender.isSome
    | 2, acc => acc.senderReplyCallback.isSome
    | 3, acc => acc.payment.isSome
    | 4, acc => acc.methodName.isSome
    | 5, acc => acc.methodPayload.isSome
    | 6, acc => acc.cyclesPayment.isSome
    | _, _ => false
  read
    | 0, acc, v => do pure { acc with receiver := some (← v.toByteBuf) }
    | 1, acc, v => do pure { acc with sender := some (← v.toByteBuf) }
    | 2, acc, v => do pure { acc with senderReplyCallback := some (← v.toU64) }
    | 3, acc, v => do pure { acc with payment := some (← Funds.deserialize v) }
    | 4, acc, v => do pure { acc with methodName := some (← v.toStr) }
    | 5, acc, v => do pure { acc with methodPayload := some (← v.toByteBuf) }
    | 6, acc, v => do pure { acc with cyclesPayment := some (some (← Cycles.deserialize v)) }
    | _, acc, _ => pure acc
  required _ := true

/-- The end of the derived `visit_map`: every field but `cycles_payment` must be given. -/
def ofPartial (acc : Partial) : Except Error Request := do
  let some receiver := acc.receiver | .error (.missingField "receiver")
  let some sender := acc.sender | .error (.missingField "sender")
  let some senderReplyCallback := acc.senderReplyCallback
    | .error (.missingField "sender_reply_callback")
  let some payment := acc.payment | .error (.missingField "payment")
  let some methodName := acc.methodName | .error (.missingField "method_name")
  let some methodPayload := acc.methodPayload | .error (.missingField "method_payload")
  pure ⟨receiver, sender, senderReplyCallback, payment, methodName, methodPayload,
    acc.cyclesPayment.getD none⟩

/-- The derived `Deserialize`. -/
def deserialize : Value → Except Error Request :=
  fields.deserialize "Request" ⟨none, none, none, none, none, none, none⟩ ofPartial

theorem deserialize_serialize (r : Request) : deserialize r.serialize = .ok r := by
  obtain ⟨receiver, sender, callback, payment, methodName, methodPayload, _ | c⟩ := r <;>
    simp [serialize, deserialize, fields, ofPartial, Funds.deserialize_serialize,
      Cycles.deserialize_serialize]

end Request

/-- `types::Response`, with the legacy `cycles_refund`. -/
structure Response where
  originator : List UInt8
  respondent : List UInt8
  originatorReplyCallback : UInt64
  refund : Funds
  responsePayload : Payload
  cyclesRefund : Option Cycles

namespace Response

/-- The derived `Serialize`, packed. -/
def serialize (r : Response) : Value :=
  .map ([(.uint 0, .bytes r.originator), (.uint 1, .bytes r.respondent),
    (.uint 2, .uint r.originatorReplyCallback), (.uint 3, r.refund.serialize),
    (.uint 4, r.responsePayload.serialize)] ++
    (r.cyclesRefund.map fun c => [(.uint 5, c.serialize)]).getD [])

/-- The fields of a `Response` read so far. -/
structure Partial where
  originator : Option (List UInt8)
  respondent : Option (List UInt8)
  originatorReplyCallback : Option UInt64
  refund : Option Funds
  responsePayload : Option Payload
  cyclesRefund : Option (Option Cycles)

/-- The fields of the derived `Deserialize`. -/
def fields : StructFields Partial where
  names := ["originator", "respondent", "originator_reply_callback", "refund",
    "response_payload", "cycles_refund"]
  given
    | 0, acc => acc.originator.isSome
    | 1, acc => acc.respondent.isSome
    | 2, acc => acc.originatorReplyCallback.isSome
    | 3, acc => acc.refund.isSome
    | 4, acc => acc.responsePayload.isSome
    | 5, acc => acc.cyclesRefund.isSome
    | _, _ => false
  read
    | 0, acc, v => do pure { acc with originator := some (← v.toByteBuf) }
    | 1, acc, v => do pure { acc with respondent := some (← v.toByteBuf) }
    | 2, acc, v => do pure { acc with originatorReplyCallback := some (← v.toU64) }
    | 3, acc, v => do pure { acc with refund := some (← Funds.deserialize v) }
    | 4, acc, v => do pure { acc with responsePayload := some (← Payload.deserialize v) }
    | 5, acc, v => do pure { acc with cyclesRefund := some (some (← Cycles.deserialize v)) }
    | _, acc, _ => pure acc
  required _ := true

/-- The end of the derived `visit_map`: every field but `cycles_refund` must be given. -/
def ofPartial (acc : Partial) : Except Error Response := do
  let some originator := acc.originator | .error (.missingField "originator")
  let some respondent := acc.respondent | .error (.missingField "respondent")
  let some originatorReplyCallback := acc.originatorReplyCallback
    | .error (.missingField "originator_reply_callback")
  let some refund := acc.refund | .error (.missingField "refund")
  let some responsePayload := acc.responsePayload | .error (.missingField "response_payload")
  pure ⟨originator, respondent, originatorReplyCallback, refund, responsePayload,
    acc.cyclesRefund.getD none⟩

/-- The derived `Deserialize`. -/
def deserialize : Value → Except Error Response :=
  fields.deserialize "Response" ⟨none, none, none, none, none, none⟩ ofPartial

theorem deserialize_serialize (r : Response) : deserialize r.serialize = .ok r := by
  obtain ⟨originator, respondent, callback, refund, payload, _ | c⟩ := r <;>
    simp [serialize, deserialize, fields, ofPartial, Funds.deserialize_serialize,
      Payload.deserialize_serialize, Cycles.deserialize_serialize]

end Response

/-- `types::RequestOrResponse`: a request or a response, each left out when `None`. -/
structure RequestOrResponse where
  request : Option Request
  response : Option Response

namespace RequestOrResponse

/-- The derived `Serialize`, packed. -/
def serialize (m : RequestOrResponse) : Value :=
  .map ((m.request.map fun r => [(.uint 0, r.serialize)]).getD [] ++
    (m.response.map fun r => [(.uint 1, r.serialize)]).getD [])

/-- The fields of a `RequestOrResponse` read so far. -/
structure Partial where
  request : Option (Option Request)
  response : Option (Option Response)

/-- The fields of the derived `Deserialize`. -/
def fields : StructFields Partial where
  names := ["request", "response"]
  given
    | 0, acc => acc.request.isSome
    | 1, acc => acc.response.isSome
    | _, _ => false
  read
    | 0, acc, v => do pure { acc with request := some (some (← Request.deserialize v)) }
    | 1, acc, v => do pure { acc with response := some (some (← Response.deserialize v)) }
    | _, acc, _ => pure acc
  required _ := true

/-- The end of the derived `visit_map`: a field not given is `None`. -/
def ofPartial (acc : Partial) : Except Error RequestOrResponse :=
  pure ⟨acc.request.getD none, acc.response.getD none⟩

/-- The derived `Deserialize`. -/
def deserialize : Value → Except Error RequestOrResponse :=
  fields.deserialize "RequestOrResponse" ⟨none, none⟩ ofPartial

theorem deserialize_serialize (m : RequestOrResponse) : deserialize m.serialize = .ok m := by
  obtain ⟨_ | request, _ | response⟩ := m <;>
    simp [serialize, deserialize, fields, ofPartial, Request.deserialize_serialize,
      Response.deserialize_serialize]

end RequestOrResponse

/-! ## Conversions -/

namespace Cycles

/-- `From<(&Cycles, CertificationVersion)> for types::Cycles`, the high half left out when zero. -/
def ofCycles (cycles : IC.Queues.Cycles) : Cycles :=
  let (high, low) := cycles.intoParts
  ⟨low, if high = 0 then none else some high⟩

/-- `TryFrom<types::Cycles> for Cycles`, which never fails. -/
def toCycles (cycles : Cycles) : IC.Queues.Cycles :=
  match cycles.high with
  | none => .ofU64 cycles.low
  | some high => .fromParts high cycles.low

theorem toCycles_ofCycles (cycles : IC.Queues.Cycles) : (ofCycles cycles).toCycles = cycles := by
  by_cases h : cycles.intoParts.1 = 0
  · simp only [ofCycles, toCycles, h, if_true]
    exact IC.Queues.Cycles.ofU64_intoParts h
  · simp only [ofCycles, toCycles, h, if_false]
    exact IC.Queues.Cycles.fromParts_intoParts cycles

end Cycles

namespace RejectContext

/-- `From<(&RejectContext, CertificationVersion)> for types::RejectContext`: `code as u8`. -/
def ofContext (context : Messages.RejectContext) : RejectContext :=
  ⟨context.code.toU8, context.message⟩

/-- `TryFrom<types::RejectContext> for RejectContext`: the code read back as a `RejectCode`. -/
def toContext (context : RejectContext) : Except ProxyDecodeError Messages.RejectContext := do
  let code ← (RejectCode.tryFrom context.code.toUInt64).mapError fun code =>
    .valueOutOfRange "RejectContext" (toString code)
  pure ⟨code, context.message⟩

theorem toContext_ofContext (context : Messages.RejectContext) :
    (ofContext context).toContext = .ok context := by
  simp [ofContext, toContext, Except.mapError]

end RejectContext

namespace Payload

/-- `From<(&Payload, CertificationVersion)> for types::Payload`. -/
def ofPayload : Messages.Payload → Payload
  | .data data => ⟨some data, none⟩
  | .reject context => ⟨none, some (.ofContext context)⟩

/-- `TryFrom<types::Payload> for Payload`: exactly one of the data and the reject context. -/
def toPayload : Payload → Except ProxyDecodeError Messages.Payload
  | ⟨some data, none⟩ => .ok (.data data)
  | ⟨none, some reject⟩ => do pure (.reject (← reject.toContext))
  | _ => .error (.other ("Payload: expected exactly one of \x60data\x60 or \x60reject\x60 to be " ++
      "\x60Some(_)\x60"))

theorem toPayload_ofPayload (payload : Messages.Payload) :
    (ofPayload payload).toPayload = .ok payload := by
  cases payload with
  | data data => rfl
  | reject context => simp [ofPayload, toPayload, RejectContext.toContext_ofContext]

end Payload

/-- `CanisterId::new(PrincipalId::try_from(bytes)?)`: over 29 bytes is refused. -/
def canisterIdOfBytes (bytes : List UInt8) : Except ProxyDecodeError CanisterId :=
  match PrincipalId.tryFrom bytes with
  | some principalId => .ok principalId
  | none => .error .invalidPrincipalId

@[simp] theorem canisterIdOfBytes_bytes (canisterId : CanisterId) :
    canisterIdOfBytes canisterId.bytes = .ok canisterId := by
  simp [canisterIdOfBytes]

namespace Request

/-- `From<(&Request, CertificationVersion)> for types::Request`. -/
def ofRequest (request : Messages.Request) : Request :=
  ⟨request.receiver.bytes, request.sender.bytes, request.senderReplyCallback,
    ⟨.ofCycles request.payment, 0⟩, request.methodName, request.methodPayload, none⟩

/-- `TryFrom<types::Request> for Request`: `cycles_payment` if given, else the funds' cycles. -/
def toRequest (request : Request) : Except ProxyDecodeError Messages.Request := do
  let payment := (request.cyclesPayment.getD request.payment.cycles).toCycles
  let receiver ← canisterIdOfBytes request.receiver
  let sender ← canisterIdOfBytes request.sender
  pure ⟨receiver, sender, request.senderReplyCallback, payment, request.methodName,
    request.methodPayload⟩

theorem toRequest_ofRequest (request : Messages.Request) :
    (ofRequest request).toRequest = .ok request := by
  simp [ofRequest, toRequest, Cycles.toCycles_ofCycles]

end Request

namespace Response

/-- `From<(&Response, CertificationVersion)> for types::Response`. -/
def ofResponse (response : Messages.Response) : Response :=
  ⟨response.originator.bytes, response.respondent.bytes, response.originatorReplyCallback,
    ⟨.ofCycles response.refund, 0⟩, .ofPayload response.responsePayload, none⟩

/-- `TryFrom<types::Response> for Response`: `cycles_refund` if given, else the funds' cycles. -/
def toResponse (response : Response) : Except ProxyDecodeError Messages.Response := do
  let refund := (response.cyclesRefund.getD response.refund.cycles).toCycles
  let originator ← canisterIdOfBytes response.originator
  let respondent ← canisterIdOfBytes response.respondent
  let responsePayload ← response.responsePayload.toPayload
  pure ⟨originator, respondent, response.originatorReplyCallback, refund, responsePayload⟩

theorem toResponse_ofResponse (response : Messages.Response) :
    (ofResponse response).toResponse = .ok response := by
  simp [ofResponse, toResponse, Cycles.toCycles_ofCycles, Payload.toPayload_ofPayload]

end Response

namespace RequestOrResponse

/-- `From<(&RequestOrResponse, CertificationVersion)> for types::RequestOrResponse`. -/
def ofMessage (message : Messages.RequestOrResponse) (_certificationVersion : Fin 10) :
    RequestOrResponse :=
  match message with
  | .request request => ⟨some (.ofRequest request), none⟩
  | .response response => ⟨none, some (.ofResponse response)⟩

/-- `TryFrom<types::RequestOrResponse> for RequestOrResponse`: exactly one of the two. -/
def toMessage : RequestOrResponse → Except ProxyDecodeError Messages.RequestOrResponse
  | ⟨some request, none⟩ => do pure (.request (← request.toRequest))
  | ⟨none, some response⟩ => do pure (.response (← response.toResponse))
  | _ => .error (.other ("RequestOrResponse: expected exactly one of \x60request\x60 or " ++
      "\x60response\x60 to be \x60Some(_)\x60"))

theorem toMessage_ofMessage (message : Messages.RequestOrResponse) (certificationVersion : Fin 10) :
    (ofMessage message certificationVersion).toMessage = .ok message := by
  cases message with
  | request request => simp [ofMessage, toMessage, Request.toRequest_ofRequest]
  | response response => simp [ofMessage, toMessage, Response.toResponse_ofResponse]

end RequestOrResponse

end Types

/-! ## Encoding and decoding -/

/-- `encode_message`: the canonical form in the packed format. -/
def encodeMessage (format : Format) (message : Messages.RequestOrResponse)
    (certificationVersion : Fin 10) : List UInt8 :=
  format.encode (Types.RequestOrResponse.ofMessage message certificationVersion).serialize

/-- `decode_message`. -/
def decodeMessage (format : Format) (bytes : List UInt8) :
    Except ProxyDecodeError Messages.RequestOrResponse := do
  let value ← (format.decode bytes).mapError fun e => .cborDecodeError (.inl e)
  let canonical ← (Types.RequestOrResponse.deserialize value).mapError fun e =>
    .cborDecodeError (.inr e)
  canonical.toMessage

/-- **Messages round-trip**: every message, at every certification version, decodes to itself. -/
theorem decodeMessage_encodeMessage (format : Format) (message : Messages.RequestOrResponse)
    (certificationVersion : Fin 10) :
    decodeMessage format (encodeMessage format message certificationVersion) = .ok message := by
  simp only [decodeMessage, encodeMessage, format.decode_encode,
    Types.RequestOrResponse.deserialize_serialize, Except.mapError, Except.ok_bind]
  exact Types.RequestOrResponse.toMessage_ofMessage message certificationVersion

/-- Over the format of tagged values, a request with a payment and a payload comes back. -/
theorem decodeMessage_encodeMessage_at_tlv_request :
    let request : Messages.Request :=
      ⟨⟨[1], by decide⟩, ⟨[2, 3], by decide⟩, 7, ⟨5, by decide⟩, "ping", [0, 255]⟩
    decodeMessage tlv (encodeMessage tlv (.request request) 9) = .ok (.request request) :=
  decodeMessage_encodeMessage tlv _ 9

end IC.CanonicalState
