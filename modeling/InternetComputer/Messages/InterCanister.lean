import InternetComputer.CanisterQueues.Queue

/-!
# Inter-canister messages

The messages of `ic-types` that canisters send each other: a `Request`, from its sender to its
receiver with a payment in cycles, or a `Response`, back to the originator with a refund and
either data or a reject context; with `Cycles` split into and put back from their two `u64`
halves and the reject codes read back from their `u64` values.

* `RejectCode`, with `RejectCode.toU8` and `RejectCode.tryFrom`, and **`tryFrom_toU8`**: a code
  is read back from its discriminant;
* `RejectContext`, `Payload`, `Request`, `Response`, `RequestOrResponse`;
* `Cycles.intoParts`, `Cycles.fromParts`, `Cycles.ofU64`, and **`fromParts_intoParts`**: the
  halves of an amount make it again.
-/

namespace IC.Messages

open IC.State (CanisterId)
open IC.Queues (Cycles u128Max)

/-- `RejectCode`. -/
inductive RejectCode
  | sysFatal
  | sysTransient
  | destinationInvalid
  | canisterReject
  | canisterError
  deriving DecidableEq, Repr

namespace RejectCode

/-- `code as u8`: the discriminant. -/
def toU8 : RejectCode → UInt8
  | .sysFatal => 1
  | .sysTransient => 2
  | .destinationInvalid => 3
  | .canisterReject => 4
  | .canisterError => 5

/-- `TryFrom<u64> for RejectCode`, refusing any other value as `ValueOutOfRange`. -/
def tryFrom (code : UInt64) : Except UInt64 RejectCode :=
  if code = 1 then .ok .sysFatal
  else if code = 2 then .ok .sysTransient
  else if code = 3 then .ok .destinationInvalid
  else if code = 4 then .ok .canisterReject
  else if code = 5 then .ok .canisterError
  else .error code

@[simp] theorem tryFrom_toU8 (code : RejectCode) : tryFrom code.toU8.toUInt64 = .ok code := by
  cases code <;> rfl

end RejectCode

/-- `RejectContext`. -/
structure RejectContext where
  code : RejectCode
  message : String
  deriving DecidableEq

/-- `Payload` of a response: the data, or why the call was rejected. -/
inductive Payload
  | data (data : List UInt8)
  | reject (context : RejectContext)
  deriving DecidableEq

/-- `Request`. -/
structure Request where
  receiver : CanisterId
  sender : CanisterId
  senderReplyCallback : UInt64
  payment : Cycles
  methodName : String
  methodPayload : List UInt8
  deriving DecidableEq

/-- `Response`. -/
structure Response where
  originator : CanisterId
  respondent : CanisterId
  originatorReplyCallback : UInt64
  refund : Cycles
  responsePayload : Payload
  deriving DecidableEq

/-- `RequestOrResponse`. -/
inductive RequestOrResponse
  | request (request : Request)
  | response (response : Response)
  deriving DecidableEq

end IC.Messages

/-! ## The halves of an amount of cycles -/

namespace IC.Queues.Cycles

/-- `Cycles::into_parts`: the high and the low 64 bits. -/
def intoParts (c : Cycles) : UInt64 × UInt64 :=
  (UInt64.ofNat (c.val / 2 ^ 64), UInt64.ofNat c.val)

/-- `Cycles::from_parts`: `high << 64 | low`. -/
def fromParts (high low : UInt64) : Cycles :=
  ⟨high.toNat * 2 ^ 64 + low.toNat, by
    have := high.toNat_lt
    have := low.toNat_lt
    unfold u128Max
    omega⟩

/-- `From<u64> for Cycles`. -/
def ofU64 (low : UInt64) : Cycles :=
  ⟨low.toNat, by
    have := low.toNat_lt
    unfold u128Max
    omega⟩

theorem val_intoParts_fst (c : Cycles) : (intoParts c).1.toNat = c.val / 2 ^ 64 := by
  have := c.le_max
  unfold u128Max at this
  simp only [intoParts, UInt64.toNat_ofNat']
  omega

theorem val_intoParts_snd (c : Cycles) : (intoParts c).2.toNat = c.val % 2 ^ 64 := by
  simp [intoParts]

/-- **The halves of an amount make it again.** -/
theorem fromParts_intoParts (c : Cycles) : fromParts (intoParts c).1 (intoParts c).2 = c := by
  apply ext_val
  simp only [fromParts, val_intoParts_fst, val_intoParts_snd]
  omega

theorem ofU64_intoParts {c : Cycles} (h : (intoParts c).1 = 0) : ofU64 (intoParts c).2 = c := by
  apply ext_val
  have hhigh := val_intoParts_fst c
  rw [h, UInt64.toNat_zero] at hhigh
  simp only [ofU64, val_intoParts_snd]
  omega

end IC.Queues.Cycles
