import InternetComputer.Ingress.History
import InternetComputer.Lib.Rust

/-!
# Validating an ingress payload

The checks of `validate_ingress_payload` that decide whether a message may be inducted again: the
duplicate check against the payloads above the certified height chained with the ingress history,
and the expiry window of `validate_ingress_expiry`. The size, cycles and signature checks are left
out.

* `IngressSetQuery` and its implementations; `validateIngressPayload`;
* `validateIngressPayload_eq_ok_iff`: the payload passes exactly when no message is in the chain
  and every expiry is in the window.
-/

namespace IC.Ingress

/-- `ic_constants::PERMITTED_DRIFT_AT_VALIDATOR`: thirty seconds. -/
def permittedDriftAtValidator : ℕ := 30 * 10 ^ 9

/-- `IngressMessageId`: the expiry of a message and its `MessageId`. -/
structure IngressMessageId (μ : Type) where
  expiry : Time
  messageId : μ
  deriving DecidableEq, Repr

/-- `ValidationContext`; its registry version is left out. -/
structure ValidationContext where
  time : Time
  certifiedHeight : ℕ
  deriving DecidableEq, Repr

/-- `RequestValidationError::InvalidIngressExpiry`, with the bounds its message prints. -/
inductive RequestValidationError where
  | invalidIngressExpiry (minAllowedExpiry maxAllowedExpiry providedExpiry : Time)
  deriving DecidableEq, Repr

/-- `IngressPermanentError`, the variants the modelled checks return. -/
inductive IngressPermanentError (μ : Type) where
  | ingressHistoryError (height : ℕ)
  | ingressExpired (messageId : μ) (err : RequestValidationError)
  | duplicatedIngressMessage (messageId : μ)
  deriving DecidableEq, Repr

/-- The trait `IngressSetQuery`, as the record of its two methods. -/
structure IngressSetQuery (μ : Type) where
  contains : IngressMessageId μ → Bool
  expiryLowerBound : Time

variable {μ : Type}

/-- `IngressSets`: the messages of the past payloads and the time of the lowest of them. -/
structure IngressSets (μ : Type) where
  hashSets : List (List (IngressMessageId μ))
  minBlockTime : Time

/-- `impl IngressSetQuery for IngressSets`. -/
def IngressSets.toQuery [DecidableEq μ] (s : IngressSets μ) : IngressSetQuery μ where
  contains msgId := s.hashSets.any fun set => decide (msgId ∈ set)
  expiryLowerBound := s.minBlockTime

/-- `impl IngressSetQuery for IngressHistorySet`: a message with a status, for every expiry. -/
def IngressHistorySet.toQuery (getStatus : μ → IngressStatus) : IngressSetQuery μ where
  contains msgId := getStatus msgId.messageId != .unknown
  expiryLowerBound := 0

/-- `IngressHistorySet::new`: the statuses of the state at the certified height. -/
def IngressHistorySet.new (getStatusAtHeight : ℕ → Option (μ → IngressStatus))
    (certifiedHeight : ℕ) : Except (IngressPermanentError μ) (IngressSetQuery μ) :=
  match getStatusAtHeight certifiedHeight with
  | some getStatus => .ok (IngressHistorySet.toQuery getStatus)
  | none => .error (.ingressHistoryError certifiedHeight)

/-- `IngressSetChain`. -/
structure IngressSetChain (μ : Type) where
  first : IngressSetQuery μ
  next : Option (IngressSetQuery μ)

namespace IngressSetChain

/-- `IngressSetChain::new`: the second set only for expiries the first does not cover. -/
def new {ε : Type} (time : Time) (first : IngressSetQuery μ)
    (second : Except ε (IngressSetQuery μ)) : Except ε (IngressSetChain μ) :=
  if first.expiryLowerBound + maxIngressTtl ≤ time then .ok ⟨first, none⟩
  else do
    let next ← second
    pure ⟨first, some next⟩

/-- `impl IngressSetQuery for IngressSetChain`: `contains`. -/
def contains (c : IngressSetChain μ) (msgId : IngressMessageId μ) : Bool :=
  if c.first.contains msgId then true
  else (c.next.map fun set => set.contains msgId).getD false

end IngressSetChain

/-- `validate_ingress_expiry`: the expiry within `MAX_INGRESS_TTL` plus the drift of now. -/
def validateIngressExpiry (ingressExpiry currentTime : Time) :
    Except RequestValidationError Unit :=
  let minAllowedExpiry := currentTime
  let maxAllowedExpiry := minAllowedExpiry + maxIngressTtl + permittedDriftAtValidator
  if ¬(minAllowedExpiry ≤ ingressExpiry ∧ ingressExpiry ≤ maxAllowedExpiry) then
    .error (.invalidIngressExpiry minAllowedExpiry maxAllowedExpiry ingressExpiry)
  else .ok ()

/-- `IngressManager::validate_ingress`: the duplicate check, then the expiry check. -/
def validateIngress (ingressId : IngressMessageId μ) (context : ValidationContext)
    (pastIngressSet : IngressSetChain μ) : Except (IngressPermanentError μ) Unit :=
  if pastIngressSet.contains ingressId then .error (.duplicatedIngressMessage ingressId.messageId)
  else
    match validateIngressExpiry ingressId.expiry context.time with
    | .error err => .error (.ingressExpired ingressId.messageId err)
    | .ok () => .ok ()

/-- `IngressSelector::validate_ingress_payload`. -/
def validateIngressPayload (payload : List (IngressMessageId μ)) (pastIngress : IngressSetQuery μ)
    (context : ValidationContext) (getStatusAtHeight : ℕ → Option (μ → IngressStatus)) :
    Except (IngressPermanentError μ) Unit := do
  let pastIngress ← IngressSetChain.new context.time pastIngress
    (IngressHistorySet.new getStatusAtHeight context.certifiedHeight)
  payload.forM fun ingressId => validateIngress ingressId context pastIngress

/-- `IngressSelector::filter_past_payloads`, the payload cache left out. -/
def filterPastPayloads (pastPayloads : List (ℕ × Time × List (IngressMessageId μ)))
    (context : ValidationContext) : IngressSets μ where
  hashSets := pastPayloads.map fun p => p.2.2
  minBlockTime :=
    match pastPayloads.getLast? with
    | none => context.time
    | some (_, time, _) => time

/-! ## What a valid payload satisfies -/

theorem validateIngressExpiry_eq_ok_iff {ingressExpiry currentTime : Time} :
    validateIngressExpiry ingressExpiry currentTime = .ok () ↔
      currentTime ≤ ingressExpiry ∧
        ingressExpiry ≤ currentTime + maxIngressTtl + permittedDriftAtValidator := by
  unfold validateIngressExpiry
  dsimp only
  by_cases h : currentTime ≤ ingressExpiry ∧
      ingressExpiry ≤ currentTime + maxIngressTtl + permittedDriftAtValidator
  · rw [if_neg (not_not.mpr h)]
    exact iff_of_true rfl h
  · rw [if_pos h]
    exact iff_of_false (fun he => by cases he) h

theorem validateIngress_eq_ok_iff {ingressId : IngressMessageId μ} {context : ValidationContext}
    {pastIngressSet : IngressSetChain μ} :
    validateIngress ingressId context pastIngressSet = .ok () ↔
      pastIngressSet.contains ingressId = false ∧
        validateIngressExpiry ingressId.expiry context.time = .ok () := by
  unfold validateIngress
  split_ifs with hdup
  · simp [hdup]
  · cases hexp : validateIngressExpiry ingressId.expiry context.time <;> simp [hdup]

theorem validateIngressPayload_eq_ok_iff {payload : List (IngressMessageId μ)}
    {pastIngress : IngressSetQuery μ} {context : ValidationContext}
    {getStatusAtHeight : ℕ → Option (μ → IngressStatus)} :
    validateIngressPayload payload pastIngress context getStatusAtHeight = .ok () ↔
      ∃ chain, IngressSetChain.new context.time pastIngress
          (IngressHistorySet.new getStatusAtHeight context.certifiedHeight) = .ok chain ∧
        ∀ ingressId ∈ payload, chain.contains ingressId = false ∧
          context.time ≤ ingressId.expiry ∧
          ingressId.expiry ≤ context.time + maxIngressTtl + permittedDriftAtValidator := by
  unfold validateIngressPayload
  rw [Except.bind_eq_ok]
  refine exists_congr fun chain => and_congr_right fun _ => ?_
  rw [Except.forM_eq_ok]
  refine forall₂_congr fun ingressId _ => ?_
  rw [validateIngress_eq_ok_iff, validateIngressExpiry_eq_ok_iff]

end IC.Ingress
