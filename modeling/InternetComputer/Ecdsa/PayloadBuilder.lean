import Mathlib
import InternetComputer.Ecdsa.Payload
import InternetComputer.Lib.Rust

/-!
# The threshold ECDSA payload builder

`create_data_payload` and `create_summary_payload`: each block's ECDSA payload made from its
parent's and the `DataPayloadInputs` it reads from outside. A chain of blocks since a bootstrap
summary is a fold of `Block.nextPayload`. A panic of the replica is the error `panic`.

* `createDataPayload`, `createSummaryPayload`, `makeBootStrapSummary`, `buildChain`.
-/

namespace IC.Ecdsa

/-- `EcdsaPayloadError`, for the errors the functions here raise, and the replica's panics. -/
inductive EcdsaPayloadError (δ : Type) where
  | iDkgTranscriptIdError (err : IDkgTranscriptIdError)
  | transcriptCastError (err : TranscriptCastError)
  | initialIDkgDealingsNotUnmaskedParams (dealings : δ)
  | panic (msg : String)

variable {σ δ ρ : Type}

/-! ## Pairing signing requests with quadruples -/

/-- The loop of `get_signing_requests`: each new request takes a quadruple id from `unassigned`. -/
def getSigningRequestsLoop (knownRandomIds : List ℕ) :
    List SignWithEcdsaContext → List ℕ → List (RequestId × SignWithEcdsaContext)
  | [], _ => []
  | context :: contexts, unassigned =>
    if context.pseudoRandomId ∈ knownRandomIds then
      getSigningRequestsLoop knownRandomIds contexts unassigned
    else
      match unassigned.getLast? with
      | some quadrupleId =>
        (⟨quadrupleId, context.pseudoRandomId⟩, context) ::
          getSigningRequestsLoop knownRandomIds contexts unassigned.dropLast
      | none => []

/-- `get_signing_requests`, the unassigned ids sorted so the smallest pops first. -/
def getSigningRequests (p : EcdsaPayload σ δ ρ) (signWithEcdsaContexts : List SignWithEcdsaContext) :
    List (RequestId × SignWithEcdsaContext) :=
  let knownRandomIds := p.iterRequestIds.map (·.pseudoRandomId)
  let unassignedQuadrupleIds := p.unassignedQuadrupleIds.mergeSort fun a b => decide (b ≤ a)
  getSigningRequestsLoop knownRandomIds signWithEcdsaContexts unassignedQuadrupleIds

/-- The request id a context gets with a quadruple. -/
def pairRequest (pair : SignWithEcdsaContext × ℕ) : RequestId × SignWithEcdsaContext :=
  (⟨pair.2, pair.1.pseudoRandomId⟩, pair.1)

/-! ## Signature agreements -/

/-- The old agreements kept, as reported: those whose request is still in the state. -/
def keptAgreements (allRandomIds : List ℕ)
    (oldAgreements : AList fun _ : RequestId => CompletedSignature σ) :
    AList fun _ : RequestId => CompletedSignature σ :=
  oldAgreements.keys.foldl (fun newAgreements requestId =>
    if requestId.pseudoRandomId ∈ allRandomIds then
      newAgreements.insert requestId .reportedToExecution
    else newAgreements) ∅

/-- A completed signature moves its request from ongoing to agreed. -/
def collectSignature (p : EcdsaPayload σ δ ρ) (completed : RequestId × σ) : EcdsaPayload σ δ ρ :=
  match p.ongoingSignatures.lookup completed.1 with
  | some _ =>
    { p with
      ongoingSignatures := p.ongoingSignatures.erase completed.1
      signatureAgreements := p.signatureAgreements.insert completed.1 (.unreported completed.2) }
  | none => p

/-- `update_signature_agreements`. -/
def updateSignatureAgreements (allRequests : List SignWithEcdsaContext)
    (completedSignatures : List (RequestId × σ)) (p : EcdsaPayload σ δ ρ) : EcdsaPayload σ δ ρ :=
  let allRandomIds := allRequests.map (·.pseudoRandomId)
  let p := { p with signatureAgreements := keptAgreements allRandomIds p.signatureAgreements }
  completedSignatures.foldl collectSignature p

/-! ## Ongoing signatures -/

/-- `build_signature_inputs`. -/
def buildSignatureInputs (context : SignWithEcdsaContext) (quadrupleRef : PreSignatureQuadrupleRef)
    (keyTranscriptRef : UnmaskedTranscript) : ThresholdEcdsaSigInputsRef :=
  ⟨⟨context.sender, context.derivationPath⟩, context.messageHash, context.pseudoRandomId,
    quadrupleRef, keyTranscriptRef⟩

/-- A new request starts, with its quadruple, if that quadruple is available. -/
def startSignature (keyTranscript : UnmaskedTranscript) (p : EcdsaPayload σ δ ρ)
    (request : RequestId × SignWithEcdsaContext) : EcdsaPayload σ δ ρ :=
  match p.availableQuadruples.lookup request.1.quadrupleId with
  | some quadruple =>
    { p with
      availableQuadruples := p.availableQuadruples.erase request.1.quadrupleId
      ongoingSignatures := p.ongoingSignatures.insert request.1
        (buildSignatureInputs request.2 quadruple keyTranscript) }
  | none => p

/-- `update_ongoing_signatures`. -/
def updateOngoingSignatures (newRequests : List (RequestId × SignWithEcdsaContext))
    (currentKeyTranscript : Option UnmaskedTranscript) (p : EcdsaPayload σ δ ρ) :
    EcdsaPayload σ δ ρ :=
  match currentKeyTranscript with
  | some keyTranscript => newRequests.foldl (startSignature keyTranscript) p
  | none => p

/-! ## Quadruples -/

/-- `new_random_config`. -/
def newRandomConfig (uidGenerator : EcdsaUIDGenerator) :
    RandomTranscriptParams × EcdsaUIDGenerator :=
  (⟨uidGenerator.nextTranscriptId.1⟩, uidGenerator.nextTranscriptId.2)

/-- One turn of `make_new_quadruples_if_needed`: two random configs and the next id. -/
def makeNewQuadruple (p : EcdsaPayload σ δ ρ) : EcdsaPayload σ δ ρ :=
  let (kappaConfig, uidGenerator) := newRandomConfig p.uidGenerator
  let (lambdaConfig, uidGenerator) := newRandomConfig uidGenerator
  let (quadrupleId, uidGenerator) := uidGenerator.nextQuadrupleId
  { p with
    quadruplesInCreation :=
      p.quadruplesInCreation.insert quadrupleId (.new kappaConfig lambdaConfig)
    uidGenerator }

/-- `make_new_quadruples_if_needed`. -/
def makeNewQuadruplesIfNeeded (quadruplesToCreateInAdvance : ℕ) (p : EcdsaPayload σ δ ρ) :
    EcdsaPayload σ δ ρ :=
  let unassignedQuadruples := p.unassignedQuadrupleIds.length
  if unassignedQuadruples < quadruplesToCreateInAdvance then
    makeNewQuadruple^[quadruplesToCreateInAdvance - unassignedQuadruples] p
  else p

/-- Fill an empty transcript slot from the pool: an `is_none` block of the update. -/
def completeTranscript {τ : Type} (tryFrom : ℕ → IDkgTranscript → Except TranscriptCastError τ)
    (transcriptCache : IDkgTranscriptId → Option IDkgTranscript) (height : ℕ)
    (slot : Option τ) (config : Option IDkgTranscriptId) : Except (EcdsaPayloadError δ) (Option τ) :=
  match slot, config with
  | none, some transcriptId =>
    match transcriptCache transcriptId with
    | some transcript => (tryFrom height transcript).mapError .transcriptCastError |>.map some
    | none => pure none
  | slot, _ => pure slot

/-- The slots of a quadruple filled from the completed transcripts. -/
def completeTranscripts (transcriptCache : IDkgTranscriptId → Option IDkgTranscript) (height : ℕ)
    (quadruple : QuadrupleInCreation) : Except (EcdsaPayloadError δ) QuadrupleInCreation := do
  let kappaMasked ← completeTranscript MaskedTranscript.tryFrom transcriptCache height
    quadruple.kappaMasked (some quadruple.kappaConfig.transcriptId)
  let lambdaMasked ← completeTranscript MaskedTranscript.tryFrom transcriptCache height
    quadruple.lambdaMasked (some quadruple.lambdaConfig.transcriptId)
  let kappaUnmasked ← completeTranscript UnmaskedTranscript.tryFrom transcriptCache height
    quadruple.kappaUnmasked (quadruple.unmaskKappaConfig.map (·.transcriptId))
  let keyTimesLambda ← completeTranscript MaskedTranscript.tryFrom transcriptCache height
    quadruple.keyTimesLambda (quadruple.keyTimesLambdaConfig.map (·.transcriptId))
  let kappaTimesLambda ← completeTranscript MaskedTranscript.tryFrom transcriptCache height
    quadruple.kappaTimesLambda (quadruple.kappaTimesLambdaConfig.map (·.transcriptId))
  pure { quadruple with kappaMasked, lambdaMasked, kappaUnmasked, keyTimesLambda, kappaTimesLambda }

/-- The params to unmask kappa, once kappa is made. -/
def nextUnmaskKappaConfig (quadruple : QuadrupleInCreation) (uidGenerator : EcdsaUIDGenerator) :
    Option ReshareOfMaskedParams × EcdsaUIDGenerator :=
  match quadruple.kappaMasked, quadruple.unmaskKappaConfig with
  | some kappaMasked, none =>
    (some ⟨uidGenerator.nextTranscriptId.1, kappaMasked⟩, uidGenerator.nextTranscriptId.2)
  | _, config => (config, uidGenerator)

/-- The params to multiply the key by lambda, once lambda is made. -/
def nextKeyTimesLambdaConfig (keyTranscript : UnmaskedTranscript)
    (quadruple : QuadrupleInCreation) (uidGenerator : EcdsaUIDGenerator) :
    Option UnmaskedTimesMaskedParams × EcdsaUIDGenerator :=
  match quadruple.lambdaMasked, quadruple.keyTimesLambdaConfig with
  | some lambdaMasked, none =>
    (some ⟨uidGenerator.nextTranscriptId.1, keyTranscript, lambdaMasked⟩,
      uidGenerator.nextTranscriptId.2)
  | _, config => (config, uidGenerator)

/-- The params to multiply kappa by lambda, once lambda and the unmasked kappa are made. -/
def nextKappaTimesLambdaConfig (quadruple : QuadrupleInCreation)
    (uidGenerator : EcdsaUIDGenerator) : Option UnmaskedTimesMaskedParams × EcdsaUIDGenerator :=
  match quadruple.lambdaMasked, quadruple.kappaUnmasked, quadruple.kappaTimesLambdaConfig with
  | some lambdaMasked, some kappaUnmasked, none =>
    (some ⟨uidGenerator.nextTranscriptId.1, kappaUnmasked, lambdaMasked⟩,
      uidGenerator.nextTranscriptId.2)
  | _, _, config => (config, uidGenerator)

/-- "Check what to do in the next step": the three configs, each with the next transcript id. -/
def nextConfigs (keyTranscript : UnmaskedTranscript) (quadruple : QuadrupleInCreation)
    (uidGenerator : EcdsaUIDGenerator) : QuadrupleInCreation × EcdsaUIDGenerator :=
  let unmaskKappa := nextUnmaskKappaConfig quadruple uidGenerator
  let keyTimesLambda := nextKeyTimesLambdaConfig keyTranscript quadruple unmaskKappa.2
  let kappaTimesLambda := nextKappaTimesLambdaConfig quadruple keyTimesLambda.2
  ({ quadruple with
      unmaskKappaConfig := unmaskKappa.1
      keyTimesLambdaConfig := keyTimesLambda.1
      kappaTimesLambdaConfig := kappaTimesLambda.1 },
    kappaTimesLambda.2)

/-- The update of one quadruple in `update_quadruples_in_creation`. -/
def updateQuadruple (keyTranscript : UnmaskedTranscript)
    (transcriptCache : IDkgTranscriptId → Option IDkgTranscript) (height : ℕ)
    (quadruple : QuadrupleInCreation) (uidGenerator : EcdsaUIDGenerator) :
    Except (EcdsaPayloadError δ) (QuadrupleInCreation × EcdsaUIDGenerator) := do
  let quadruple ← completeTranscripts transcriptCache height quadruple
  pure (nextConfigs keyTranscript quadruple uidGenerator)

/-- The quadruple's presignature, once its four transcripts are made. -/
def QuadrupleInCreation.toRef? (quadruple : QuadrupleInCreation) :
    Option PreSignatureQuadrupleRef :=
  match quadruple.kappaUnmasked, quadruple.lambdaMasked, quadruple.keyTimesLambda,
    quadruple.kappaTimesLambda with
  | some kappaUnmasked, some lambdaMasked, some keyTimesLambda, some kappaTimesLambda =>
    some ⟨kappaUnmasked, lambdaMasked, kappaTimesLambda, keyTimesLambda⟩
  | _, _, _, _ => none

/-- The loop body of `update_quadruples_in_creation` for the quadruple `key`. -/
def updateQuadrupleAt (keyTranscript : UnmaskedTranscript)
    (transcriptCache : IDkgTranscriptId → Option IDkgTranscript) (height : ℕ)
    (state : EcdsaPayload σ δ ρ × List ℕ) (key : ℕ) :
    Except (EcdsaPayloadError δ) (EcdsaPayload σ δ ρ × List ℕ) :=
  match state.1.quadruplesInCreation.lookup key with
  | some quadruple => do
    let (quadruple, uidGenerator) ←
      updateQuadruple keyTranscript transcriptCache height quadruple state.1.uidGenerator
    let newlyAvailable := if quadruple.toRef?.isSome then state.2 ++ [key] else state.2
    pure ({ state.1 with
      quadruplesInCreation := state.1.quadruplesInCreation.replace key quadruple
      uidGenerator }, newlyAvailable)
  | none => pure state

/-- A complete quadruple moves from creation to available; the two `unwrap`s of the source. -/
def makeAvailable (p : EcdsaPayload σ δ ρ) (key : ℕ) :
    Except (EcdsaPayloadError δ) (EcdsaPayload σ δ ρ) :=
  match p.quadruplesInCreation.lookup key >>= QuadrupleInCreation.toRef? with
  | some quadrupleRef =>
    pure { p with
      quadruplesInCreation := p.quadruplesInCreation.erase key
      availableQuadruples := p.availableQuadruples.insert key quadrupleRef }
  | none => throw (.panic "called `Option::unwrap()` on a `None` value")

/-- `update_quadruples_in_creation`, over the quadruples in creation in key order. -/
def updateQuadruplesInCreation (currentKeyTranscript : Option UnmaskedTranscript)
    (transcriptCache : IDkgTranscriptId → Option IDkgTranscript) (height : ℕ)
    (p : EcdsaPayload σ δ ρ) : Except (EcdsaPayloadError δ) (EcdsaPayload σ δ ρ) :=
  match currentKeyTranscript with
  | some keyTranscript => do
    let (p, newlyAvailable) ← p.quadruplesInCreation.keys.mergeSort.foldlM
      (updateQuadrupleAt keyTranscript transcriptCache height) (p, [])
    newlyAvailable.foldlM makeAvailable p
  | none => pure p

/-! ## The key transcript and resharings -/

/-- A completed transcript's ref, or the cast error. -/
def castTranscript {τ : Type} (r : Except TranscriptCastError τ) : Except (EcdsaPayloadError δ) τ :=
  r.mapError .transcriptCastError

/-- `update_next_key_transcript_helper`: the next step of making the next key transcript. -/
def updateNextKeyTranscript (currentKeyTranscript : Option UnmaskedTranscript)
    (transcriptCache : IDkgTranscriptId → Option IDkgTranscript) (height : ℕ)
    (nextKeyTranscriptCreation : KeyTranscriptCreation δ) (uidGenerator : EcdsaUIDGenerator) :
    Except (EcdsaPayloadError δ) (KeyTranscriptCreation δ × EcdsaUIDGenerator) :=
  match currentKeyTranscript, nextKeyTranscriptCreation with
  | some transcript, .begin =>
    pure (.reshareOfUnmaskedParams ⟨uidGenerator.nextTranscriptId.1, transcript⟩,
      uidGenerator.nextTranscriptId.2)
  | some _, .reshareOfUnmaskedParams config =>
    match transcriptCache config.transcriptId with
    | some transcript => do
      let transcriptRef ← castTranscript (UnmaskedTranscript.tryFrom height transcript)
      pure (.created transcriptRef, uidGenerator)
    | none => pure (nextKeyTranscriptCreation, uidGenerator)
  | none, .begin =>
    pure (.randomTranscriptParams ⟨uidGenerator.nextTranscriptId.1⟩,
      uidGenerator.nextTranscriptId.2)
  | none, .randomTranscriptParams config =>
    match transcriptCache config.transcriptId with
    | some transcript => do
      let transcriptRef ← castTranscript (MaskedTranscript.tryFrom height transcript)
      pure (.reshareOfMaskedParams ⟨uidGenerator.nextTranscriptId.1, transcriptRef⟩,
        uidGenerator.nextTranscriptId.2)
    | none => pure (nextKeyTranscriptCreation, uidGenerator)
  | none, .reshareOfMaskedParams config =>
    match transcriptCache config.transcriptId with
    | some transcript => do
      let transcriptRef ← castTranscript (UnmaskedTranscript.tryFrom height transcript)
      pure (.created transcriptRef, uidGenerator)
    | none => pure (nextKeyTranscriptCreation, uidGenerator)
  | none, .xnetReshareOfUnmaskedParams _ config =>
    match transcriptCache config.transcriptId with
    | some transcript => do
      let transcriptRef ← castTranscript (UnmaskedTranscript.tryFrom height transcript)
      pure (.created transcriptRef, uidGenerator)
    | none => pure (nextKeyTranscriptCreation, uidGenerator)
  | none, .reshareOfUnmaskedParams _ =>
    throw (.panic ("internal error: entered unreachable code: " ++
      "Unexpected ReshareOfUnmaskedParams for key transcript creation"))
  | _, .created _ => pure (nextKeyTranscriptCreation, uidGenerator)
  | _, _ =>
    throw (.panic ("internal error: entered unreachable code: " ++
      "Unexpected next_key_transcript configuration reached!"))

/-- A completed resharing moves from ongoing to agreed. -/
def completeReshare [DecidableEq ρ] (p : EcdsaPayload σ δ ρ) (completed : ρ × δ) :
    EcdsaPayload σ δ ρ :=
  { p with
    ongoingXnetReshares := p.ongoingXnetReshares.erase completed.1
    xnetReshareAgreements := p.xnetReshareAgreements.insert completed.1 (.unreported completed.2) }

/-- `update_completed_reshare_requests`, completion given as `completedReshare`. -/
def updateCompletedReshareRequests [DecidableEq ρ]
    (currentKeyTranscript : Option UnmaskedTranscript)
    (completedReshare : ρ → ReshareOfUnmaskedParams → Option δ) (p : EcdsaPayload σ δ ρ) :
    EcdsaPayload σ δ ρ :=
  match currentKeyTranscript with
  | none => p
  | some _ =>
    let completedReshares := p.ongoingXnetReshares.entries.filterMap fun entry =>
      (completedReshare entry.1 entry.2).map (entry.1, ·)
    let xnetReshareAgreements := p.xnetReshareAgreements.keys.foldl
      (fun agreements request => agreements.replace request .reportedToExecution)
      p.xnetReshareAgreements
    completedReshares.foldl completeReshare { p with xnetReshareAgreements }

/-- A resharing request not yet known starts, with the next transcript id. -/
def initiateReshare [DecidableEq ρ] (keyTranscript : UnmaskedTranscript) (p : EcdsaPayload σ δ ρ)
    (request : ρ) : EcdsaPayload σ δ ρ :=
  if request ∈ p.ongoingXnetReshares ∨ request ∈ p.xnetReshareAgreements then p
  else
    { p with
      uidGenerator := p.uidGenerator.nextTranscriptId.2
      ongoingXnetReshares := p.ongoingXnetReshares.insert request
        ⟨p.uidGenerator.nextTranscriptId.1, keyTranscript⟩ }

/-- `initiate_reshare_requests`. -/
def initiateReshareRequests [DecidableEq ρ] (currentKeyTranscript : Option UnmaskedTranscript)
    (reshareRequests : List ρ) (p : EcdsaPayload σ δ ρ) : EcdsaPayload σ δ ρ :=
  match currentKeyTranscript with
  | none => p
  | some keyTranscript => reshareRequests.foldl (initiateReshare keyTranscript) p

/-! ## Data and summary payloads -/

/-- What a data block reads beside its parent's payload. -/
structure DataPayloadInputs (σ δ ρ : Type) where
  height : ℕ
  /-- The signing requests of the state at the certified height, in callback id order. -/
  signWithEcdsaContexts : List SignWithEcdsaContext
  /-- What the signature builder completed. -/
  completedSignatures : List (RequestId × σ)
  /-- The registry's `quadruples_to_create_in_advance`, if it has an ECDSA config. -/
  ecdsaConfig : Option ℕ
  transcriptCache : IDkgTranscriptId → Option IDkgTranscript
  completedReshare : ρ → ReshareOfUnmaskedParams → Option δ
  reshareRequests : List ρ

/-- `create_data_payload`. -/
def createDataPayload [DecidableEq ρ] (inputs : DataPayloadInputs σ δ ρ) (p : EcdsaPayload σ δ ρ) :
    Except (EcdsaPayloadError δ) (EcdsaPayload σ δ ρ) := do
  let uidGenerator ←
    (p.uidGenerator.updateHeight inputs.height).mapError .iDkgTranscriptIdError
  let p := { p with uidGenerator }
  let currentKeyTranscript := p.keyTranscript.current
  let newSigningRequests := getSigningRequests p inputs.signWithEcdsaContexts
  let p := updateSignatureAgreements inputs.signWithEcdsaContexts inputs.completedSignatures p
  let p := updateOngoingSignatures newSigningRequests currentKeyTranscript p
  -- the default config creates one quadruple in advance
  let p := makeNewQuadruplesIfNeeded (inputs.ecdsaConfig.getD 1) p
  let p ← updateQuadruplesInCreation currentKeyTranscript inputs.transcriptCache inputs.height p
  let (nextInCreation, uidGenerator) ← updateNextKeyTranscript currentKeyTranscript
    inputs.transcriptCache inputs.height p.keyTranscript.nextInCreation p.uidGenerator
  let p := { p with keyTranscript := { p.keyTranscript with nextInCreation }, uidGenerator }
  let p := updateCompletedReshareRequests currentKeyTranscript inputs.completedReshare p
  pure (initiateReshareRequests currentKeyTranscript inputs.reshareRequests p)

/-- `create_summary_payload`: the interval's key transcript becomes current. -/
def createSummaryPayload (isSubnetMembershipChanging : Bool) (p : EcdsaPayload σ δ ρ) :
    Except (EcdsaPayloadError δ) (EcdsaPayload σ δ ρ) := do
  let created ← match p.keyTranscript.nextInCreation with
    | .created transcript => pure transcript
    | _ => throw (.panic "ECDSA key transcript has not been created in the previous interval")
  let isNewKeyTranscript := match p.keyTranscript.current with
    | some unmasked =>
      decide (unmasked.transcriptRef.transcriptId ≠ created.transcriptRef.transcriptId)
    | none => true
  let nextInCreation :=
    if isSubnetMembershipChanging then .begin else p.keyTranscript.nextInCreation
  pure {
    signatureAgreements := p.signatureAgreements
    ongoingSignatures := p.ongoingSignatures
    availableQuadruples := if isNewKeyTranscript then ∅ else p.availableQuadruples
    quadruplesInCreation := if isNewKeyTranscript then ∅ else p.quadruplesInCreation
    uidGenerator := p.uidGenerator
    ongoingXnetReshares := if isNewKeyTranscript then ∅ else p.ongoingXnetReshares
    xnetReshareAgreements := p.xnetReshareAgreements
    keyTranscript := ⟨some created, nextInCreation⟩ }

/-- `make_boot_strap_summary`. -/
def makeBootStrapSummary (subnetId height : ℕ) (initialDealings : Option δ)
    (unpackReshareOfUnmaskedParams : δ → Option ReshareOfUnmaskedParams) :
    Except (EcdsaPayloadError δ) (EcdsaPayload σ δ ρ) :=
  let summaryPayload : EcdsaPayload σ δ ρ :=
    ⟨∅, ∅, ∅, ∅, .new subnetId height, ∅, ∅, ⟨none, .begin⟩⟩
  match initialDealings with
  | none => pure summaryPayload
  | some dealings =>
    match unpackReshareOfUnmaskedParams dealings with
    | some params =>
      pure { summaryPayload with
        keyTranscript := ⟨none, .xnetReshareOfUnmaskedParams dealings params⟩ }
    | none => throw (.initialIDkgDealingsNotUnmaskedParams dealings)

/-- A block: a data block with what it reads, or a summary block. -/
inductive Block (σ δ ρ : Type) where
  | data (inputs : DataPayloadInputs σ δ ρ)
  | summary (isSubnetMembershipChanging : Bool)

/-- The payload of a block, made from its parent's. -/
def Block.nextPayload [DecidableEq ρ] :
    Block σ δ ρ → EcdsaPayload σ δ ρ → Except (EcdsaPayloadError δ) (EcdsaPayload σ δ ρ)
  | .data inputs, p => createDataPayload inputs p
  | .summary isSubnetMembershipChanging, p => createSummaryPayload isSubnetMembershipChanging p

/-- The payloads along a chain of blocks, each from its parent's. -/
def buildChain [DecidableEq ρ] (blocks : List (Block σ δ ρ)) (p : EcdsaPayload σ δ ρ) :
    Except (EcdsaPayloadError δ) (EcdsaPayload σ δ ρ) :=
  blocks.foldlM (fun p block => block.nextPayload p) p

end IC.Ecdsa
