import Mathlib

/-!
# Threshold ECDSA payloads

The part of a block's payload that drives threshold ECDSA signing: quadruples in creation and
available, the requests paired with a quadruple, the agreed signatures, the key transcript and its
resharings, and the generator of the ids. Maps are `AList`s; the combined signature, the initial
dealings and the resharing request are the types `σ`, `δ` and `ρ`.
-/

namespace IC.Ecdsa

/-! ## Ids and their generator -/

/-- `IDkgTranscriptId`: a counter, the dealing subnet, and the starting height. -/
structure IDkgTranscriptId where
  id : ℕ
  sourceSubnet : ℕ
  sourceHeight : ℕ
  deriving DecidableEq, Repr

/-- `IDkgTranscriptIdError`. -/
inductive IDkgTranscriptIdError where
  | decreasedBlockHeight (existingHeight updatedHeight : ℕ)
  deriving DecidableEq, Repr

namespace IDkgTranscriptId

/-- `increment`: the next counter value, same subnet and height. -/
def increment (t : IDkgTranscriptId) : IDkgTranscriptId := { t with id := t.id + 1 }

/-- `update_height`: a new source height, never a smaller one. -/
def updateHeight (t : IDkgTranscriptId) (height : ℕ) :
    Except IDkgTranscriptIdError IDkgTranscriptId :=
  if height < t.sourceHeight then .error (.decreasedBlockHeight t.sourceHeight height)
  else .ok { t with sourceHeight := height }

end IDkgTranscriptId

/-- `EcdsaUIDGenerator`: the next transcript id and the next quadruple id. -/
structure EcdsaUIDGenerator where
  nextUnusedTranscriptId : IDkgTranscriptId
  nextUnusedQuadrupleId : ℕ
  deriving DecidableEq, Repr

namespace EcdsaUIDGenerator

/-- `EcdsaUIDGenerator::new`: both counters at zero. -/
def new (subnetId height : ℕ) : EcdsaUIDGenerator := ⟨⟨0, subnetId, height⟩, 0⟩

/-- `update_height`. -/
def updateHeight (g : EcdsaUIDGenerator) (height : ℕ) :
    Except IDkgTranscriptIdError EcdsaUIDGenerator := do
  let updatedId ← g.nextUnusedTranscriptId.updateHeight height
  pure { g with nextUnusedTranscriptId := updatedId }

/-- `next_transcript_id`: hand out the counter and increment it. -/
def nextTranscriptId (g : EcdsaUIDGenerator) : IDkgTranscriptId × EcdsaUIDGenerator :=
  (g.nextUnusedTranscriptId, { g with nextUnusedTranscriptId := g.nextUnusedTranscriptId.increment })

/-- `next_quadruple_id`: hand out the counter and increment it. -/
def nextQuadrupleId (g : EcdsaUIDGenerator) : ℕ × EcdsaUIDGenerator :=
  (g.nextUnusedQuadrupleId, { g with nextUnusedQuadrupleId := g.nextUnusedQuadrupleId + 1 })

end EcdsaUIDGenerator

/-! ## Transcripts, their refs and their params

A ref keeps only the height of the block holding the transcript and its id; params keep the
transcript id they will create and the refs they are built on. The node sets, registry versions
and algorithm of the params are left out: no decision of the payload builder reads them. -/

/-- `IDkgTranscriptType`, without the origin of the transcript. -/
inductive IDkgTranscriptType where
  | masked
  | unmasked
  deriving DecidableEq, Repr

/-- `IDkgTranscript`: its id and type. -/
structure IDkgTranscript where
  transcriptId : IDkgTranscriptId
  transcriptType : IDkgTranscriptType
  deriving DecidableEq, Repr

/-- `TranscriptRef`: where a transcript is on the chain. -/
structure TranscriptRef where
  height : ℕ
  transcriptId : IDkgTranscriptId
  deriving DecidableEq, Repr

/-- `MaskedTranscript`: a ref to a masked transcript. -/
structure MaskedTranscript where
  transcriptRef : TranscriptRef
  deriving DecidableEq, Repr

/-- `UnmaskedTranscript`: a ref to an unmasked transcript. -/
structure UnmaskedTranscript where
  transcriptRef : TranscriptRef
  deriving DecidableEq, Repr

/-- `TranscriptCastError`. -/
structure TranscriptCastError where
  transcriptId : IDkgTranscriptId
  fromType : IDkgTranscriptType
  expectedType : String
  deriving DecidableEq, Repr

/-- `MaskedTranscript::try_from((height, &transcript))`. -/
def MaskedTranscript.tryFrom (height : ℕ) (transcript : IDkgTranscript) :
    Except TranscriptCastError MaskedTranscript :=
  match transcript.transcriptType with
  | .masked => .ok ⟨⟨height, transcript.transcriptId⟩⟩
  | fromType => .error ⟨transcript.transcriptId, fromType, "Masked"⟩

/-- `UnmaskedTranscript::try_from((height, &transcript))`. -/
def UnmaskedTranscript.tryFrom (height : ℕ) (transcript : IDkgTranscript) :
    Except TranscriptCastError UnmaskedTranscript :=
  match transcript.transcriptType with
  | .unmasked => .ok ⟨⟨height, transcript.transcriptId⟩⟩
  | fromType => .error ⟨transcript.transcriptId, fromType, "Unmasked"⟩

/-- `RandomTranscriptParams`. -/
structure RandomTranscriptParams where
  transcriptId : IDkgTranscriptId
  deriving DecidableEq, Repr

/-- `ReshareOfMaskedParams`: unmask a masked transcript. -/
structure ReshareOfMaskedParams where
  transcriptId : IDkgTranscriptId
  masked : MaskedTranscript
  deriving DecidableEq, Repr

/-- `ReshareOfUnmaskedParams`: reshare an unmasked transcript. -/
structure ReshareOfUnmaskedParams where
  transcriptId : IDkgTranscriptId
  unmasked : UnmaskedTranscript
  deriving DecidableEq, Repr

/-- `UnmaskedTimesMaskedParams`: multiply an unmasked and a masked transcript. -/
structure UnmaskedTimesMaskedParams where
  transcriptId : IDkgTranscriptId
  unmasked : UnmaskedTranscript
  masked : MaskedTranscript
  deriving DecidableEq, Repr

/-! ## Quadruples -/

/-- `QuadrupleInCreation`: the five transcripts of a quadruple, each with its params. -/
structure QuadrupleInCreation where
  kappaConfig : RandomTranscriptParams
  kappaMasked : Option MaskedTranscript
  lambdaConfig : RandomTranscriptParams
  lambdaMasked : Option MaskedTranscript
  unmaskKappaConfig : Option ReshareOfMaskedParams
  kappaUnmasked : Option UnmaskedTranscript
  keyTimesLambdaConfig : Option UnmaskedTimesMaskedParams
  keyTimesLambda : Option MaskedTranscript
  kappaTimesLambdaConfig : Option UnmaskedTimesMaskedParams
  kappaTimesLambda : Option MaskedTranscript
  deriving DecidableEq, Repr

/-- `QuadrupleInCreation::new`: the two random configs, nothing made yet. -/
def QuadrupleInCreation.new (kappaConfig lambdaConfig : RandomTranscriptParams) :
    QuadrupleInCreation :=
  ⟨kappaConfig, none, lambdaConfig, none, none, none, none, none, none, none⟩

/-- `PreSignatureQuadrupleRef`: a quadruple whose four transcripts are made. -/
structure PreSignatureQuadrupleRef where
  kappaUnmaskedRef : UnmaskedTranscript
  lambdaMaskedRef : MaskedTranscript
  kappaTimesLambdaRef : MaskedTranscript
  keyTimesLambdaRef : MaskedTranscript
  deriving DecidableEq, Repr

/-! ## Signing requests -/

/-- `RequestId`: a signing request, by its pseudo-random id, paired with a quadruple. -/
structure RequestId where
  quadrupleId : ℕ
  pseudoRandomId : ℕ
  deriving DecidableEq, Repr

/-- `SignWithEcdsaContext`, its key id and batch time left out. -/
structure SignWithEcdsaContext where
  sender : ℕ
  messageHash : List UInt8
  derivationPath : List (List UInt8)
  pseudoRandomId : ℕ
  deriving DecidableEq, Repr

/-- `ExtendedDerivationPath`. -/
structure ExtendedDerivationPath where
  caller : ℕ
  derivationPath : List (List UInt8)
  deriving DecidableEq, Repr

/-- `ThresholdEcdsaSigInputsRef`: what an ongoing signature is computed from. -/
structure ThresholdEcdsaSigInputsRef where
  derivationPath : ExtendedDerivationPath
  hashedMessage : List UInt8
  nonce : ℕ
  presigQuadrupleRef : PreSignatureQuadrupleRef
  keyTranscriptRef : UnmaskedTranscript
  deriving DecidableEq, Repr

/-- `CompletedSignature`. -/
inductive CompletedSignature (σ : Type) where
  | reportedToExecution
  | unreported (signature : σ)

/-- `CompletedReshareRequest`. -/
inductive CompletedReshareRequest (δ : Type) where
  | reportedToExecution
  | unreported (dealings : δ)

/-! ## The key transcript and the payload -/

/-- `KeyTranscriptCreation`: how far the next key transcript is. -/
inductive KeyTranscriptCreation (δ : Type) where
  | begin
  | randomTranscriptParams (params : RandomTranscriptParams)
  | reshareOfMaskedParams (params : ReshareOfMaskedParams)
  | reshareOfUnmaskedParams (params : ReshareOfUnmaskedParams)
  | xnetReshareOfUnmaskedParams (dealings : δ) (params : ReshareOfUnmaskedParams)
  | created (transcript : UnmaskedTranscript)

/-- `EcdsaKeyTranscript`. -/
structure EcdsaKeyTranscript (δ : Type) where
  current : Option UnmaskedTranscript
  nextInCreation : KeyTranscriptCreation δ

/-- `EcdsaPayload`, without `idkg_transcripts`, which the builder does not read. -/
structure EcdsaPayload (σ δ ρ : Type) where
  signatureAgreements : AList fun _ : RequestId => CompletedSignature σ
  ongoingSignatures : AList fun _ : RequestId => ThresholdEcdsaSigInputsRef
  availableQuadruples : AList fun _ : ℕ => PreSignatureQuadrupleRef
  quadruplesInCreation : AList fun _ : ℕ => QuadrupleInCreation
  uidGenerator : EcdsaUIDGenerator
  ongoingXnetReshares : AList fun _ : ρ => ReshareOfUnmaskedParams
  xnetReshareAgreements : AList fun _ : ρ => CompletedReshareRequest δ
  keyTranscript : EcdsaKeyTranscript δ

namespace EcdsaPayload

variable {σ δ ρ : Type} (p : EcdsaPayload σ δ ρ)

/-- `iter_request_ids`: the requests agreed on, then the ongoing ones. -/
def iterRequestIds : List RequestId := p.signatureAgreements.keys ++ p.ongoingSignatures.keys

/-- `iter_quadruple_ids`: the available quadruples, then those in creation. -/
def iterQuadrupleIds : List ℕ := p.availableQuadruples.keys ++ p.quadruplesInCreation.keys

/-- `unassigned_quadruple_ids`: the quadruples no request id names. -/
def unassignedQuadrupleIds : List ℕ :=
  let assigned := p.iterRequestIds.map (·.quadrupleId)
  p.iterQuadrupleIds.filter fun id => decide (id ∉ assigned)

variable {p}

end EcdsaPayload

end IC.Ecdsa
