import Mathlib
import InternetComputer.State.ReplicatedState
import InternetComputer.Lib.Rust
import InternetComputer.Lib.Lists

/-!
# The governance canister's indexes

`Governance` keeps, next to its neurons, `principal_to_neuron_ids_index` and
`topic_followee_index`, which the commands patch as they go. A map to sets whose empty sets are
removed is read as a function to sets.

* `Neuron.configure`, and the index helpers of `GovernanceProto`;
* `Governance.new`, `configureNeuron`, `follow`, `addNeuron`, `removeNeuron`;
* `Governance.execute`: one command, whose error or panic leaves the state unchanged.
-/

namespace IC.State.PrincipalId

/-- `PrincipalId::is_self_authenticating`: a hash of 28 bytes followed by the type byte 2. -/
def isSelfAuthenticating (p : PrincipalId) : Bool :=
  p.bytes.length == 28 + 1 && p.bytes.getLast? == some 2

end IC.State.PrincipalId

namespace IC.Nns

open IC.State (PrincipalId)

/-- `Topic`, by its number: `Unspecified = 0` to `NodeProviderRewards = 10`. -/
abbrev Topic := Fin 11

/-- `Topic::from_i32`. -/
def topicFromI32 (t : ℤ) : Option Topic :=
  if h : 0 ≤ t ∧ t < 11 then some ⟨t.toNat, by omega⟩ else none

/-- `Topic::NeuronManagement`. -/
def topicNeuronManagement : ℤ := 1

theorem topicFromI32_eq_some {t : ℤ} {topic : Topic} :
    topicFromI32 t = some topic ↔ t = topic.val := by
  unfold topicFromI32
  have htopic := topic.isLt
  by_cases h : 0 ≤ t ∧ t < 11
  · rw [dif_pos h, Option.some.injEq, Fin.ext_iff]
    show t.toNat = topic.val ↔ t = topic.val
    omega
  · rw [dif_neg h]
    simp only [reduceCtorEq, false_iff]
    omega

/-- `ErrorType` of `GovernanceError`, the kinds these commands report. -/
inductive ErrorType where
  | notFound
  | notAuthorized
  | invalidCommand
  | hotKey
  | resourceExhausted
  | ledgerUpdateOngoing
  | preconditionFailed
  deriving DecidableEq, Repr

/-- `GovernanceError`. -/
structure GovernanceError where
  errorType : ErrorType
  errorMessage : String

/-- `MAX_NUM_HOT_KEYS_PER_NEURON`. -/
def maxNumHotKeysPerNeuron : ℕ := 10

/-- `MAX_FOLLOWEES_PER_TOPIC`. -/
def maxFolloweesPerTopic : ℕ := 15

/-- `MAX_NUMBER_OF_NEURONS`. -/
def maxNumberOfNeurons : ℕ := 200000

/-! ## Neurons -/

/-- The parts of `Neuron` the indexes read. -/
structure Neuron where
  id : Option ℕ
  controller : Option PrincipalId
  hotKeys : List PrincipalId
  followees : SortedMap ℤ (List ℕ)

namespace Neuron

/-- `Neuron::is_controlled_by`. -/
def isControlledBy (n : Neuron) (p : PrincipalId) : Bool := n.controller == some p

/-- `Neuron::is_authorized_to_vote`: the controller or a hot key. -/
def isAuthorizedToVote (n : Neuron) (p : PrincipalId) : Bool :=
  n.isControlledBy p || n.hotKeys.contains p

/-- `Neuron::add_hot_key`: a new key, while there are fewer than ten; the controller is accepted. -/
def addHotKey (n : Neuron) (newHotKey : PrincipalId) : Except GovernanceError Neuron :=
  if n.hotKeys.contains newHotKey then .error ⟨.hotKey, "Hot key duplicated."⟩
  else if maxNumHotKeysPerNeuron ≤ n.hotKeys.length then
    .error ⟨.resourceExhausted, "Reached the maximum number of hotkeys."⟩
  else .ok { n with hotKeys := n.hotKeys ++ [newHotKey] }

/-- `Neuron::remove_hot_key`: the first occurrence, by `swap_remove`. -/
def removeHotKey (n : Neuron) (hotKeyToRemove : PrincipalId) : Except GovernanceError Neuron :=
  match n.hotKeys.findIdx? (· == hotKeyToRemove) with
  | some index => .ok { n with hotKeys := n.hotKeys.swapRemove index }
  | none => .error ⟨.notFound, "Remove failed: Hot key not found."⟩

/-- The principals the index relates to a neuron: its hot keys, then its controller. -/
def principals (n : Neuron) : List PrincipalId := n.hotKeys ++ n.controller.toList

/-- The followees of a neuron for a topic. -/
def followeesOf (n : Neuron) (t : Topic) : List ℕ := (n.followees.get? t.val).getD []

end Neuron

/-- The operations of `manage_neuron::Configure`. -/
inductive ConfigureOperation where
  | addHotKey (newHotKey : Option PrincipalId)
  | removeHotKey (hotKeyToRemove : Option PrincipalId)
  | dissolveOperation

/-- `Neuron::configure`: the controller only; a hot-key operation needs its key. -/
def Neuron.configure (n : Neuron) (caller : PrincipalId) (op : Option ConfigureOperation) :
    Except GovernanceError Neuron :=
  if !n.isControlledBy caller then .error ⟨.notAuthorized, ""⟩
  else match op with
    | none => .error ⟨.invalidCommand, "Configure must have an operation."⟩
    | some (.addHotKey none) => .error ⟨.invalidCommand,
        "Operation AddHotKey requires the hot key to add to be specified in the input"⟩
    | some (.addHotKey (some k)) => n.addHotKey k
    | some (.removeHotKey none) => .error ⟨.invalidCommand,
        "Operation RemoveHotKey requires the hot key to remove to be specified in the input"⟩
    | some (.removeHotKey (some k)) => n.removeHotKey k
    | some .dissolveOperation => .ok n

/-! ## The indexes -/

/-- `principal_to_neuron_ids_index`. -/
abbrev PrincipalIndex := PrincipalId → Finset ℕ

/-- `topic_followee_index`: the followers of a followee, by topic. -/
abbrev TopicFolloweeIndex := Topic → ℕ → Finset ℕ

/-- `add_neuron_to_principal_in_principal_to_neuron_ids_index`. -/
def addToPrincipal (index : PrincipalIndex) (neuronId : ℕ) (p : PrincipalId) : PrincipalIndex :=
  Function.update index p (insert neuronId (index p))

/-- `remove_neuron_from_principal_in_principal_to_neuron_ids_index`. -/
def removeFromPrincipal (index : PrincipalIndex) (neuronId : ℕ) (p : PrincipalId) :
    PrincipalIndex :=
  Function.update index p ((index p).erase neuronId)

/-- `add_neuron_to_principal_to_neuron_ids_index`. -/
def addNeuronToPrincipalIndex (index : PrincipalIndex) (neuronId : ℕ) (n : Neuron) :
    PrincipalIndex :=
  n.principals.foldl (fun index p => addToPrincipal index neuronId p) index

/-- `remove_neuron_from_principal_to_neuron_ids_index`. -/
def removeNeuronFromPrincipalIndex (index : PrincipalIndex) (neuronId : ℕ) (n : Neuron) :
    PrincipalIndex :=
  n.principals.foldl (fun index p => removeFromPrincipal index neuronId p) index

/-- `build_principal_to_neuron_ids_index`. -/
def buildPrincipalIndex (neurons : SortedMap ℕ Neuron) : PrincipalIndex :=
  neurons.entries.foldl (fun index e => addNeuronToPrincipalIndex index e.1 e.2) fun _ => ∅

/-- One follower added to a followee's set. -/
def addFollower (index : TopicFolloweeIndex) (topic : Topic) (followee follower : ℕ) :
    TopicFolloweeIndex :=
  Function.update index topic
    (Function.update (index topic) followee (insert follower (index topic followee)))

/-- One follower removed from a followee's set. -/
def removeFollower (index : TopicFolloweeIndex) (topic : Topic) (followee follower : ℕ) :
    TopicFolloweeIndex :=
  Function.update index topic
    (Function.update (index topic) followee ((index topic followee).erase follower))

/-- One topic of `add_neuron_to_topic_followee_index`; an undefined topic is skipped. -/
def addTopicFollowees (neuron : Neuron) (index : TopicFolloweeIndex) (e : ℤ × List ℕ) :
    Except String TopicFolloweeIndex :=
  match topicFromI32 e.1 with
  | some topic => e.2.foldlM (fun index followee => do
      let id ← Rust.expect neuron.id "Neuron must have an id"
      pure (addFollower index topic followee id)) index
  | none => pure index

/-- One topic of `remove_neuron_from_topic_followee_index`. -/
def removeTopicFollowees (neuron : Neuron) (index : TopicFolloweeIndex) (e : ℤ × List ℕ) :
    Except String TopicFolloweeIndex :=
  match topicFromI32 e.1 with
  | some topic => e.2.foldlM (fun index followee => do
      let id ← Rust.expect neuron.id "Neuron must have an id"
      pure (removeFollower index topic followee id)) index
  | none => pure index

/-- `add_neuron_to_topic_followee_index`. -/
def addNeuronToTopicIndex (index : TopicFolloweeIndex) (neuron : Neuron) :
    Except String TopicFolloweeIndex :=
  neuron.followees.entries.foldlM (addTopicFollowees neuron) index

/-- `remove_neuron_from_topic_followee_index`. -/
def removeNeuronFromTopicIndex (index : TopicFolloweeIndex) (neuron : Neuron) :
    Except String TopicFolloweeIndex :=
  neuron.followees.entries.foldlM (removeTopicFollowees neuron) index

/-- `build_topic_followee_index`. -/
def buildTopicIndex (neurons : SortedMap ℕ Neuron) : Except String TopicFolloweeIndex :=
  (neurons.entries.map Prod.snd).foldlM addNeuronToTopicIndex fun _ _ => ∅

/-! ## Commands -/

/-- The governance state: the neurons, the locked ids, and the indexes. -/
structure Governance where
  neurons : SortedMap ℕ Neuron
  inFlightCommands : List ℕ
  principalToNeuronIdsIndex : PrincipalIndex
  topicFolloweeIndex : TopicFolloweeIndex

/-- `Governance::new`, by `initialize_indices`. -/
def Governance.new (neurons : SortedMap ℕ Neuron) (inFlightCommands : List ℕ) :
    Except String Governance := do
  let topicFolloweeIndex ← buildTopicIndex neurons
  pure ⟨neurons, inFlightCommands, buildPrincipalIndex neurons, topicFolloweeIndex⟩

/-- `lock_neuron_for_command`: a neuron with a command in flight is refused. -/
def Governance.lockNeuron (g : Governance) (id : ℕ) : Except GovernanceError Unit :=
  if g.inFlightCommands.contains id then
    .error ⟨.ledgerUpdateOngoing, "Neuron has an ongoing ledger udpate."⟩
  else .ok ()

/-- The index update of `configure_neuron`: the hot key it names, added or removed. -/
def updatePrincipalIndex (index : PrincipalIndex) (id : ℕ) :
    Option ConfigureOperation → PrincipalIndex
  | some (.addHotKey (some k)) => addToPrincipal index id k
  | some (.removeHotKey (some k)) => removeFromPrincipal index id k
  | _ => index

/-- `configure_neuron`. -/
def Governance.configureNeuron (g : Governance) (id : ℕ) (caller : PrincipalId)
    (op : Option ConfigureOperation) : Except GovernanceError Governance := do
  g.lockNeuron id
  match g.neurons.get? id with
  | none => .error ⟨.notFound, "Neuron not found."⟩
  | some neuron =>
    let neuron ← neuron.configure caller op
    pure { g with
      neurons := g.neurons.insert id neuron
      principalToNeuronIdsIndex := updatePrincipalIndex g.principalToNeuronIdsIndex id op }

/-- The first half of `follow`: the current followees for the topic leave the index. -/
def unfollowTopic (index : TopicFolloweeIndex) (id : ℕ) (neuron : Neuron) (topic : ℤ) :
    TopicFolloweeIndex :=
  match neuron.followees.get? topic, topicFromI32 topic with
  | some old, some t => old.foldl (fun index followee => removeFollower index t followee id) index
  | _, _ => index

/-- `follow`: a neuron's followees for one topic replaced; it takes no lock. -/
def Governance.follow (g : Governance) (id : ℕ) (caller : PrincipalId) (topic : ℤ)
    (followees : List ℕ) : Except GovernanceError Governance :=
  match g.neurons.get? id with
  | none => .error ⟨.notFound, "Leader neuron not found: " ++ toString id⟩
  | some neuron =>
    if topic = topicNeuronManagement ∧ !neuron.isControlledBy caller then
      .error ⟨.notAuthorized,
        "Caller is not authorized to manage following of neuron for the ManageNeuron topic."⟩
    else if !neuron.isAuthorizedToVote caller then
      .error ⟨.notAuthorized, "Caller is not authorized to manage following of neuron."⟩
    else if maxFolloweesPerTopic < followees.length then
      .error ⟨.invalidCommand, "Too many followees."⟩
    else
      let index := unfollowTopic g.topicFolloweeIndex id neuron topic
      if followees.isEmpty then
        let cleared : Neuron := { neuron with followees := neuron.followees.erase topic }
        .ok { g with neurons := g.neurons.insert id cleared, topicFolloweeIndex := index }
      else match topicFromI32 topic with
        | some t =>
          let updated : Neuron := { neuron with followees := neuron.followees.insert topic followees }
          let index := followees.foldl (fun index followee => addFollower index t followee id) index
          .ok { g with neurons := g.neurons.insert id updated, topicFolloweeIndex := index }
        | none => .error ⟨.invalidCommand, "Invalid topic."⟩

/-- `add_neuron`, given whether the heap can grow. A neuron without a controller panics. -/
def Governance.addNeuron (g : Governance) (heapCanGrow : Bool) (neuronId : ℕ) (neuron : Neuron) :
    Except String (Except GovernanceError Governance) :=
  let neuronRealId := neuron.id.getD 0
  if neuronId = 0 then pure (.error ⟨.preconditionFailed, "Cannot add neuron with ID zero"⟩)
  else if neuronRealId ≠ neuronId then
    pure (.error ⟨.preconditionFailed, "The neuron\x27s ID " ++ toString neuronRealId ++
      " does not match the provided ID " ++ toString neuronId⟩)
  else if !heapCanGrow then
    pure (.error ⟨.resourceExhausted,
      "Heap size too large; governance canister is running is degraded mode."⟩)
  else if maxNumberOfNeurons < g.neurons.entries.length + 1 then
    pure (.error ⟨.preconditionFailed, "Cannot add neuron. Max number of neurons reached."⟩)
  else if (g.neurons.get? neuronId).isSome then
    pure (.error ⟨.preconditionFailed,
      "Cannot add neuron. There is already a neuron with id: " ++ toString neuronId⟩)
  else do
    let controller ← Rust.expect neuron.controller "called Option::unwrap() on a None value"
    if !controller.isSelfAuthenticating then
      pure (.error ⟨.preconditionFailed,
        "Cannot add neuron, controller PrincipalId must be self-authenticating"⟩)
    else
      let topicFolloweeIndex ← addNeuronToTopicIndex g.topicFolloweeIndex neuron
      pure (.ok { g with
        neurons := g.neurons.insert neuronId neuron
        principalToNeuronIdsIndex := addNeuronToPrincipalIndex g.principalToNeuronIdsIndex
          neuronId neuron
        topicFolloweeIndex })

/-- `remove_neuron`: the given neuron leaves the indexes, the stored one the neurons. -/
def Governance.removeNeuron (g : Governance) (neuronId : ℕ) (neuron : Neuron) :
    Except String (Except GovernanceError Governance) :=
  if (g.neurons.get? neuronId).isNone then
    pure (.error ⟨.notFound,
      "Cannot remove neuron. Can\x27t find a neuron with id: " ++ toString neuronId⟩)
  else do
    let topicFolloweeIndex ← removeNeuronFromTopicIndex g.topicFolloweeIndex neuron
    pure (.ok { g with
      neurons := g.neurons.erase neuronId
      principalToNeuronIdsIndex := removeNeuronFromPrincipalIndex g.principalToNeuronIdsIndex
        neuronId neuron
      topicFolloweeIndex })

/-! ## Runs -/

/-- The commands that change neurons or indexes. -/
inductive Command where
  | configure (id : ℕ) (caller : PrincipalId) (op : Option ConfigureOperation)
  | follow (id : ℕ) (caller : PrincipalId) (topic : ℤ) (followees : List ℕ)
  | addNeuron (heapCanGrow : Bool) (neuronId : ℕ) (neuron : Neuron)
  | removeNeuron (neuronId : ℕ) (neuron : Neuron)

/-- The state after a command; an error or a panic leaves it as it was. -/
def Governance.execute (g : Governance) : Command → Governance
  | .configure id caller op =>
    match g.configureNeuron id caller op with
    | .ok g' => g'
    | .error _ => g
  | .follow id caller topic followees =>
    match g.follow id caller topic followees with
    | .ok g' => g'
    | .error _ => g
  | .addNeuron heapCanGrow neuronId neuron =>
    match g.addNeuron heapCanGrow neuronId neuron with
    | .ok (.ok g') => g'
    | _ => g
  | .removeNeuron neuronId neuron =>
    match g.removeNeuron neuronId neuron with
    | .ok (.ok g') => g'
    | _ => g

end IC.Nns
