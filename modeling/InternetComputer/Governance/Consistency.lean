import InternetComputer.Governance.Indexes

/-!
# Consistency of the governance indexes

The principal index should relate a principal to a neuron exactly when it is the neuron's
controller or a hot key, and the topic index a followee to a follower exactly when the follower
follows it on the topic.

* `Invariant`: both indexes consistent, every neuron stored under its own id;
* **`invariant_new`**, **`invariant_execute`**, **`invariant_of_safelyReachable`**: every run by
  commands that do not remove a controller's hot key, nor a neuron through a stale copy;
* **`not_principalIndexConsistent_configureNeuron`**, **`not_topicIndexConsistent_removeNeuron`**.
-/

namespace IC.Nns

open IC.State (PrincipalId)

/-! ## Membership in the indexes -/

section Principal

variable {index : PrincipalIndex} {neuronId id : ℕ} {p q : PrincipalId}

@[simp]
theorem mem_addToPrincipal :
    id ∈ addToPrincipal index neuronId p q ↔ (q = p ∧ id = neuronId) ∨ id ∈ index q := by
  unfold addToPrincipal
  by_cases hq : q = p
  · subst hq
    simp
  · simp [hq]

@[simp]
theorem mem_removeFromPrincipal :
    id ∈ removeFromPrincipal index neuronId p q ↔ ¬(q = p ∧ id = neuronId) ∧ id ∈ index q := by
  unfold removeFromPrincipal
  by_cases hq : q = p
  · subst hq
    simp
  · simp [hq]

theorem mem_foldl_addToPrincipal : ∀ (ps : List PrincipalId) (index : PrincipalIndex),
    id ∈ ps.foldl (fun index p => addToPrincipal index neuronId p) index q ↔
      (q ∈ ps ∧ id = neuronId) ∨ id ∈ index q
  | [], index => by simp
  | p :: ps, index => by
    rw [List.foldl_cons, mem_foldl_addToPrincipal ps, mem_addToPrincipal, List.mem_cons]
    tauto

theorem mem_foldl_removeFromPrincipal : ∀ (ps : List PrincipalId) (index : PrincipalIndex),
    id ∈ ps.foldl (fun index p => removeFromPrincipal index neuronId p) index q ↔
      ¬(q ∈ ps ∧ id = neuronId) ∧ id ∈ index q
  | [], index => by simp
  | p :: ps, index => by
    rw [List.foldl_cons, mem_foldl_removeFromPrincipal ps, mem_removeFromPrincipal, List.mem_cons]
    tauto

theorem mem_addNeuronToPrincipalIndex {n : Neuron} :
    id ∈ addNeuronToPrincipalIndex index neuronId n q ↔
      (q ∈ n.principals ∧ id = neuronId) ∨ id ∈ index q :=
  mem_foldl_addToPrincipal _ _

theorem mem_removeNeuronFromPrincipalIndex {n : Neuron} :
    id ∈ removeNeuronFromPrincipalIndex index neuronId n q ↔
      ¬(q ∈ n.principals ∧ id = neuronId) ∧ id ∈ index q :=
  mem_foldl_removeFromPrincipal _ _

theorem mem_foldl_addNeuronToPrincipalIndex : ∀ (es : List (ℕ × Neuron)) (index : PrincipalIndex),
    id ∈ es.foldl (fun index e => addNeuronToPrincipalIndex index e.1 e.2) index q ↔
      (∃ n, (id, n) ∈ es ∧ q ∈ n.principals) ∨ id ∈ index q
  | [], index => by simp
  | (id', n') :: es, index => by
    rw [List.foldl_cons, mem_foldl_addNeuronToPrincipalIndex es, mem_addNeuronToPrincipalIndex]
    constructor
    · rintro (⟨n, hmem, hq⟩ | ⟨hq, rfl⟩ | h)
      · exact Or.inl ⟨n, List.mem_cons_of_mem _ hmem, hq⟩
      · exact Or.inl ⟨n', List.mem_cons_self, hq⟩
      · exact Or.inr h
    · rintro (⟨n, hmem, hq⟩ | h)
      · rcases List.mem_cons.mp hmem with h | hmem
        · obtain ⟨rfl, rfl⟩ := Prod.mk.inj h
          exact Or.inr (Or.inl ⟨hq, rfl⟩)
        · exact Or.inl ⟨n, hmem, hq⟩
      · exact Or.inr (Or.inr h)

end Principal

@[simp]
theorem Neuron.mem_principals {n : Neuron} {q : PrincipalId} :
    q ∈ n.principals ↔ q ∈ n.hotKeys ∨ n.controller = some q := by
  simp [Neuron.principals, Option.mem_toList]

section Topic

variable {index : TopicFolloweeIndex} {topic t : Topic} {followee follower f m : ℕ}

@[simp]
theorem mem_addFollower : m ∈ addFollower index topic followee follower t f ↔
    (t = topic ∧ f = followee ∧ m = follower) ∨ m ∈ index t f := by
  unfold addFollower
  by_cases ht : t = topic
  · subst ht
    by_cases hf : f = followee
    · subst hf
      simp
    · simp [hf]
  · simp [ht]

@[simp]
theorem mem_removeFollower : m ∈ removeFollower index topic followee follower t f ↔
    ¬(t = topic ∧ f = followee ∧ m = follower) ∧ m ∈ index t f := by
  unfold removeFollower
  by_cases ht : t = topic
  · subst ht
    by_cases hf : f = followee
    · subst hf
      simp
    · simp [hf]
  · simp [ht]

theorem mem_foldl_addFollower : ∀ (fs : List ℕ) (index : TopicFolloweeIndex),
    m ∈ fs.foldl (fun index followee => addFollower index topic followee follower) index t f ↔
      (t = topic ∧ f ∈ fs ∧ m = follower) ∨ m ∈ index t f
  | [], index => by simp
  | g :: fs, index => by
    rw [List.foldl_cons, mem_foldl_addFollower fs, mem_addFollower, List.mem_cons]
    tauto

theorem mem_foldl_removeFollower : ∀ (fs : List ℕ) (index : TopicFolloweeIndex),
    m ∈ fs.foldl (fun index followee => removeFollower index topic followee follower) index t f ↔
      ¬(t = topic ∧ f ∈ fs ∧ m = follower) ∧ m ∈ index t f
  | [], index => by simp
  | g :: fs, index => by
    rw [List.foldl_cons, mem_foldl_removeFollower fs, mem_removeFollower, List.mem_cons]
    tauto

end Topic

theorem topicFromI32_eq_iff {e : ℤ} {topic t : Topic} (h : topicFromI32 e = some topic) :
    t = topic ↔ (t.val : ℤ) = e := by
  rw [topicFromI32_eq_some.mp h, Fin.ext_iff, Nat.cast_inj]

theorem ne_of_topicFromI32_eq_none {e : ℤ} (h : topicFromI32 e = none) (t : Topic) :
    (t.val : ℤ) ≠ e := by
  rintro rfl
  have ht : topicFromI32 t.val = some t := topicFromI32_eq_some.mpr rfl
  rw [ht] at h
  cases h

theorem Neuron.mem_followeesOf {n : Neuron} {t : Topic} {f : ℕ} :
    f ∈ n.followeesOf t ↔ ∃ e ∈ n.followees.entries, (t.val : ℤ) = e.1 ∧ f ∈ e.2 := by
  unfold Neuron.followeesOf
  cases hget : n.followees.get? t.val with
  | none =>
    simp only [Option.getD_none, List.not_mem_nil, false_iff, not_exists, not_and]
    rintro ⟨k, fs⟩ he rfl hf
    have := (SortedMap.get?_eq_some_iff n.followees).mpr he
    rw [hget] at this
    cases this
  | some fs =>
    have hfs := (SortedMap.get?_eq_some_iff n.followees).mp hget
    simp only [Option.getD_some]
    constructor
    · exact fun hf => ⟨_, hfs, rfl, hf⟩
    · rintro ⟨⟨k, fs'⟩, he, rfl, hf⟩
      have := (SortedMap.get?_eq_some_iff n.followees).mpr he
      rw [hget, Option.some.injEq] at this
      exact this ▸ hf

section ReadId

variable {neuron : Neuron} {nid : ℕ}

theorem addTopicFollowees_eq_ok (hid : neuron.id = some nid) (index : TopicFolloweeIndex)
    (e : ℤ × List ℕ) : ∃ index', addTopicFollowees neuron index e = .ok index' ∧
      ∀ t f m, m ∈ index' t f ↔ (((t.val : ℤ) = e.1 ∧ f ∈ e.2) ∧ m = nid) ∨ m ∈ index t f := by
  unfold addTopicFollowees
  cases htopic : topicFromI32 e.1 with
  | none =>
    refine ⟨index, rfl, fun t f m => ?_⟩
    simp [ne_of_topicFromI32_eq_none htopic t]
  | some topic =>
    refine ⟨_, Rust.foldlM_expect_some hid _ (fun index followee id => addFollower index topic followee id) _ _,
      fun t f m => ?_⟩
    rw [mem_foldl_addFollower, topicFromI32_eq_iff htopic]
    tauto

theorem removeTopicFollowees_eq_ok (hid : neuron.id = some nid) (index : TopicFolloweeIndex)
    (e : ℤ × List ℕ) : ∃ index', removeTopicFollowees neuron index e = .ok index' ∧
      ∀ t f m, m ∈ index' t f ↔ ¬(((t.val : ℤ) = e.1 ∧ f ∈ e.2) ∧ m = nid) ∧ m ∈ index t f := by
  unfold removeTopicFollowees
  cases htopic : topicFromI32 e.1 with
  | none =>
    refine ⟨index, rfl, fun t f m => ?_⟩
    simp [ne_of_topicFromI32_eq_none htopic t]
  | some topic =>
    refine ⟨_, Rust.foldlM_expect_some hid _ (fun index followee id => removeFollower index topic followee id) _ _,
      fun t f m => ?_⟩
    rw [mem_foldl_removeFollower, topicFromI32_eq_iff htopic]
    tauto

theorem foldlM_addTopicFollowees_eq_ok (hid : neuron.id = some nid) :
    ∀ (es : List (ℤ × List ℕ)) (index : TopicFolloweeIndex),
      ∃ index', es.foldlM (addTopicFollowees neuron) index = .ok index' ∧
        ∀ t f m, m ∈ index' t f ↔ ((∃ e ∈ es, (t.val : ℤ) = e.1 ∧ f ∈ e.2) ∧ m = nid) ∨ m ∈ index t f
  | [], index => ⟨index, rfl, by simp⟩
  | e :: es, index => by
    obtain ⟨index₁, h₁, hmem₁⟩ := addTopicFollowees_eq_ok hid index e
    obtain ⟨index₂, h₂, hmem₂⟩ := foldlM_addTopicFollowees_eq_ok hid es index₁
    refine ⟨index₂, by rw [List.foldlM_cons, h₁]; exact h₂, fun t f m => ?_⟩
    rw [hmem₂, hmem₁]
    simp only [List.mem_cons, or_and_right, exists_or, exists_eq_left]
    constructor
    · rintro (h | h | h)
      · exact Or.inl (Or.inr h)
      · exact Or.inl (Or.inl h)
      · exact Or.inr h
    · rintro ((h | h) | h)
      · exact Or.inr (Or.inl h)
      · exact Or.inl h
      · exact Or.inr (Or.inr h)

theorem foldlM_removeTopicFollowees_eq_ok (hid : neuron.id = some nid) :
    ∀ (es : List (ℤ × List ℕ)) (index : TopicFolloweeIndex),
      ∃ index', es.foldlM (removeTopicFollowees neuron) index = .ok index' ∧
        ∀ t f m, m ∈ index' t f ↔ ¬((∃ e ∈ es, (t.val : ℤ) = e.1 ∧ f ∈ e.2) ∧ m = nid) ∧ m ∈ index t f
  | [], index => ⟨index, rfl, by simp⟩
  | e :: es, index => by
    obtain ⟨index₁, h₁, hmem₁⟩ := removeTopicFollowees_eq_ok hid index e
    obtain ⟨index₂, h₂, hmem₂⟩ := foldlM_removeTopicFollowees_eq_ok hid es index₁
    refine ⟨index₂, by rw [List.foldlM_cons, h₁]; exact h₂, fun t f m => ?_⟩
    rw [hmem₂, hmem₁]
    simp only [List.mem_cons, or_and_right, exists_or, exists_eq_left, not_or, and_assoc]
    exact and_left_comm

theorem addNeuronToTopicIndex_eq_ok (hid : neuron.id = some nid) (index : TopicFolloweeIndex) :
    ∃ index', addNeuronToTopicIndex index neuron = .ok index' ∧
      ∀ t f m, m ∈ index' t f ↔ (f ∈ neuron.followeesOf t ∧ m = nid) ∨ m ∈ index t f := by
  obtain ⟨index', h, hmem⟩ := foldlM_addTopicFollowees_eq_ok hid neuron.followees.entries index
  exact ⟨index', h, fun t f m => by rw [hmem, Neuron.mem_followeesOf]⟩

theorem removeNeuronFromTopicIndex_eq_ok (hid : neuron.id = some nid)
    (index : TopicFolloweeIndex) : ∃ index', removeNeuronFromTopicIndex index neuron = .ok index' ∧
      ∀ t f m, m ∈ index' t f ↔ ¬(f ∈ neuron.followeesOf t ∧ m = nid) ∧ m ∈ index t f := by
  obtain ⟨index', h, hmem⟩ := foldlM_removeTopicFollowees_eq_ok hid neuron.followees.entries index
  exact ⟨index', h, fun t f m => by rw [hmem, Neuron.mem_followeesOf]⟩

end ReadId

/-! ## Hot keys -/

namespace Neuron

variable {n n' : Neuron} {caller k : PrincipalId} {op : Option ConfigureOperation}

theorem addHotKey_eq_ok (h : n.addHotKey k = .ok n') :
    k ∉ n.hotKeys ∧ n' = { n with hotKeys := n.hotKeys ++ [k] } := by
  unfold addHotKey at h
  by_cases hdup : n.hotKeys.contains k
  · rw [if_pos hdup] at h
    cases h
  · rw [if_neg hdup] at h
    by_cases hmax : maxNumHotKeysPerNeuron ≤ n.hotKeys.length
    · rw [if_pos hmax] at h
      cases h
    · rw [if_neg hmax] at h
      cases h
      simpa using hdup

theorem removeHotKey_eq_ok (h : n.removeHotKey k = .ok n') :
    ∃ i, ∃ hi : i < n.hotKeys.length, n.hotKeys[i] = k ∧
      n' = { n with hotKeys := n.hotKeys.swapRemove i } := by
  unfold removeHotKey at h
  cases hidx : n.hotKeys.findIdx? (· == k) with
  | none =>
    rw [hidx] at h
    cases h
  | some i =>
    rw [hidx] at h
    cases h
    obtain ⟨hi, hk, -⟩ := List.findIdx?_eq_some_iff_getElem.mp hidx
    exact ⟨i, hi, by simpa using hk, rfl⟩

theorem configure_cases (h : n.configure caller op = .ok n') :
    (∃ k, op = some (.addHotKey (some k)) ∧ n.addHotKey k = .ok n') ∨
    (∃ k, op = some (.removeHotKey (some k)) ∧ n.removeHotKey k = .ok n') ∨
    (op = some .dissolveOperation ∧ n' = n) := by
  unfold configure at h
  by_cases hc : !n.isControlledBy caller
  · rw [if_pos hc] at h
    cases h
  · rw [if_neg hc] at h
    rcases op with _ | ((_ | k) | (_ | k) | _)
    · cases h
    · cases h
    · exact Or.inl ⟨k, rfl, h⟩
    · cases h
    · exact Or.inr (Or.inl ⟨k, rfl, h⟩)
    · cases h
      exact Or.inr (Or.inr ⟨rfl, rfl⟩)

theorem configure_frame (h : n.configure caller op = .ok n') :
    n'.id = n.id ∧ n'.controller = n.controller ∧ n'.followees = n.followees := by
  rcases configure_cases h with ⟨k, -, hadd⟩ | ⟨k, -, hrem⟩ | ⟨-, rfl⟩
  · obtain ⟨-, rfl⟩ := addHotKey_eq_ok hadd
    exact ⟨rfl, rfl, rfl⟩
  · obtain ⟨i, -, -, rfl⟩ := removeHotKey_eq_ok hrem
    exact ⟨rfl, rfl, rfl⟩
  · exact ⟨rfl, rfl, rfl⟩

theorem nodup_hotKeys_configure (hn : n.hotKeys.Nodup) (h : n.configure caller op = .ok n') :
    n'.hotKeys.Nodup := by
  rcases configure_cases h with ⟨k, -, hadd⟩ | ⟨k, -, hrem⟩ | ⟨-, rfl⟩
  · obtain ⟨hk, rfl⟩ := addHotKey_eq_ok hadd
    exact hn.append (List.nodup_singleton k) (by simpa using hk)
  · obtain ⟨i, hi, -, rfl⟩ := removeHotKey_eq_ok hrem
    exact hn.swapRemove hi
  · exact hn

end Neuron

/-! ## The invariant -/

/-- The principal index relates a principal to exactly the neurons it controls or is a key of. -/
def PrincipalIndexConsistent (g : Governance) : Prop :=
  ∀ q id, id ∈ g.principalToNeuronIdsIndex q ↔
    ∃ n, g.neurons.get? id = some n ∧ q ∈ n.principals

/-- The topic index relates a followee to exactly the stored neurons following it on the topic. -/
def TopicIndexConsistent (g : Governance) : Prop :=
  ∀ t f id, id ∈ g.topicFolloweeIndex t f ↔
    ∃ n, g.neurons.get? id = some n ∧ f ∈ n.followeesOf t

/-- Every neuron is stored under its own id and has no hot key twice. -/
def NeuronsWellFormed (neurons : SortedMap ℕ Neuron) : Prop :=
  ∀ id n, neurons.get? id = some n → n.id = some id ∧ n.hotKeys.Nodup

/-- What the commands keep: both indexes consistent with well-formed neurons. -/
structure Invariant (g : Governance) : Prop where
  principal : PrincipalIndexConsistent g
  topic : TopicIndexConsistent g
  wellFormed : NeuronsWellFormed g.neurons

theorem NeuronsWellFormed.insert {neurons : SortedMap ℕ Neuron} (hw : NeuronsWellFormed neurons)
    {id : ℕ} {n : Neuron} (hid : n.id = some id) (hkeys : n.hotKeys.Nodup) :
    NeuronsWellFormed (neurons.insert id n) := by
  intro id' n' hget
  rw [SortedMap.get?_insert] at hget
  by_cases h : id' = id
  · rw [if_pos h, Option.some.injEq] at hget
    subst h hget
    exact ⟨hid, hkeys⟩
  · rw [if_neg h] at hget
    exact hw id' n' hget

theorem NeuronsWellFormed.erase {neurons : SortedMap ℕ Neuron} (hw : NeuronsWellFormed neurons)
    (id : ℕ) : NeuronsWellFormed (neurons.erase id) := by
  intro id' n' hget
  rw [SortedMap.get?_erase] at hget
  by_cases h : id' = id
  · rw [if_pos h] at hget
    cases hget
  · rw [if_neg h] at hget
    exact hw id' n' hget

/-- Replacing a stored neuron by one of the same principals keeps the principal index. -/
theorem PrincipalIndexConsistent.insert {g g' : Governance} (hc : PrincipalIndexConsistent g)
    {id : ℕ} {n n' : Neuron} (hget : g.neurons.get? id = some n)
    (hprincipals : n'.principals = n.principals) (hneurons : g'.neurons = g.neurons.insert id n')
    (hindex : g'.principalToNeuronIdsIndex = g.principalToNeuronIdsIndex) :
    PrincipalIndexConsistent g' := by
  intro q m
  rw [hindex, hneurons, SortedMap.get?_insert, hc q m]
  by_cases h : m = id
  · subst h
    simp only [↓reduceIte, hget, Option.some.injEq, exists_eq_left', hprincipals]
  · simp [h]

/-- Replacing a stored neuron by one of the same followees keeps the topic index. -/
theorem TopicIndexConsistent.insert {g g' : Governance} (hc : TopicIndexConsistent g)
    {id : ℕ} {n n' : Neuron} (hget : g.neurons.get? id = some n)
    (hfollowees : n'.followees = n.followees) (hneurons : g'.neurons = g.neurons.insert id n')
    (hindex : g'.topicFolloweeIndex = g.topicFolloweeIndex) :
    TopicIndexConsistent g' := by
  intro t f m
  rw [hindex, hneurons, SortedMap.get?_insert, hc t f m]
  by_cases h : m = id
  · subst h
    simp only [↓reduceIte, hget, Option.some.injEq, exists_eq_left', Neuron.followeesOf,
      hfollowees]
  · simp [h]

/-! ## Building the indexes -/

theorem foldlM_addNeuronToTopicIndex_eq_ok : ∀ (ns : List Neuron) (index : TopicFolloweeIndex),
    (∀ n ∈ ns, ∃ nid, n.id = some nid) →
      ∃ index', ns.foldlM addNeuronToTopicIndex index = .ok index' ∧
        ∀ t f m, m ∈ index' t f ↔ (∃ n ∈ ns, n.id = some m ∧ f ∈ n.followeesOf t) ∨ m ∈ index t f
  | [], index, _ => ⟨index, rfl, by simp⟩
  | n :: ns, index, hids => by
    obtain ⟨nid, hid⟩ := hids n List.mem_cons_self
    obtain ⟨index₁, h₁, hmem₁⟩ := addNeuronToTopicIndex_eq_ok hid index
    obtain ⟨index₂, h₂, hmem₂⟩ := foldlM_addNeuronToTopicIndex_eq_ok ns index₁
      fun n' hn' => hids n' (List.mem_cons_of_mem n hn')
    refine ⟨index₂, by rw [List.foldlM_cons, h₁]; exact h₂, fun t f m => ?_⟩
    rw [hmem₂, hmem₁]
    simp only [List.mem_cons, or_and_right, exists_or, exists_eq_left, hid, Option.some.injEq]
    constructor
    · rintro (h | ⟨hf, rfl⟩ | h)
      · exact Or.inl (Or.inr h)
      · exact Or.inl (Or.inl ⟨rfl, hf⟩)
      · exact Or.inr h
    · rintro ((⟨rfl, hf⟩ | h) | h)
      · exact Or.inr (Or.inl ⟨hf, rfl⟩)
      · exact Or.inl h
      · exact Or.inr (Or.inr h)

/-- `Governance::new` on neurons under their ids does not panic and starts from the invariant. -/
theorem invariant_new {neurons : SortedMap ℕ Neuron} (hw : NeuronsWellFormed neurons)
    (inFlightCommands : List ℕ) :
    ∃ g, Governance.new neurons inFlightCommands = .ok g ∧ Invariant g := by
  have hids : ∀ n ∈ neurons.entries.map Prod.snd, ∃ nid, n.id = some nid := by
    intro n hn
    obtain ⟨⟨id, n⟩, he, rfl⟩ := List.mem_map.mp hn
    exact ⟨id, (hw id n ((SortedMap.get?_eq_some_iff neurons).mpr he)).1⟩
  obtain ⟨index, hbuild, hmem⟩ := foldlM_addNeuronToTopicIndex_eq_ok _ _ hids
  refine ⟨_, by rw [Governance.new, buildTopicIndex, hbuild]; rfl, ⟨?_, ?_, hw⟩⟩
  · intro q id
    simp only [buildPrincipalIndex, mem_foldl_addNeuronToPrincipalIndex, Finset.notMem_empty,
      or_false, SortedMap.get?_eq_some_iff]
  · intro t f m
    rw [hmem]
    simp only [Finset.notMem_empty, or_false, List.mem_map, Prod.exists, exists_eq_right]
    constructor
    · rintro ⟨n, ⟨id, he⟩, hid, hf⟩
      have hget := (SortedMap.get?_eq_some_iff neurons).mpr he
      have hm : id = m := Option.some.inj ((hw id n hget).1.symm.trans hid)
      exact ⟨n, hm ▸ hget, hf⟩
    · rintro ⟨n, hget, hf⟩
      exact ⟨n, ⟨m, (SortedMap.get?_eq_some_iff neurons).mp hget⟩, (hw m n hget).1, hf⟩

/-! ## Configuring a neuron -/

section Configure

variable {g g' : Governance} {id : ℕ} {caller : PrincipalId} {op : Option ConfigureOperation}

theorem configureNeuron_eq_ok (h : g.configureNeuron id caller op = .ok g') :
    ∃ n n', g.neurons.get? id = some n ∧ n.configure caller op = .ok n' ∧
      g' = { g with
        neurons := g.neurons.insert id n'
        principalToNeuronIdsIndex := updatePrincipalIndex g.principalToNeuronIdsIndex id op } := by
  unfold Governance.configureNeuron at h
  obtain ⟨⟨⟩, -, h⟩ := Except.bind_eq_ok.mp h
  cases hget : g.neurons.get? id with
  | none =>
    rw [hget] at h
    cases h
  | some n =>
    rw [hget] at h
    obtain ⟨n', hconf, h⟩ := Except.bind_eq_ok.mp h
    exact ⟨n, n', rfl, hconf, (Except.pure_eq_ok.mp h).symm⟩

/-- The configuration removes the neuron's controller from its hot keys. -/
def RemovesControllerKey (g : Governance) (id : ℕ) : Option ConfigureOperation → Prop
  | some (.removeHotKey (some k)) => ∃ n, g.neurons.get? id = some n ∧ n.controller = some k
  | _ => False

theorem removesControllerKey_iff : RemovesControllerKey g id op ↔
    ∃ k n, op = some (.removeHotKey (some k)) ∧ g.neurons.get? id = some n ∧
      n.controller = some k := by
  rcases op with _ | ((_ | k) | (_ | k) | _) <;> simp [RemovesControllerKey]

theorem mem_updatePrincipalIndex_of_ne {index : PrincipalIndex} {m : ℕ} {q : PrincipalId}
    (hm : m ≠ id) : m ∈ updatePrincipalIndex index id op q ↔ m ∈ index q := by
  rcases op with _ | ((_ | k) | (_ | k) | _) <;> simp [updatePrincipalIndex, hm]

theorem mem_updatePrincipalIndex_configure {index : PrincipalIndex} {n n' : Neuron}
    {q : PrincipalId} (hindex : id ∈ index q ↔ q ∈ n.principals) (hkeys : n.hotKeys.Nodup)
    (hctrl : ∀ k, op = some (.removeHotKey (some k)) → n.controller ≠ some k)
    (h : n.configure caller op = .ok n') :
    id ∈ updatePrincipalIndex index id op q ↔ q ∈ n'.principals := by
  rcases Neuron.configure_cases h with ⟨k, rfl, hadd⟩ | ⟨k, rfl, hrem⟩ | ⟨rfl, rfl⟩
  · obtain ⟨-, rfl⟩ := Neuron.addHotKey_eq_ok hadd
    simp only [updatePrincipalIndex, mem_addToPrincipal, hindex, Neuron.mem_principals,
      List.mem_append, List.mem_singleton, and_true]
    tauto
  · obtain ⟨i, hi, hk, rfl⟩ := Neuron.removeHotKey_eq_ok hrem
    have hne := hctrl k rfl
    simp only [updatePrincipalIndex, mem_removeFromPrincipal, hindex, Neuron.mem_principals,
      hkeys.mem_swapRemove hi, hk, and_true]
    -- the key removed is the one entry the index loses, and it is not the controller
    by_cases hq : q = k
    · subst hq
      simp [hne]
    · simp [hq]
  · exact hindex

theorem invariant_configureNeuron (hinv : Invariant g) (hsafe : ¬RemovesControllerKey g id op)
    (h : g.configureNeuron id caller op = .ok g') : Invariant g' := by
  obtain ⟨n, n', hget, hconf, rfl⟩ := configureNeuron_eq_ok h
  obtain ⟨hid, -, hfollowees⟩ := Neuron.configure_frame hconf
  obtain ⟨hidn, hkeys⟩ := hinv.wellFormed id n hget
  refine ⟨?_, hinv.topic.insert hget hfollowees rfl rfl,
    hinv.wellFormed.insert (hid.trans hidn) (Neuron.nodup_hotKeys_configure hkeys hconf)⟩
  intro q m
  simp only [SortedMap.get?_insert]
  by_cases hm : m = id
  · subst hm
    have hindex : m ∈ g.principalToNeuronIdsIndex q ↔ q ∈ n.principals := by
      rw [hinv.principal q m, hget]
      simp
    simp only [↓reduceIte, Option.some.injEq, exists_eq_left']
    refine mem_updatePrincipalIndex_configure hindex hkeys (fun k hop hc => hsafe ?_) hconf
    exact removesControllerKey_iff.mpr ⟨k, n, hop, hget, hc⟩
  · simp only [if_neg hm]
    rw [mem_updatePrincipalIndex_of_ne hm]
    exact hinv.principal q m

/-- Removing the controller from the hot keys unindexes the neuron under its controller. -/
theorem not_principalIndexConsistent_configureNeuron (hrem : RemovesControllerKey g id op)
    (h : g.configureNeuron id caller op = .ok g') : ¬PrincipalIndexConsistent g' := by
  obtain ⟨n, n', hget, hconf, rfl⟩ := configureNeuron_eq_ok h
  obtain ⟨k, n₀, rfl, hget₀, hctrl⟩ := removesControllerKey_iff.mp hrem
  obtain rfl : n₀ = n := Option.some.inj (hget₀.symm.trans hget)
  intro hc
  have hmem := (hc k id).mpr ⟨n', by simp [SortedMap.get?_insert], by
    rw [Neuron.mem_principals, (Neuron.configure_frame hconf).2.1]
    exact Or.inr hctrl⟩
  simp [updatePrincipalIndex] at hmem

end Configure

/-! ## Following -/

theorem followeesOf_insert (n : Neuron) (topic : ℤ) (fs : List ℕ) (t : Topic) :
    ({ n with followees := n.followees.insert topic fs } : Neuron).followeesOf t =
      if (t.val : ℤ) = topic then fs else n.followeesOf t := by
  unfold Neuron.followeesOf
  rw [SortedMap.get?_insert]
  split_ifs <;> rfl

theorem followeesOf_erase (n : Neuron) (topic : ℤ) (t : Topic) :
    ({ n with followees := n.followees.erase topic } : Neuron).followeesOf t =
      if (t.val : ℤ) = topic then [] else n.followeesOf t := by
  unfold Neuron.followeesOf
  rw [SortedMap.get?_erase]
  split_ifs <;> rfl

theorem mem_unfollowTopic {index : TopicFolloweeIndex} {id : ℕ} {n : Neuron} {topic : ℤ}
    {t : Topic} {f m : ℕ} : m ∈ unfollowTopic index id n topic t f ↔
      ¬(((t.val : ℤ) = topic ∧ f ∈ n.followeesOf t) ∧ m = id) ∧ m ∈ index t f := by
  unfold unfollowTopic
  cases hold : n.followees.get? topic with
  | none =>
    -- no followees for the topic: nothing to take out
    have hno : ¬((t.val : ℤ) = topic ∧ f ∈ n.followeesOf t) := by
      rintro ⟨ht, hf⟩
      simp [Neuron.followeesOf, ht, hold] at hf
    simp [hno]
  | some old =>
    cases htopic : topicFromI32 topic with
    | none =>
      -- a topic that is not defined is not in the index
      have hno : ¬((t.val : ℤ) = topic ∧ f ∈ n.followeesOf t) :=
        fun h => ne_of_topicFromI32_eq_none htopic t h.1
      simp [hno]
    | some t₀ =>
      have key : (t = t₀ ∧ f ∈ old) ↔ ((t.val : ℤ) = topic ∧ f ∈ n.followeesOf t) := by
        rw [topicFromI32_eq_iff htopic]
        constructor
        · rintro ⟨ht, hf⟩
          exact ⟨ht, by simpa [Neuron.followeesOf, ht, hold] using hf⟩
        · rintro ⟨ht, hf⟩
          exact ⟨ht, by simpa [Neuron.followeesOf, ht, hold] using hf⟩
      simp only
      rw [mem_foldl_removeFollower, ← and_assoc, key]

theorem invariant_replaceFollowees {g : Governance} (hinv : Invariant g) {id : ℕ} {n n' : Neuron}
    (hget : g.neurons.get? id = some n) {topic : ℤ} {fs : List ℕ}
    (hfollowees : ∀ t : Topic, n'.followeesOf t =
      if (t.val : ℤ) = topic then fs else n.followeesOf t)
    (hsame : n'.id = n.id ∧ n'.controller = n.controller ∧ n'.hotKeys = n.hotKeys)
    {index : TopicFolloweeIndex}
    (hindex : ∀ t f m, m ∈ index t f ↔ (((t.val : ℤ) = topic ∧ f ∈ fs) ∧ m = id) ∨
      (¬(((t.val : ℤ) = topic ∧ f ∈ n.followeesOf t) ∧ m = id) ∧ m ∈ g.topicFolloweeIndex t f)) :
    Invariant { g with neurons := g.neurons.insert id n', topicFolloweeIndex := index } := by
  obtain ⟨hid, hctrl, hkeys⟩ := hsame
  obtain ⟨hidn, hkeysn⟩ := hinv.wellFormed id n hget
  have hprincipals : n'.principals = n.principals := by
    simp only [Neuron.principals, hctrl, hkeys]
  refine ⟨hinv.principal.insert hget hprincipals rfl rfl, ?_,
    hinv.wellFormed.insert (hid.trans hidn) (hkeys ▸ hkeysn)⟩
  intro t f m
  simp only [SortedMap.get?_insert, hindex]
  by_cases hm : m = id
  · subst hm
    have hold : m ∈ g.topicFolloweeIndex t f ↔ f ∈ n.followeesOf t := by
      rw [hinv.topic t f m, hget]
      simp
    simp only [↓reduceIte, Option.some.injEq, exists_eq_left', hfollowees, hold, and_true]
    -- the topic replaced reads the new followees, every other topic the old ones
    by_cases ht : (t.val : ℤ) = topic
    · simp [ht]
    · simp [ht]
  · simp [hm, hinv.topic t f m]

section Follow

variable {g g' : Governance} {id : ℕ} {caller : PrincipalId} {topic : ℤ} {fs : List ℕ}

theorem invariant_follow (hinv : Invariant g) (h : g.follow id caller topic fs = .ok g') :
    Invariant g' := by
  unfold Governance.follow at h
  cases hget : g.neurons.get? id with
  | none =>
    rw [hget] at h
    cases h
  | some n =>
    rw [hget] at h
    simp only at h
    by_cases h₁ : topic = topicNeuronManagement ∧ (!n.isControlledBy caller) = true
    · rw [if_pos h₁] at h
      cases h
    rw [if_neg h₁] at h
    by_cases h₂ : (!n.isAuthorizedToVote caller) = true
    · rw [if_pos h₂] at h
      cases h
    rw [if_neg h₂] at h
    by_cases h₃ : maxFolloweesPerTopic < fs.length
    · rw [if_pos h₃] at h
      cases h
    rw [if_neg h₃] at h
    by_cases hempty : fs.isEmpty = true
    · -- an empty list clears the topic
      rw [if_pos hempty] at h
      cases h
      have hnil : fs = [] := List.isEmpty_iff.mp hempty
      subst hnil
      refine invariant_replaceFollowees hinv hget (followeesOf_erase n topic) ⟨rfl, rfl, rfl⟩
        fun t f m => ?_
      rw [mem_unfollowTopic]
      simp
    · rw [if_neg hempty] at h
      cases htopic : topicFromI32 topic with
      | none =>
        rw [htopic] at h
        cases h
      | some t₀ =>
        rw [htopic] at h
        cases h
        refine invariant_replaceFollowees hinv hget (followeesOf_insert n topic fs)
          ⟨rfl, rfl, rfl⟩ fun t f m => ?_
        rw [mem_foldl_addFollower, mem_unfollowTopic, topicFromI32_eq_iff htopic]
        simp only [and_assoc]

end Follow

/-! ## Adding and removing neurons -/

section AddRemove

variable {g g' : Governance} {neuronId : ℕ} {neuron : Neuron}

theorem addNeuron_eq_ok {heapCanGrow : Bool}
    (h : g.addNeuron heapCanGrow neuronId neuron = .ok (.ok g')) :
    neuron.id = some neuronId ∧ g.neurons.get? neuronId = none ∧
      ∃ index, addNeuronToTopicIndex g.topicFolloweeIndex neuron = .ok index ∧
        g' = { g with
          neurons := g.neurons.insert neuronId neuron
          principalToNeuronIdsIndex :=
            addNeuronToPrincipalIndex g.principalToNeuronIdsIndex neuronId neuron
          topicFolloweeIndex := index } := by
  unfold Governance.addNeuron at h
  by_cases h₀ : neuronId = 0
  · rw [if_pos h₀] at h
    cases h
  rw [if_neg h₀] at h
  by_cases hreal : neuron.id.getD 0 ≠ neuronId
  · rw [if_pos hreal] at h
    cases h
  rw [if_neg hreal] at h
  by_cases hheap : (!heapCanGrow) = true
  · rw [if_pos hheap] at h
    cases h
  rw [if_neg hheap] at h
  by_cases hmax : maxNumberOfNeurons < g.neurons.entries.length + 1
  · rw [if_pos hmax] at h
    cases h
  rw [if_neg hmax] at h
  by_cases hdup : (g.neurons.get? neuronId).isSome = true
  · rw [if_pos hdup] at h
    cases h
  rw [if_neg hdup] at h
  obtain ⟨controller, -, h⟩ := Except.bind_eq_ok.mp h
  by_cases hauth : (!controller.isSelfAuthenticating) = true
  · rw [if_pos hauth] at h
    cases h
  rw [if_neg hauth] at h
  obtain ⟨index, hindex, h⟩ := Except.bind_eq_ok.mp h
  -- the id checks leave only the neuron's own id
  have hid : neuron.id = some neuronId := by
    cases hn : neuron.id with
    | none =>
      rw [hn] at hreal
      exact absurd (not_not.mp hreal).symm h₀
    | some nid =>
      rw [hn] at hreal
      exact congrArg some (not_not.mp hreal)
  refine ⟨hid, by simpa using hdup, index, hindex, ?_⟩
  cases h
  rfl

theorem invariant_addNeuron {heapCanGrow : Bool} (hinv : Invariant g)
    (hkeys : neuron.hotKeys.Nodup) (h : g.addNeuron heapCanGrow neuronId neuron = .ok (.ok g')) :
    Invariant g' := by
  obtain ⟨hid, hfresh, index, hindex, rfl⟩ := addNeuron_eq_ok h
  obtain ⟨index', hindex', hmem⟩ := addNeuronToTopicIndex_eq_ok hid g.topicFolloweeIndex
  obtain rfl : index = index' := Except.ok.inj (hindex.symm.trans hindex')
  refine ⟨?_, ?_, hinv.wellFormed.insert hid hkeys⟩
  · intro q m
    simp only [mem_addNeuronToPrincipalIndex, hinv.principal q m, SortedMap.get?_insert]
    by_cases hm : m = neuronId
    · subst hm
      simp [hfresh]
    · simp [hm]
  · intro t f m
    simp only [hmem, hinv.topic t f m, SortedMap.get?_insert]
    by_cases hm : m = neuronId
    · subst hm
      simp [hfresh]
    · simp [hm]

theorem removeNeuron_eq_ok (h : g.removeNeuron neuronId neuron = .ok (.ok g')) :
    ∃ index, removeNeuronFromTopicIndex g.topicFolloweeIndex neuron = .ok index ∧
      g' = { g with
        neurons := g.neurons.erase neuronId
        principalToNeuronIdsIndex :=
          removeNeuronFromPrincipalIndex g.principalToNeuronIdsIndex neuronId neuron
        topicFolloweeIndex := index } := by
  unfold Governance.removeNeuron at h
  by_cases hnone : (g.neurons.get? neuronId).isNone = true
  · rw [if_pos hnone] at h
    cases h
  rw [if_neg hnone] at h
  obtain ⟨index, hindex, h⟩ := Except.bind_eq_ok.mp h
  cases h
  exact ⟨index, hindex, rfl⟩

theorem invariant_removeNeuron (hinv : Invariant g)
    (hstored : g.neurons.get? neuronId = some neuron)
    (h : g.removeNeuron neuronId neuron = .ok (.ok g')) : Invariant g' := by
  obtain ⟨index, hindex, rfl⟩ := removeNeuron_eq_ok h
  have hid := (hinv.wellFormed neuronId neuron hstored).1
  obtain ⟨index', hindex', hmem⟩ := removeNeuronFromTopicIndex_eq_ok hid g.topicFolloweeIndex
  obtain rfl : index = index' := Except.ok.inj (hindex.symm.trans hindex')
  refine ⟨?_, ?_, hinv.wellFormed.erase neuronId⟩
  · intro q m
    simp only [mem_removeNeuronFromPrincipalIndex, hinv.principal q m, SortedMap.get?_erase]
    by_cases hm : m = neuronId
    · subst hm
      simp [hstored]
    · simp [hm]
  · intro t f m
    simp only [hmem, hinv.topic t f m, SortedMap.get?_erase]
    by_cases hm : m = neuronId
    · subst hm
      simp [hstored]
    · simp [hm]

/-- A removal through a copy missing a followee leaves the neuron in the topic index. -/
theorem not_topicIndexConsistent_removeNeuron (hc : TopicIndexConsistent g) {stored : Neuron}
    (hstored : g.neurons.get? neuronId = some stored) (hid : neuron.id = some neuronId)
    {t : Topic} {f : ℕ} (hf : f ∈ stored.followeesOf t) (hnf : f ∉ neuron.followeesOf t)
    (h : g.removeNeuron neuronId neuron = .ok (.ok g')) : ¬TopicIndexConsistent g' := by
  obtain ⟨index, hindex, rfl⟩ := removeNeuron_eq_ok h
  obtain ⟨index', hindex', hmem⟩ := removeNeuronFromTopicIndex_eq_ok hid g.topicFolloweeIndex
  obtain rfl : index = index' := Except.ok.inj (hindex.symm.trans hindex')
  intro hc'
  have hstays : neuronId ∈ index t f :=
    (hmem t f neuronId).mpr ⟨fun h => hnf h.1, (hc t f neuronId).mpr ⟨stored, hstored, hf⟩⟩
  obtain ⟨n, hn, -⟩ := (hc' t f neuronId).mp hstays
  simp [SortedMap.get?_erase] at hn

end AddRemove

/-! ## Runs -/

/-- The commands that keep the invariant: a configuration keeping the controller a hot key, any
follow, an added neuron without a repeated hot key, and a removal through the stored value. -/
def Command.Safe (g : Governance) : Command → Prop
  | .configure id _ op => ¬RemovesControllerKey g id op
  | .follow _ _ _ _ => True
  | .addNeuron _ _ neuron => neuron.hotKeys.Nodup
  | .removeNeuron neuronId neuron => g.neurons.get? neuronId = some neuron

theorem invariant_execute {g : Governance} (hinv : Invariant g) {c : Command}
    (hsafe : c.Safe g) : Invariant (g.execute c) := by
  cases c with
  | configure id caller op =>
    simp only [Governance.execute]
    cases h : g.configureNeuron id caller op with
    | ok g' => exact invariant_configureNeuron hinv hsafe h
    | error _ => exact hinv
  | follow id caller topic followees =>
    simp only [Governance.execute]
    cases h : g.follow id caller topic followees with
    | ok g' => exact invariant_follow hinv h
    | error _ => exact hinv
  | addNeuron heapCanGrow neuronId neuron =>
    simp only [Governance.execute]
    rcases h : g.addNeuron heapCanGrow neuronId neuron with _ | (_ | g')
    · exact hinv
    · exact hinv
    · exact invariant_addNeuron hinv hsafe h
  | removeNeuron neuronId neuron =>
    simp only [Governance.execute]
    rcases h : g.removeNeuron neuronId neuron with _ | (_ | g')
    · exact hinv
    · exact hinv
    · exact invariant_removeNeuron hinv hsafe h

/-- The states reached from `Governance::new` on well-formed neurons by safe commands. -/
inductive SafelyReachable : Governance → Prop
  | new {neurons : SortedMap ℕ Neuron} {inFlightCommands : List ℕ} {g : Governance} :
      NeuronsWellFormed neurons → Governance.new neurons inFlightCommands = .ok g →
        SafelyReachable g
  | execute {g : Governance} {c : Command} : SafelyReachable g → c.Safe g →
      SafelyReachable (g.execute c)

/-- Every state reached by safe commands has consistent indexes. -/
theorem invariant_of_safelyReachable {g : Governance} (h : SafelyReachable g) : Invariant g := by
  induction h with
  | new hw hnew =>
    obtain ⟨g', hnew', hinv⟩ := invariant_new hw _
    rw [hnew, Except.ok.injEq] at hnew'
    exact hnew' ▸ hinv
  | execute _ hsafe ih => exact invariant_execute ih hsafe

/-! ## The controller as a hot key -/

/-- A principal that controls a neuron. -/
def soleController : PrincipalId := ⟨[1], by decide⟩

/-- A neuron of id 1 with its controller, no hot keys and no followees. -/
def soleNeuron : Neuron := ⟨some 1, some soleController, [], SortedMap.empty⟩

/-- The governance of the one neuron: after its controller is added as a hot key and removed
again, the neuron is still controlled by it but no longer under it in the index. -/
theorem controller_unindexed_after_hot_key_removal :
    ∃ g₀ g₁ g₂, Governance.new (SortedMap.empty.insert 1 soleNeuron) [] = .ok g₀ ∧
      g₀.configureNeuron 1 soleController (some (.addHotKey (some soleController))) = .ok g₁ ∧
      g₁.configureNeuron 1 soleController (some (.removeHotKey (some soleController))) =
        .ok g₂ ∧
      Invariant g₀ ∧
      (∃ n, g₂.neurons.get? 1 = some n ∧ n.controller = some soleController) ∧
      1 ∉ g₂.principalToNeuronIdsIndex soleController ∧ ¬PrincipalIndexConsistent g₂ := by
  have hw : NeuronsWellFormed (SortedMap.empty.insert 1 soleNeuron) := by
    intro id n hget
    rw [SortedMap.get?_insert] at hget
    by_cases hid : id = 1
    · rw [if_pos hid, Option.some.injEq] at hget
      subst hid hget
      exact ⟨rfl, List.nodup_nil⟩
    · rw [if_neg hid] at hget
      cases hget
  -- the three states, as the commands compute them
  let g₀ : Governance := ⟨SortedMap.empty.insert 1 soleNeuron, [],
    buildPrincipalIndex (SortedMap.empty.insert 1 soleNeuron), fun _ _ => ∅⟩
  let g₁ : Governance := { g₀ with
    neurons := g₀.neurons.insert 1 { soleNeuron with hotKeys := [soleController] }
    principalToNeuronIdsIndex :=
      addToPrincipal g₀.principalToNeuronIdsIndex 1 soleController }
  let g₂ : Governance := { g₁ with
    neurons := g₁.neurons.insert 1 soleNeuron
    principalToNeuronIdsIndex :=
      removeFromPrincipal g₁.principalToNeuronIdsIndex 1 soleController }
  have hnew : Governance.new (SortedMap.empty.insert 1 soleNeuron) [] = .ok g₀ := rfl
  have h₂ : g₁.configureNeuron 1 soleController
      (some (.removeHotKey (some soleController))) = .ok g₂ := rfl
  have hremoves : RemovesControllerKey g₁ 1 (some (.removeHotKey (some soleController))) :=
    ⟨_, rfl, rfl⟩
  refine ⟨g₀, g₁, g₂, hnew, rfl, h₂, ?_, ⟨soleNeuron, rfl, rfl⟩, by simp [g₂],
    not_principalIndexConsistent_configureNeuron hremoves h₂⟩
  obtain ⟨g, hg, hinv⟩ := invariant_new hw []
  rw [hnew, Except.ok.injEq] at hg
  exact hg ▸ hinv

end IC.Nns
