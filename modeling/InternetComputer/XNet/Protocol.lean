import InternetComputer.XNet.Handler
import InternetComputer.Lib.History

/-!
# Two subnets exchanging streams

Two subnets, each holding the stream of its messages to the other. A step is execution pushing a
message, or a subnet running the stream handler on a slice of the other's stream from its own
`signals_end`, taken from any certified state no older than the last one it used. Each subnet
records the messages pushed, the inductions, the reject signals and the rejected messages.

* `Subnet`, `World`, `Step`, `Reachable`; `Stream.Le`: a stream's indices only grow;
* `Subnet.deliver_eq_ok`: a slice that fits the stream is delivered without a panic.
-/

namespace IC.XNet

/-- The two subnets. -/
inductive Side where
  | a
  | b
  deriving DecidableEq, Repr

/-- The other subnet. -/
def Side.other : Side → Side
  | .a => .b
  | .b => .a

instance : ToString Side := ⟨fun x => match x with | .a => "a" | .b => "b"⟩

@[simp]
theorem Side.other_other (x : Side) : x.other.other = x := by cases x <;> rfl

theorem Side.other_ne (x : Side) : x.other ≠ x := by cases x <;> decide

/-- A subnet: its stream to the other, the states the stream has been in, the index of the other's
state it last took a slice from, and the record of its steps. -/
structure Subnet (α : Type) where
  stream : Stream α
  history : List (Stream α)
  delivered : ℕ
  pushed : List α
  inducted : List (α × ℕ)
  rejectLog : List ℕ
  returned : List α

namespace Subnet

variable {α : Type}

/-- A subnet before any message: an empty stream. -/
def initial : Subnet α := ⟨Stream.empty, [Stream.empty], 0, [], [], [], []⟩

/-- Execution pushes a message onto the stream. -/
def push (p : Subnet α) (msg : α) : Subnet α :=
  let stream := p.stream.push msg
  { p with stream, history := p.history ++ [stream], pushed := p.pushed ++ [msg] }

/-- The subnet after the stream handler ran on a slice of the other's state `j`, with the stream
left, the messages garbage collection returned and the inductions made. -/
def handled (p : Subnet α) (j : ℕ) (stream : Stream α) (rejected : List α)
    (inducted : List (α × ℕ)) : Subnet α where
  stream := stream
  history := p.history ++ [stream]
  delivered := j
  pushed := p.pushed ++ stream.messages.queue.drop (p.pushed.length - stream.messages.begin)
  inducted := p.inducted ++ inducted
  rejectLog := p.rejectLog ++ stream.rejectSignals.filter fun i => decide (p.stream.signalsEnd ≤ i)
  returned := p.returned ++ rejected

/-- The subnet takes a slice of the other's `j`-th state from its `signals_end` and handles it. -/
def deliver {σ : Type} [ToString σ] (p : Subnet α) (remoteSubnet : σ) (j : ℕ) (remote : Stream α)
    (count : Option ℕ) (route : α → Bool) (outcome : ℕ → α → InductionOutcome α) :
    Except String (Subnet α) := do
  let streamSlice ← remote.slice p.stream.signalsEnd count
  let (stream, rejected, inducted) ←
    processStreamSlices route outcome p.stream remoteSubnet streamSlice
  pure (p.handled j stream rejected inducted)

/-- **A delivery that does not panic**: with valid signals within the stream and remote messages
enclosing the stream's `signals_end`, the handler runs through. -/
theorem deliver_eq_ok {σ : Type} [ToString σ] (p : Subnet α) (remoteSubnet : σ) (j : ℕ)
    {R : Stream α} (count : Option ℕ) (route : α → Bool) (outcome : ℕ → α → InductionOutcome α)
    (hheader : (R.rejectSignals ++ [R.signalsEnd]).Pairwise (· < ·))
    (h₁ : p.stream.messages.begin ≤ R.signalsEnd) (h₂ : R.signalsEnd ≤ p.stream.messages.end_)
    (hvalid : (p.stream.rejectSignals ++ [p.stream.signalsEnd]).Pairwise (· < ·))
    (h₃ : R.messages.begin ≤ p.stream.signalsEnd) (h₄ : p.stream.signalsEnd ≤ R.messages.end_) :
    p.deliver remoteSubnet j R count route outcome =
      let msgs := (R.messages.queue.drop (p.stream.signalsEnd - R.messages.begin)).take
        (count.getD R.messages.queue.length)
      let rejected := (R.rejectSignals.filter fun i =>
          decide (p.stream.messages.begin ≤ i ∧ i < R.signalsEnd)).filterMap
        fun i => p.stream.messages.queue[i - p.stream.messages.begin]?
      .ok (p.handled j ⟨⟨R.signalsEnd,
          p.stream.messages.queue.drop (R.signalsEnd - p.stream.messages.begin) ++
            rejected.filter route ++ inductedResponses outcome p.stream.signalsEnd msgs⟩,
        p.stream.signalsEnd + msgs.length,
        p.stream.rejectSignals.dropWhile (fun i => decide (i < R.messages.begin)) ++
          inductedSignals outcome p.stream.signalsEnd msgs⟩
        rejected (msgs.zipIdx p.stream.signalsEnd)) := by
  unfold deliver
  rw [Stream.slice_eq_ok count h₃ h₄, Except.ok_bind]
  dsimp only
  rw [processStreamSlices_eq_ok route outcome hheader h₁ h₂ hvalid h₃ h₄]
  rfl

end Subnet

/-- The two subnets. -/
abbrev World (α : Type) := Side → Subnet α

/-- Both subnets before any message. -/
def World.initial {α : Type} : World α := fun _ => Subnet.initial

variable {α : Type}

/-- A step: a subnet pushes a message onto its stream, or takes a slice of a state of the other's
stream no older than its last; rerouting and induction outcomes are chosen. -/
inductive Step : World α → World α → Prop
  | push (w : World α) (x : Side) (msg : α) : Step w (Function.update w x ((w x).push msg))
  | deliver (w : World α) (x : Side) (j : ℕ) (remote : Stream α) (count : Option ℕ)
      (route : α → Bool) (outcome : ℕ → α → InductionOutcome α) (p : Subnet α)
      (hj : (w x).delivered ≤ j) (hremote : (w x.other).history[j]? = some remote)
      (h : (w x).deliver x.other j remote count route outcome = .ok p) :
      Step w (Function.update w x p)

/-- The worlds some interleaving of steps reaches. -/
inductive Reachable : World α → Prop
  | initial : Reachable World.initial
  | step {w w' : World α} : Reachable w → Step w w' → Reachable w'

/-! ## The indices of a stream only grow -/

/-- `T` is a later state than `S`: its begin, end and `signals_end` are no smaller. -/
def Stream.Le (S T : Stream α) : Prop :=
  S.messages.begin ≤ T.messages.begin ∧ S.messages.end_ ≤ T.messages.end_ ∧
    S.signalsEnd ≤ T.signalsEnd

instance : Std.Refl (Stream.Le (α := α)) := ⟨fun _ => ⟨le_rfl, le_rfl, le_rfl⟩⟩

instance : IsTrans (Stream α) Stream.Le :=
  ⟨fun _ _ _ h₁ h₂ => ⟨h₁.1.trans h₂.1, h₁.2.1.trans h₂.2.1, h₁.2.2.trans h₂.2.2⟩⟩

theorem Stream.le_push (s : Stream α) (msg : α) : Stream.Le s (s.push msg) :=
  ⟨le_rfl, by simp [Stream.push], le_rfl⟩

end IC.XNet
