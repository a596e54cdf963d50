import Mathlib

/-!
# Tallies and wait for quiet

`ProposalData::recompute_tally` sums the voting power of the ballots by vote, and
`evaluate_wait_for_quiet` moves the deadline of a proposal when the lead flips between two
tallies and neither side has a deciding majority yet. Times and voting powers are `u64`; their
saturating additions saturate at `u64::MAX` here too.

* `Ballots.power`, `Ballots.totalPower`: the exact sums; `tallyBallots_eq`: the tally's loop
  computes them while the total fits a `u64`;
* `TallyRun`: calls of `recompute_tally` at non-decreasing times from the proposal's creation,
  between ballot changes that only cast unspecified votes;
* **`waitForQuiet_run`**: in every run, each call tallies the ballots exactly, and the deadline
  only grows, stays below `max D₀ (ts + vp + 2 W)`, and moves only after a flip of the lead.
-/

namespace IC.Nns

/-- `u64::MAX`. -/
def u64Max : ℕ := 2 ^ 64 - 1

/-- `u64::saturating_add`. -/
def satAdd (a b : ℕ) : ℕ := min (a + b) u64Max

/-- `WAIT_FOR_QUIET_DEADLINE_INCREASE_SECONDS`: two days. -/
def waitForQuietDeadlineIncreaseSeconds : ℕ := 2 * (24 * 60 * 60)

/-- `Vote`. -/
inductive Vote where
  | unspecified
  | yes
  | no
  deriving DecidableEq, Repr

/-- `Ballot`. -/
structure Ballot where
  vote : Vote
  votingPower : ℕ
  deriving DecidableEq, Repr

/-- `Tally`. -/
structure Tally where
  timestampSeconds : ℕ
  yes : ℕ
  no : ℕ
  total : ℕ
  deriving DecidableEq, Repr

/-- The fields of `ProposalData` the tally reads and writes. -/
structure ProposalData where
  proposalTimestampSeconds : ℕ
  ballots : List (ℕ × Ballot)
  latestTally : Option Tally
  waitForQuietState : Option ℕ

namespace Ballots

/-- The voting power of the ballots that cast `v`. -/
def power (v : Vote) (bs : List (ℕ × Ballot)) : ℕ :=
  ((bs.filter fun b => b.2.vote = v).map fun b => b.2.votingPower).sum

/-- The voting power of all ballots. -/
def totalPower (bs : List (ℕ × Ballot)) : ℕ := (bs.map fun b => b.2.votingPower).sum

end Ballots

/-- One ballot of the loop of `recompute_tally`, into `(yes, no, undecided)`. -/
def addBallot (acc : ℕ × ℕ × ℕ) (b : ℕ × Ballot) : ℕ × ℕ × ℕ :=
  match b.2.vote with
  | .unspecified => (acc.1, acc.2.1, satAdd acc.2.2 b.2.votingPower)
  | .yes => (satAdd acc.1 b.2.votingPower, acc.2.1, acc.2.2)
  | .no => (acc.1, satAdd acc.2.1 b.2.votingPower, acc.2.2)

/-- The loop of `recompute_tally`. -/
def tallyBallots (bs : List (ℕ × Ballot)) : ℕ × ℕ × ℕ := bs.foldl addBallot (0, 0, 0)

/-- `vote_has_turned`. -/
def voteHasTurned (oldTally newTally : Tally) : Bool :=
  (decide (oldTally.yes > oldTally.no) && decide (newTally.yes ≤ newTally.no)) ||
    (decide (oldTally.yes ≤ oldTally.no) && decide (newTally.yes > newTally.no))

namespace ProposalData

/-- `ProposalData::evaluate_wait_for_quiet`; the `+ 1` wraps as in a release build. -/
def evaluateWaitForQuiet (p : ProposalData) (nowSeconds votingPeriodSeconds : ℕ)
    (oldTally newTally : Tally) : ProposalData :=
  match p.waitForQuietState with
  | none => p
  | some currentDeadline =>
    let decidingAmountYes := newTally.total / 2 + 1
    let decidingAmountNo := (newTally.total + 1) % 2 ^ 64 / 2
    if newTally.yes ≥ decidingAmountYes ∨ newTally.no ≥ decidingAmountNo ∨
        nowSeconds > currentDeadline then p
    else if !voteHasTurned oldTally newTally then p
    else
      let elapsedSeconds := nowSeconds - p.proposalTimestampSeconds
      let requiredMargin :=
        satAdd waitForQuietDeadlineIncreaseSeconds (votingPeriodSeconds / 2) - elapsedSeconds / 2
      let newDeadline := max currentDeadline (satAdd nowSeconds requiredMargin)
      if newDeadline ≠ currentDeadline then { p with waitForQuietState := some newDeadline }
      else p

/-- `ProposalData::recompute_tally`. -/
def recomputeTally (p : ProposalData) (nowSeconds votingPeriodSeconds : ℕ) : ProposalData :=
  let (yes, no, undecided) := tallyBallots p.ballots
  let total := satAdd (satAdd yes no) undecided
  let newTally : Tally := ⟨nowSeconds, yes, no, total⟩
  match p.latestTally with
  | some oldTally =>
    if newTally.yes = oldTally.yes ∧ newTally.no = oldTally.no ∧ newTally.total = oldTally.total
    then p
    else { p.evaluateWaitForQuiet nowSeconds votingPeriodSeconds oldTally newTally with
      latestTally := some newTally }
  | none => { p with latestTally := some newTally }

end ProposalData

/-! ## The tally -/

namespace Ballots

@[simp] theorem power_nil (v : Vote) : power v [] = 0 := rfl

@[simp] theorem power_cons (v : Vote) (b : ℕ × Ballot) (bs : List (ℕ × Ballot)) :
    power v (b :: bs) = (if b.2.vote = v then b.2.votingPower else 0) + power v bs := by
  unfold power
  by_cases h : b.2.vote = v <;> simp [h]

@[simp] theorem totalPower_cons (b : ℕ × Ballot) (bs : List (ℕ × Ballot)) :
    totalPower (b :: bs) = b.2.votingPower + totalPower bs := by
  simp [totalPower]

theorem power_add_power_add_power (bs : List (ℕ × Ballot)) :
    power .yes bs + power .no bs + power .unspecified bs = totalPower bs := by
  induction bs with
  | nil => rfl
  | cons b bs ih =>
    simp only [power_cons, totalPower_cons]
    cases b.2.vote <;> simp <;> omega

end Ballots

open Ballots in
theorem foldl_addBallot (bs : List (ℕ × Ballot)) {y n u : ℕ}
    (hfit : y + n + u + totalPower bs ≤ u64Max) :
    bs.foldl addBallot (y, n, u) =
      (y + power .yes bs, n + power .no bs, u + power .unspecified bs) := by
  induction bs generalizing y n u with
  | nil => rfl
  | cons b bs ih =>
    have hsum := power_add_power_add_power bs
    simp only [totalPower_cons] at hfit
    rw [List.foldl_cons]
    -- one case per vote: the sum it adds to does not saturate
    rcases hb : b.2.vote with _ | _ | _ <;> simp only [addBallot, hb] <;>
      rw [ih (by unfold satAdd; omega)] <;> simp [satAdd, hb] <;> omega

open Ballots in
/-- **The loop of `recompute_tally` sums the ballots by vote** while their total fits a `u64`. -/
theorem tallyBallots_eq {bs : List (ℕ × Ballot)} (hfit : totalPower bs ≤ u64Max) :
    tallyBallots bs = (power .yes bs, power .no bs, power .unspecified bs) := by
  rw [tallyBallots, foldl_addBallot bs (by simpa using hfit)]
  simp

/-! ## Wait for quiet -/

/-- The exact tally of the ballots at `now`. -/
def tallyOf (now : ℕ) (bs : List (ℕ × Ballot)) : Tally :=
  ⟨now, Ballots.power .yes bs, Ballots.power .no bs, Ballots.totalPower bs⟩

/-- When `evaluate_wait_for_quiet` moves the deadline `d` at `now`: the lead flipped from
`oldTally` to `newTally`, neither side of `newTally` has a deciding majority, and `now` is not past
`d`. -/
def Moves (now d : ℕ) (oldTally newTally : Tally) : Prop :=
  voteHasTurned oldTally newTally = true ∧ ¬ 2 * newTally.yes > newTally.total ∧
    ¬ 2 * newTally.no ≥ newTally.total ∧ now ≤ d

instance (now d : ℕ) (oldTally newTally : Tally) : Decidable (Moves now d oldTally newTally) := by
  unfold Moves
  infer_instance

/-- Where `evaluate_wait_for_quiet` moves the deadline `d` to. -/
def movedDeadline (ts vp now d : ℕ) (oldTally newTally : Tally) : ℕ :=
  if Moves now d oldTally newTally then
    max d (satAdd now (satAdd waitForQuietDeadlineIncreaseSeconds (vp / 2) - (now - ts) / 2))
  else d

theorem voteHasTurned_of_eq {oldTally newTally : Tally} (hyes : newTally.yes = oldTally.yes)
    (hno : newTally.no = oldTally.no) : voteHasTurned oldTally newTally = false := by
  unfold voteHasTurned
  rw [hyes, hno]
  by_cases h : oldTally.yes > oldTally.no <;> simp [h]

namespace ProposalData

variable {p : ProposalData} {d : ℕ}

theorem evaluateWaitForQuiet_eq {now vp : ℕ} (hd : p.waitForQuietState = some d)
    (oldTally newTally : Tally) (htotal : newTally.total < u64Max) :
    p.evaluateWaitForQuiet now vp oldTally newTally =
      { p with
        waitForQuietState := some (movedDeadline p.proposalTimestampSeconds vp now d oldTally newTally) } := by
  have hwrap : (newTally.total + 1) % 2 ^ 64 = newTally.total + 1 := by
    unfold u64Max at htotal
    omega
  obtain ⟨ts, bs, latest, deadline⟩ := p
  dsimp only at hd
  subst hd
  unfold evaluateWaitForQuiet movedDeadline
  dsimp only
  rw [hwrap]
  by_cases hdecided : newTally.yes ≥ newTally.total / 2 + 1 ∨
      newTally.no ≥ (newTally.total + 1) / 2 ∨ now > d
  · have hstay : ¬ Moves now d oldTally newTally := fun h => by
      unfold Moves at h
      omega
    rw [if_pos hdecided, if_neg hstay]
  rw [if_neg hdecided]
  by_cases hturned : voteHasTurned oldTally newTally = true
  · have hmove : Moves now d oldTally newTally := ⟨hturned, by omega, by omega, by omega⟩
    rw [if_neg (by simp [hturned]), if_pos hmove]
    split_ifs with hne
    · rfl
    · rw [not_not.mp hne]
  · rw [if_pos (by simpa using hturned), if_neg fun h => hturned h.1]

/-- What `recompute_tally` leaves: the ballots, the exact tally, and the moved deadline. -/
theorem recomputeTally_eq (now vp : ℕ) (hd : p.waitForQuietState = some d)
    (hfit : Ballots.totalPower p.ballots < u64Max) :
    (p.recomputeTally now vp).ballots = p.ballots ∧
      (p.recomputeTally now vp).proposalTimestampSeconds = p.proposalTimestampSeconds ∧
      (∃ t, (p.recomputeTally now vp).latestTally = some t ∧ t.yes = (tallyOf now p.ballots).yes ∧
        t.no = (tallyOf now p.ballots).no ∧ t.total = (tallyOf now p.ballots).total) ∧
      (p.recomputeTally now vp).waitForQuietState = some (match p.latestTally with
        | some oldTally =>
          movedDeadline p.proposalTimestampSeconds vp now d oldTally (tallyOf now p.ballots)
        | none => d) := by
  have htotal : satAdd (satAdd (Ballots.power .yes p.ballots) (Ballots.power .no p.ballots))
      (Ballots.power .unspecified p.ballots) = Ballots.totalPower p.ballots := by
    have := Ballots.power_add_power_add_power p.ballots
    unfold satAdd
    omega
  unfold recomputeTally
  rw [tallyBallots_eq hfit.le]
  dsimp only
  rw [htotal]
  cases hlatest : p.latestTally with
  | none => exact ⟨rfl, rfl, ⟨_, rfl, rfl, rfl, rfl⟩, hd⟩
  | some oldTally =>
    dsimp only
    split_ifs with hsame
    · -- an unchanged tally cannot have turned, so the deadline stays
      have hstay : movedDeadline p.proposalTimestampSeconds vp now d oldTally
          (tallyOf now p.ballots) = d := by
        have hturned : voteHasTurned oldTally (tallyOf now p.ballots) = false :=
          voteHasTurned_of_eq hsame.1 hsame.2.1
        have hstay : ¬ Moves now d oldTally (tallyOf now p.ballots) := fun h => by
          have h1 := h.1
          rw [hturned] at h1
          exact Bool.false_ne_true h1
        rw [movedDeadline, if_neg hstay]
      rw [hstay]
      exact ⟨rfl, rfl, ⟨oldTally, hlatest, hsame.1.symm, hsame.2.1.symm, hsame.2.2.symm⟩, hd⟩
    · rw [evaluateWaitForQuiet_eq hd _ _ hfit]
      exact ⟨rfl, rfl, ⟨_, rfl, rfl, rfl, rfl⟩, rfl⟩

end ProposalData

/-- A moved deadline only grows, and not past `ts + vp + 2 W`, where the margin reaches zero. -/
theorem movedDeadline_le {ts vp d B : ℕ} (now : ℕ) (oldTally newTally : Tally) (hd : d ≤ B)
    (hB : ts + vp + 2 * waitForQuietDeadlineIncreaseSeconds ≤ B) :
    d ≤ movedDeadline ts vp now d oldTally newTally ∧
      movedDeadline ts vp now d oldTally newTally ≤ B := by
  unfold movedDeadline satAdd
  split_ifs with h
  · refine ⟨le_max_left _ _, max_le hd ?_⟩
    have hnow := h.2.2.2
    omega
  · exact ⟨le_rfl, hd⟩

/-! ## Runs -/

/-- Ballot changes of a run: only an unspecified vote changes. -/
def BallotsAdvance (bs bs' : List (ℕ × Ballot)) : Prop :=
  List.Forall₂ (fun b b' : ℕ × Ballot => b.1 = b'.1 ∧ b.2.votingPower = b'.2.votingPower ∧
    (b.2.vote = b'.2.vote ∨ b.2.vote = .unspecified)) bs bs'

theorem BallotsAdvance.totalPower_eq {bs bs' : List (ℕ × Ballot)} (h : BallotsAdvance bs bs') :
    Ballots.totalPower bs' = Ballots.totalPower bs := by
  induction h with
  | nil => rfl
  | cons hb _ ih => simp [hb.2.1, ih]

/-- Calls of `recompute_tally` at non-decreasing times, between ballot changes. -/
inductive TallyRun (vp : ℕ) (p₀ : ProposalData) : ProposalData → ℕ → Prop
  | nil : TallyRun vp p₀ p₀ p₀.proposalTimestampSeconds
  | recompute {p : ProposalData} {t : ℕ} (now : ℕ) (hrun : TallyRun vp p₀ p t) (ht : t ≤ now) :
      TallyRun vp p₀ (p.recomputeTally now vp) now
  | vote {p : ProposalData} {t : ℕ} {bs : List (ℕ × Ballot)} (hrun : TallyRun vp p₀ p t)
      (hadvance : BallotsAdvance p.ballots bs) : TallyRun vp p₀ { p with ballots := bs } t

/-- What a run keeps: the creation time, the total power, and a bounded deadline. -/
structure TallyRun.Inv (vp D₀ : ℕ) (p₀ p : ProposalData) : Prop where
  timestamp : p.proposalTimestampSeconds = p₀.proposalTimestampSeconds
  totalPower : Ballots.totalPower p.ballots = Ballots.totalPower p₀.ballots
  deadline : ∃ d, p.waitForQuietState = some d ∧
    d ≤ max D₀ (p₀.proposalTimestampSeconds + vp + 2 * waitForQuietDeadlineIncreaseSeconds)

theorem TallyRun.inv {vp D₀ : ℕ} {p₀ p : ProposalData} {t : ℕ} (hrun : TallyRun vp p₀ p t)
    (hD₀ : p₀.waitForQuietState = some D₀) (hfit : Ballots.totalPower p₀.ballots < u64Max) :
    TallyRun.Inv vp D₀ p₀ p := by
  induction hrun with
  | nil => exact ⟨rfl, rfl, D₀, hD₀, le_max_left _ _⟩
  | @recompute p t now _ _ ih =>
    obtain ⟨hts, htotal, d, hd, hle⟩ := ih
    obtain ⟨hballots, hts', -, hd'⟩ := ProposalData.recomputeTally_eq now vp hd (htotal ▸ hfit)
    have hB : p.proposalTimestampSeconds + vp + 2 * waitForQuietDeadlineIncreaseSeconds ≤
        max D₀ (p₀.proposalTimestampSeconds + vp + 2 * waitForQuietDeadlineIncreaseSeconds) := by
      rw [hts]
      exact le_max_right _ _
    refine ⟨hts'.trans hts, hballots ▸ htotal, _, hd', ?_⟩
    split
    · exact (movedDeadline_le now _ _ hle hB).2
    · exact hle
  | vote _ hadvance ih => exact ⟨ih.timestamp, hadvance.totalPower_eq.trans ih.totalPower, ih.deadline⟩

/-- **Wait for quiet over every run**: `recompute_tally` tallies exactly, and the deadline never
goes down, stays within `max D₀ (ts + vp + 2 W)` and moves only when the lead flipped. -/
theorem waitForQuiet_run {vp D₀ now t : ℕ} {p₀ p : ProposalData} (hrun : TallyRun vp p₀ p t)
    (hD₀ : p₀.waitForQuietState = some D₀) (hfit : Ballots.totalPower p₀.ballots < u64Max) :
    (∃ tally, (p.recomputeTally now vp).latestTally = some tally ∧
      tally.yes = Ballots.power .yes p.ballots ∧ tally.no = Ballots.power .no p.ballots ∧
      tally.total = Ballots.totalPower p.ballots) ∧
    ∃ d d', p.waitForQuietState = some d ∧ (p.recomputeTally now vp).waitForQuietState = some d' ∧
      d ≤ d' ∧
      d' ≤ max D₀ (p₀.proposalTimestampSeconds + vp + 2 * waitForQuietDeadlineIncreaseSeconds) ∧
      (d' ≠ d → ∃ oldTally, p.latestTally = some oldTally ∧
        Moves now d oldTally (tallyOf now p.ballots)) ∧
      ∀ oldTally, p.latestTally = some oldTally → Moves now d oldTally (tallyOf now p.ballots) →
        d' = max d (satAdd now (satAdd waitForQuietDeadlineIncreaseSeconds (vp / 2) -
          (now - p₀.proposalTimestampSeconds) / 2)) := by
  obtain ⟨hts, htotal, d, hd, hle⟩ := hrun.inv hD₀ hfit
  obtain ⟨-, -, htally, hd'⟩ := ProposalData.recomputeTally_eq now vp hd (htotal ▸ hfit)
  refine ⟨htally, d, _, hd, hd', ?_⟩
  have hB : p.proposalTimestampSeconds + vp + 2 * waitForQuietDeadlineIncreaseSeconds ≤
      max D₀ (p₀.proposalTimestampSeconds + vp + 2 * waitForQuietDeadlineIncreaseSeconds) := by
    rw [hts]
    exact le_max_right _ _
  cases hlatest : p.latestTally with
  | none => exact ⟨le_rfl, hle, fun hne => absurd rfl hne, fun _ h => nomatch h⟩
  | some oldTally =>
    obtain ⟨hgrow, hbound⟩ := movedDeadline_le now oldTally (tallyOf now p.ballots) hle hB
    refine ⟨hgrow, hbound, fun hne => ⟨oldTally, rfl, ?_⟩, ?_⟩
    · by_contra hstay
      exact hne (by simp only [movedDeadline, if_neg hstay])
    · intro oldTally' hold hmove
      cases Option.some.inj hold
      simp only [movedDeadline, if_pos hmove, hts]

/-- A proposal whose latest tally led for no and whose ballots lead for yes, no majority. -/
def quietProposal : ProposalData :=
  ⟨0, [(1, ⟨.yes, 2⟩), (2, ⟨.no, 1⟩), (3, ⟨.unspecified, 2⟩)], some ⟨0, 0, 3, 5⟩,
    some (4 * 24 * 60 * 60)⟩

/-- The flip one second in moves the deadline of four days by that second. -/
example : (quietProposal.recomputeTally 1 (4 * 24 * 60 * 60)).waitForQuietState =
    some (4 * 24 * 60 * 60 + 1) := by
  decide

/-- A run of `quietProposal`: the flip at one second moves the deadline, voter 3 then votes no, and
the tally at two seconds sums the new vote, with the deadline still within its bound. -/
theorem waitForQuiet_run_after_vote :
    let p₁ := quietProposal.recomputeTally 1 (4 * 24 * 60 * 60)
    let p₂ : ProposalData := { p₁ with ballots := [(1, ⟨.yes, 2⟩), (2, ⟨.no, 1⟩), (3, ⟨.no, 2⟩)] }
    TallyRun (4 * 24 * 60 * 60) quietProposal p₂ 1 ∧
    (∃ tally, (p₂.recomputeTally 2 (4 * 24 * 60 * 60)).latestTally = some tally ∧
      tally.yes = 2 ∧ tally.no = 3 ∧ tally.total = 5) ∧
    ∃ d d', p₂.waitForQuietState = some d ∧
      (p₂.recomputeTally 2 (4 * 24 * 60 * 60)).waitForQuietState = some d' ∧ d ≤ d' ∧
      d' ≤ 4 * 24 * 60 * 60 + 2 * waitForQuietDeadlineIncreaseSeconds := by
  intro p₁ p₂
  -- voter 3's unspecified ballot is the one that changes
  have hadvance : BallotsAdvance p₁.ballots p₂.ballots :=
    .cons ⟨rfl, rfl, .inl rfl⟩ (.cons ⟨rfl, rfl, .inl rfl⟩ (.cons ⟨rfl, rfl, .inr rfl⟩ .nil))
  have hrun : TallyRun (4 * 24 * 60 * 60) quietProposal p₂ 1 :=
    (TallyRun.nil.recompute 1 (by decide)).vote hadvance
  obtain ⟨⟨tally, htally, hyes, hno, htotal⟩, d, d', hd, hd', hle, hbound, -⟩ :=
    @waitForQuiet_run _ _ 2 _ _ _ hrun rfl (by decide)
  refine ⟨hrun, ⟨tally, htally, hyes.trans ?_, hno.trans ?_, htotal.trans ?_⟩, d, d', hd, hd', hle,
    hbound.trans ?_⟩ <;> decide

end IC.Nns
