import InternetComputer.Ledger.Dedup

/-!
# Notifications between awaits

`notify` of the canister runs in two segments around its call of `transaction_notification`,
and any other call may run in between. A `Canister` is the ledger, the calls of `notify` waiting
at that await and the time; `Canister.step` runs one segment, a panic rolling it back.

* `purgeLoop_blocksNotified`: a purge forgets a notification only through an entry of the
  window older than the window and the drift;
* `Ledger.Linked`: an entry of the window has the timestamp of the block its hash is recorded
  under; `Ledger.Forgets`: what a segment does to the notifications;
* `NotifyInv`, kept by every segment (`NotifyInv.step`) and so by every run;
* **`notify_once_per_block`**.
-/

namespace IC.LedgerCanister

variable {α : Type} [LinearOrder α] {H : Hashing α}

/-- `Blockchain::get`: a block the ledger keeps, by height. -/
def Blockchain.get (bc : Blockchain α) (height : ℕ) : Option (Block α) :=
  if height < bc.numArchivedBlocks then none else bc.blocks[height - bc.numArchivedBlocks]?

omit [LinearOrder α] in
theorem Blockchain.get_append {bc bc' : Blockchain α} {new : List (Block α)}
    (hblocks : bc'.blocks = bc.blocks ++ new)
    (harchived : bc'.numArchivedBlocks = bc.numArchivedBlocks) {height : ℕ} {b : Block α}
    (h : bc.get height = some b) : bc'.get height = some b := by
  unfold Blockchain.get at h ⊢
  rw [hblocks, harchived]
  split_ifs at h ⊢
  rw [List.getElem?_append_left (List.getElem?_eq_some_iff.mp h).1]
  exact h

namespace Ledger

variable {l l' : Ledger α} {now : TimeStamp}

/-- `change_notification_state` at `now` takes a block of timestamp `ts` within its window. -/
def InWindow (l : Ledger α) (ts now : TimeStamp) : Prop :=
  now.nanos < ts.nanos + l.transactionWindow ∧ ts.nanos + l.transactionWindow < 2 ^ 64

instance (l : Ledger α) (ts now : TimeStamp) : Decidable (l.InWindow ts now) :=
  inferInstanceAs (Decidable (_ ∧ _))

/-! ## `change_notification_state` -/

omit [LinearOrder α] in
/-- **What `change_notification_state` does**: refuse and change nothing, or set the state. -/
theorem changeNotificationState_cases {height : ℕ} {ts : TimeStamp} {s : Bool}
    {r : Except String Unit} (h : l.changeNotificationState height ts s now = .ok (r, l')) :
    (r ≠ .ok () ∧ l' = l) ∨
      (r = .ok () ∧ l.InWindow ts now ∧ (height ∈ l.blocksNotified ↔ s = false) ∧
        l' = { l with blocksNotified :=
          if s then insert height l.blocksNotified else l.blocksNotified.erase height }) := by
  unfold changeNotificationState at h
  obtain ⟨expiry, hexpiry, h⟩ := Except.bind_eq_ok.mp h
  rw [TimeStamp.addDuration_eq_ok_iff] at hexpiry
  dsimp only at h
  split_ifs at h with hold
  · obtain ⟨rfl, rfl⟩ := Prod.mk.inj (Except.pure_eq_ok.mp h)
    exact .inl ⟨by simp, rfl⟩
  have hin : l.InWindow ts now := by
    rw [TimeStamp.le_iff_nanos_le, not_le] at hold
    exact ⟨by omega, hexpiry.1⟩
  -- the four cases of the old and the new state
  split at h <;> obtain ⟨rfl, rfl⟩ := Prod.mk.inj (Except.pure_eq_ok.mp h) <;> rename_i hn _ <;>
    simp only [decide_eq_true_eq, decide_eq_false_iff_not] at hn
  · exact .inl ⟨by simp, rfl⟩
  · exact .inl ⟨by simp, rfl⟩
  · exact .inr ⟨rfl, hin, by simpa using hn, rfl⟩
  · exact .inr ⟨rfl, hin, by simpa using hn, rfl⟩

omit [LinearOrder α] in
theorem changeNotificationState_eq_ok {height : ℕ} {ts : TimeStamp} {s : Bool}
    (hin : l.InWindow ts now) (hs : height ∈ l.blocksNotified ↔ s = false) :
    l.changeNotificationState height ts s now = .ok (.ok (),
      { l with blocksNotified :=
          if s then insert height l.blocksNotified else l.blocksNotified.erase height }) := by
  obtain ⟨expiry, hexpiry, hnanos⟩ := TimeStamp.addDuration_ok hin.2
  have hlater : ¬ expiry ≤ now := by
    rw [TimeStamp.le_iff_nanos_le, not_le, hnanos]
    exact hin.1
  unfold changeNotificationState
  rw [hexpiry, Except.ok_bind]
  dsimp only
  rw [if_neg hlater]
  cases s <;> by_cases hn : height ∈ l.blocksNotified <;> simp_all

omit [LinearOrder α] in
theorem changeNotificationState_refuses {height : ℕ} {ts : TimeStamp} {s : Bool}
    {r : Except String Unit} (hs : l.InWindow ts now → (height ∈ l.blocksNotified ↔ s = true))
    (h : l.changeNotificationState height ts s now = .ok (r, l')) : r ≠ .ok () := by
  rcases changeNotificationState_cases h with ⟨hr, -⟩ | ⟨-, hin, hn, -⟩
  · exact hr
  · have := (hs hin).symm.trans hn
    cases s <;> simp at this

/-! ## The purge and the notifications -/

omit [LinearOrder α] in
/-- **A purge forgets the notification of a block only through an entry of the window older
than the window and the drift whose hash is recorded under the block's height.** -/
theorem purgeLoop_blocksNotified {cnt n : ℕ} {l₀ l₁ : Ledger α}
    (h : l₀.purgeLoop now cnt = .ok (n, l₁)) :
    ∀ bh ∈ l₀.blocksNotified, bh ∉ l₁.blocksNotified →
      ∃ info ∈ l₀.transactionsByHeight,
        l₀.transactionsByHash.lookup info.transactionHash = some bh ∧
        info.blockTimestamp.nanos + l₀.transactionWindow + permittedDrift < now.nanos := by
  fun_induction purgeLoop now cnt l₀ with
  | case1 cnt l hq =>
    obtain ⟨-, rfl⟩ := Prod.mk.inj (Except.ok.inj h)
    exact fun bh hbh hbh' => absurd hbh hbh'
  | case2 cnt l info rest hq ih =>
    obtain ⟨t, ht, h⟩ := Except.bind_eq_ok.mp h
    obtain ⟨t', ht', h⟩ := Except.bind_eq_ok.mp h
    rw [TimeStamp.addDuration_eq_ok_iff] at ht ht'
    dsimp only at h ih
    intro bh hbh hbh'
    split_ifs at h with hnow hnone hcnt
    · obtain ⟨-, rfl⟩ := Prod.mk.inj (Except.ok.inj h)
      exact absurd hbh hbh'
    all_goals
      have hold : info.blockTimestamp.nanos + l.transactionWindow + permittedDrift < now.nanos := by
        simp only [ge_iff_le, TimeStamp.le_iff_nanos_le, not_le] at hnow
        omega
      obtain ⟨removed, hremoved⟩ :
          ∃ removed, l.transactionsByHash.lookup info.transactionHash = some removed := by
        cases hlook : l.transactionsByHash.lookup info.transactionHash
        · simp [hlook] at hnone
        · exact ⟨_, rfl⟩
      have hfront : info ∈ l.transactionsByHeight := hq ▸ List.mem_cons_self
    · -- the cap is reached: the front entry is the only one purged
      obtain ⟨-, rfl⟩ := Prod.mk.inj (Except.ok.inj h)
      simp only [hremoved, Finset.mem_erase, not_and_or, not_not] at hbh'
      rcases hbh' with rfl | hbh'
      · exact ⟨info, hfront, hremoved, hold⟩
      · exact absurd hbh hbh'
    · by_cases hkept : bh = removed
      · exact ⟨info, hfront, hkept ▸ hremoved, hold⟩
      · obtain ⟨info', hinfo', hlook, hold'⟩ :=
          ih h bh (by simpa [hremoved, Finset.mem_erase, hkept] using hbh) hbh'
        -- an entry behind the front keeps its hash in `transactions_by_hash`
        have hne : info'.transactionHash ≠ info.transactionHash := by
          rintro heq
          rw [heq, AList.lookup_erase] at hlook
          cases hlook
        rw [AList.lookup_erase_ne hne] at hlook
        exact ⟨info', hq ▸ List.mem_cons_of_mem _ hinfo', hlook, hold'⟩

/-! ## The window and the chain -/

/-- Each entry of the window has the timestamp of the block its hash is recorded under. -/
def Linked (l : Ledger α) : Prop :=
  ∀ info ∈ l.transactionsByHeight, ∀ bh,
    l.transactionsByHash.lookup info.transactionHash = some bh →
      (l.blockchain.get bh).map Block.timestamp = some info.blockTimestamp

omit [LinearOrder α] in
theorem Linked.purge (hl : l.Linked) {n : ℕ} (h : l.purgeOldTransactions now = .ok (n, l')) :
    l'.Linked := by
  obtain ⟨k, -, -, hheight, hhash, -⟩ := purgeLoop_spec h
  obtain ⟨-, hchain, -⟩ := purgeOldTransactions_frame h
  intro info hinfo bh hbh
  rw [hheight] at hinfo
  rw [hhash] at hbh
  split_ifs at hbh
  rw [hchain]
  exact hl info (List.mem_of_mem_drop hinfo) bh hbh

/-- **`add_payment_with_timestamp` keeps the window linked to the chain**: an admitted hash is new,
and its block is appended at the height its hash is recorded under. -/
theorem Linked.addPaymentWithTimestamp (hl : l.Linked) {t : TimeStamp} {log : List (Admitted α)}
    (hw : WindowOk H l t log) {c : PaymentCall α} (ht : t ≤ c.now)
    {r : Except PaymentError (ℕ × ℕ)}
    (h : l.addPaymentWithTimestamp H c.memo c.payment c.createdAtTime c.now = .ok (r, l')) :
    l'.Linked := by
  obtain ⟨n, l₁, hpurge, -, -, harchived, hcases⟩ := addPaymentWithTimestamp_cases h
  have hl₁ := hl.purge hpurge
  obtain ⟨-, hchain, -⟩ := purgeOldTransactions_frame hpurge
  intro info hinfo bh hbh
  rcases hcases with hrefused | hadmitted
  · obtain ⟨_, hhash, hheight, hbc⟩ := hrefused
    rw [hheight] at hinfo
    rw [hhash] at hbh
    rw [hbc, ← hchain]
    exact hl₁ info hinfo bh hbh
  obtain ⟨height, hash, -, -, -, hnone, rfl, hhash, hheight, new, hnew⟩ := hadmitted
  rw [hheight, List.mem_append, List.mem_singleton] at hinfo
  rw [hhash] at hbh
  rcases hinfo with hinfo | rfl
  · -- an older entry: its hash is not the new one, which the purged window does not hold
    have hkeys := (hw.purge ht hpurge).indexed.keys (H.transaction c.transaction)
    rw [hnone] at hkeys
    have hne : info.transactionHash ≠ H.transaction c.transaction := fun heq =>
      absurd (hkeys.mpr (heq ▸ List.mem_map_of_mem hinfo)) (by simp)
    rw [AList.lookup_insert_ne hne] at hbh
    obtain ⟨b, hb, hts⟩ := Option.map_eq_some_iff.mp (hl₁ info hinfo bh hbh)
    rw [hchain] at hb
    rw [Blockchain.get_append hnew harchived hb]
    exact congrArg some hts
  · rw [AList.lookup_insert, Option.some.injEq] at hbh
    subst hbh
    simp [Blockchain.get, hnew, harchived, Block.newFromTransaction]

/-- What a segment does to the ledger that the notifications depend on: the window stays, the
chain only grows, and a notification is forgotten only for a block older than the window and
the drift. -/
structure Forgets (l l' : Ledger α) (now : TimeStamp) : Prop where
  window : l'.transactionWindow = l.transactionWindow
  archived : l'.blockchain.numArchivedBlocks = l.blockchain.numArchivedBlocks
  blocks : ∃ new, l'.blockchain.blocks = l.blockchain.blocks ++ new
  forgets : ∀ bh ∈ l.blocksNotified, bh ∉ l'.blocksNotified → ∃ b, l.blockchain.get bh = some b ∧
    b.timestamp.nanos + l.transactionWindow + permittedDrift < now.nanos

omit [LinearOrder α] in
theorem Forgets.get (hf : Forgets l l' now) {height : ℕ} {b : Block α}
    (h : l.blockchain.get height = some b) : l'.blockchain.get height = some b :=
  have ⟨_, hnew⟩ := hf.blocks
  Blockchain.get_append hnew hf.archived h

omit [LinearOrder α] in
theorem Forgets.insert {height : ℕ}
    (hf : Forgets { l with blocksNotified := insert height l.blocksNotified } l' now) :
    Forgets l l' now where
  window := hf.window
  archived := hf.archived
  blocks := hf.blocks
  forgets bh hbh hbh' := hf.forgets bh (Finset.mem_insert_of_mem hbh) hbh'

omit [LinearOrder α] in
theorem Forgets.refl : Forgets l l now :=
  ⟨rfl, rfl, ⟨[], by simp⟩, fun _ hbh hbh' => absurd hbh hbh'⟩

theorem addPaymentWithTimestamp_forgets (hl : l.Linked) {c : PaymentCall α}
    {r : Except PaymentError (ℕ × ℕ)}
    (h : l.addPaymentWithTimestamp H c.memo c.payment c.createdAtTime c.now = .ok (r, l')) :
    Forgets l l' c.now := by
  obtain ⟨n, l₁, hpurge, hnotified, hwindow, harchived, hcases⟩ := addPaymentWithTimestamp_cases h
  refine ⟨hwindow, harchived, ?_, fun bh hbh hbh' => ?_⟩
  · rcases hcases with ⟨-, -, -, hbc⟩ | ⟨-, -, -, -, -, -, -, -, -, new, hnew⟩
    · exact ⟨[], by rw [hbc, List.append_nil]⟩
    · exact ⟨_, hnew⟩
  · rw [hnotified] at hbh'
    obtain ⟨info, hinfo, hlook, hold⟩ := purgeLoop_blocksNotified hpurge bh hbh hbh'
    obtain ⟨b, hb, hts⟩ := Option.map_eq_some_iff.mp (hl info hinfo bh hlook)
    exact ⟨b, hb, hts ▸ hold⟩

/-- The block at `height` has timestamp `ts`, and is marked notified while in its window. -/
def Marked (l : Ledger α) (now : TimeStamp) (height : ℕ) (ts : TimeStamp) : Prop :=
  (l.blockchain.get height).map Block.timestamp = some ts ∧
    (l.InWindow ts now → height ∈ l.blocksNotified)

omit [LinearOrder α] in
/-- **A segment keeps a block marked**, up to any later time. -/
theorem Marked.forgets {height : ℕ} {ts now' : TimeStamp} (hm : l.Marked now height ts)
    (hf : Forgets l l' now) (hnow : now ≤ now') : l'.Marked now' height ts := by
  obtain ⟨b, hb, rfl⟩ := Option.map_eq_some_iff.mp hm.1
  refine ⟨by rw [hf.get hb]; rfl, fun hin => ?_⟩
  rw [InWindow, hf.window] at hin
  have hnow' : now.nanos ≤ now'.nanos := hnow
  have hn := hm.2 ⟨by omega, hin.2⟩
  by_contra hout
  obtain ⟨b', hb', hold⟩ := hf.forgets height hn hout
  obtain rfl : b' = b := Option.some.inj (hb'.symm.trans hb)
  omega

omit [LinearOrder α] in
theorem Marked.erase {height height' : ℕ} {ts : TimeStamp} (hm : l.Marked now height ts)
    (hne : height ≠ height') :
    Marked { l with blocksNotified := l.blocksNotified.erase height' } now height ts :=
  ⟨hm.1, fun hin => Finset.mem_erase.mpr ⟨hne, hm.2 hin⟩⟩

/-- A block marked in its window makes `notify` panic. -/
theorem notify_error_of_marked {height : ℕ} {ts : TimeStamp} {maxFee : Tokens} {from_ to_ : α}
    (hm : l.InWindow ts now → height ∈ l.blocksNotified) :
    ∃ e, l.notify H height ts maxFee from_ to_ now = .error e := by
  rcases hnotify : l.notify H height ts maxFee from_ to_ now with e | l'
  · exact ⟨e, rfl⟩
  unfold Ledger.notify at hnotify
  split_ifs at hnotify
  · cases hnotify
  obtain ⟨⟨r, l₁⟩, hchange, hnotify⟩ := Except.bind_eq_ok.mp hnotify
  obtain ⟨u, hr, -⟩ := Except.bind_eq_ok.mp hnotify
  rw [Rust.expectOk_eq_ok] at hr
  exact absurd hr (changeNotificationState_refuses (fun hin => iff_of_true (hm hin) rfl) hchange)

/-- **The first segment of `notify`** marks a block in its window not yet marked. -/
theorem notify_eq_ok {height : ℕ} {ts : TimeStamp} {maxFee : Tokens} {from_ to_ : α}
    (h : l.notify H height ts maxFee from_ to_ now = .ok l') :
    l.InWindow ts now ∧ height ∉ l.blocksNotified ∧ ∃ c : PaymentCall α, c.now = now ∧
      ∃ hash, ({ l with blocksNotified := insert height l.blocksNotified } : Ledger α).addPaymentWithTimestamp
        H c.memo c.payment c.createdAtTime c.now = .ok (.ok hash, l') := by
  unfold Ledger.notify at h
  split_ifs at h
  · cases h
  obtain ⟨⟨r₁, l₁⟩, hchange, h⟩ := Except.bind_eq_ok.mp h
  obtain ⟨u, hr₁, h⟩ := Except.bind_eq_ok.mp h
  obtain ⟨⟨r₂, l₂⟩, hpay, h⟩ := Except.bind_eq_ok.mp h
  obtain ⟨hash, hr₂, h⟩ := Except.bind_eq_ok.mp h
  obtain rfl := Except.pure_eq_ok.mp h
  rw [Rust.expectOk_eq_ok] at hr₁ hr₂
  subst hr₁ hr₂
  rcases changeNotificationState_cases hchange with ⟨hr, -⟩ | ⟨-, hin, hn, rfl⟩
  · exact absurd rfl hr
  · exact ⟨hin, by simpa using hn, ⟨_, _, none, now⟩, rfl, hash, hpay⟩

/-- **The first segment of `notify` keeps the window and its link to the chain, and leaves its
block marked**: the purge of its transfer of zero tokens does not forget a block in its
window. -/
theorem notify_forgets (hl : l.Linked) {t : TimeStamp} {log : List (Admitted α)}
    (hw : WindowOk H l t log) (ht : t ≤ now) {height : ℕ} {ts : TimeStamp} {maxFee : Tokens}
    {from_ to_ : α} (hget : (l.blockchain.get height).map Block.timestamp = some ts)
    (h : l.notify H height ts maxFee from_ to_ now = .ok l') :
    l.InWindow ts now ∧ height ∉ l.blocksNotified ∧ Forgets l l' now ∧
      l'.Marked now height ts ∧ l'.Linked ∧ ∃ log', WindowOk H l' now log' := by
  obtain ⟨hin, hn, c, rfl, hash, hpay⟩ := notify_eq_ok h
  -- the mark changes neither the window nor the chain
  have hl₁ : Linked { l with blocksNotified := insert height l.blocksNotified } := hl
  have hw₁ : WindowOk H { l with blocksNotified := insert height l.blocksNotified } t log :=
    hw.congr rfl rfl rfl rfl
  have hf := addPaymentWithTimestamp_forgets hl₁ hpay
  have hmarked : Marked { l with blocksNotified := insert height l.blocksNotified } c.now
      height ts := ⟨hget, fun _ => Finset.mem_insert_self _ _⟩
  exact ⟨hin, hn, hf.insert, hmarked.forgets hf le_rfl, hl₁.addPaymentWithTimestamp hw₁ ht hpay,
    _, hw₁.addPaymentWithTimestamp ht hpay⟩

end Ledger

/-! ## The canister -/

/-- The canister between segments: the ledger, the waiting calls of `notify`, and the time. -/
structure Canister (α : Type) where
  ledger : Ledger α
  awaiting : List (ℕ × TimeStamp)
  now : TimeStamp

/-- A segment of an update call between its awaits, or a tick of the clock. -/
inductive Event (α : Type) where
  | tick (now : TimeStamp)
  /-- `send_pb`, `send_dfx` and `transfer`: a call of `add_payment`. -/
  | send (memo : Memo) (payment : Operation α) (createdAtTime : Option TimeStamp)
  /-- `notify` up to its call of `transaction_notification`. -/
  | notify (blockHeight : ℕ) (maxFee : Tokens) (expectedFrom expectedTo : α)
  /-- The rest of `notify`, once the notified canister accepted or rejected. -/
  | reply (blockHeight : ℕ) (blockTimestamp : TimeStamp) (accepted : Bool)

namespace Canister

/-- The segment of an event, or `none` for an event that cannot come; a panic rolls it back. -/
def step (H : Hashing α) (c : Canister α) : Event α → Option (Canister α)
  | .tick now => if c.now ≤ now then some { c with now } else none
  | .send memo payment createdAtTime =>
    match c.ledger.addPaymentWithTimestamp H memo payment createdAtTime c.now with
    | .ok (_, ledger) => some { c with ledger }
    | .error _ => some c
  | .notify blockHeight maxFee expectedFrom expectedTo =>
    match c.ledger.blockchain.get blockHeight with
    | none => some c
    | some block =>
      -- the block must be a transfer between the accounts the caller names
      match block.transaction.operation with
      | .transfer from_ to_ _ _ =>
        if (from_, to_) ≠ (expectedFrom, expectedTo) then some c
        else
          match c.ledger.notify H blockHeight block.timestamp maxFee expectedFrom expectedTo
              c.now with
          | .ok ledger =>
            some { c with ledger, awaiting := (blockHeight, block.timestamp) :: c.awaiting }
          | .error _ => some c
      | _ => some c
  | .reply blockHeight blockTimestamp accepted =>
    if (blockHeight, blockTimestamp) ∈ c.awaiting then
      let c := { c with awaiting := c.awaiting.erase (blockHeight, blockTimestamp) }
      if accepted then some c
      else
        -- `let _ = change_notification_state(..)`: a refusal is ignored, a panic rolls back
        match c.ledger.changeNotificationState blockHeight blockTimestamp false c.now with
        | .ok (_, ledger) => some { c with ledger }
        | .error _ => some c
    else none

variable {c c' : Canister α} {e : Event α}

/-- **What a segment does**: a panic rolls it back; otherwise it is a tick, a payment, the first
segment of `notify`, or a reply, which on a reject runs `change_notification_state`. -/
theorem step_cases (h : c.step H e = some c') :
    (c' = c ∧ ∀ height ts, e ≠ .reply height ts true) ∨
    (∃ now, e = .tick now ∧ c.now ≤ now ∧ c' = { c with now }) ∨
    (∃ memo payment createdAtTime r l, e = .send memo payment createdAtTime ∧
      c.ledger.addPaymentWithTimestamp H memo payment createdAtTime c.now = .ok (r, l) ∧
      c' = { c with ledger := l }) ∨
    (∃ height maxFee from_ to_ b l, e = .notify height maxFee from_ to_ ∧
      c.ledger.blockchain.get height = some b ∧
      c.ledger.notify H height b.timestamp maxFee from_ to_ c.now = .ok l ∧
      c' = { c with ledger := l, awaiting := (height, b.timestamp) :: c.awaiting }) ∨
    (∃ height ts, e = .reply height ts true ∧ (height, ts) ∈ c.awaiting ∧
      c' = { c with awaiting := c.awaiting.erase (height, ts) }) ∨
    (∃ height ts l, e = .reply height ts false ∧ (height, ts) ∈ c.awaiting ∧
      (l = c.ledger ∨ ∃ r, c.ledger.changeNotificationState height ts false c.now = .ok (r, l)) ∧
      c' = { c with ledger := l, awaiting := c.awaiting.erase (height, ts) }) := by
  cases e with
  | tick now =>
    rw [step] at h
    split_ifs at h with hnow
    cases h
    exact .inr (.inl ⟨now, rfl, hnow, rfl⟩)
  | send memo payment createdAtTime =>
    rw [step] at h
    split at h <;> cases h
    · exact .inr (.inr (.inl ⟨_, _, _, _, _, rfl, ‹_›, rfl⟩))
    · exact .inl ⟨rfl, by simp⟩
  | notify height maxFee from_ to_ =>
    rw [step] at h
    split at h
    · cases h
      exact .inl ⟨rfl, by simp⟩
    rename_i b hb
    split at h
    · split_ifs at h
      · cases h
        exact .inl ⟨rfl, by simp⟩
      split at h <;> cases h
      · exact .inr (.inr (.inr (.inl ⟨_, _, _, _, b, _, rfl, hb, ‹_›, rfl⟩)))
      · exact .inl ⟨rfl, by simp⟩
    · cases h
      exact .inl ⟨rfl, by simp⟩
  | reply height ts accepted =>
    rw [step] at h
    by_cases hmem : (height, ts) ∈ c.awaiting
    · rw [if_pos hmem] at h
      cases accepted
      · simp only [Bool.false_eq_true, ↓reduceIte] at h
        split at h <;> cases h
        · exact .inr (.inr (.inr (.inr (.inr ⟨height, ts, _, rfl, hmem, .inr ⟨_, ‹_›⟩, rfl⟩))))
        · exact .inr (.inr (.inr (.inr (.inr ⟨height, ts, _, rfl, hmem, .inl rfl, rfl⟩))))
      · cases h
        exact .inr (.inr (.inr (.inr (.inl ⟨height, ts, rfl, hmem, rfl⟩))))
    · rw [if_neg hmem] at h
      cases h

/-- The states of the canister after `init`, with the events that led to them. -/
inductive Reachable (H : Hashing α) : List (Event α) → Canister α → Prop
  | init {l : Ledger α} (initialValues : List (α × Tokens)) (mintingAccount : α)
      (timestamp : TimeStamp) (transactionWindow : Option Duration) (transferFee : Option Tokens)
      (h : Ledger.default.fromInit H initialValues mintingAccount timestamp transactionWindow
        transferFee = .ok l) : Reachable H [] ⟨l, [], timestamp⟩
  | step {es : List (Event α)} {c c' : Canister α} (e : Event α) (hc : Reachable H es c)
      (h : c.step H e = some c') : Reachable H (es ++ [e]) c'

/-- Events that run one after the other from a reachable state reach their result. -/
theorem Reachable.of_foldlM {es : List (Event α)} {c : Canister α} (hc : Reachable H es c) :
    ∀ {es' : List (Event α)} {c' : Canister α},
      es'.foldlM (fun c e => c.step H e) c = some c' → Reachable H (es ++ es') c'
  | [], _, h => by
    cases h
    simpa using hc
  | e :: es', _, h => by
    obtain ⟨c₁, h₁, hrest⟩ := Option.bind_eq_some_iff.mp h
    simpa using (hc.step e h₁).of_foldlM hrest

/-! ## The invariant -/

/-- The invariant of the notifications, given the events so far. -/
structure NotifyInv (H : Hashing α) (es : List (Event α)) (c : Canister α) : Prop where
  window : ∃ t log, c.ledger.WindowOk H t log ∧ t ≤ c.now
  linked : c.ledger.Linked
  /-- At most one call of `notify` per block waits for its notification. -/
  nodup : (c.awaiting.map Prod.fst).Nodup
  awaiting : ∀ p ∈ c.awaiting, c.ledger.Marked c.now p.1 p.2
  /-- A block whose notification was accepted has no call waiting, and stays marked. -/
  accepted : ∀ height ts, Event.reply height ts true ∈ es →
    height ∉ c.awaiting.map Prod.fst ∧ c.ledger.Marked c.now height ts

variable {es : List (Event α)}

theorem notifyInv_init {l : Ledger α} {initialValues : List (α × Tokens)} {mintingAccount : α}
    {timestamp : TimeStamp} {transactionWindow : Option Duration} {transferFee : Option Tokens}
    (h : Ledger.default.fromInit H initialValues mintingAccount timestamp transactionWindow
      transferFee = .ok l) : NotifyInv H [] ⟨l, [], timestamp⟩ := by
  unfold Ledger.fromInit at h
  obtain ⟨l₁, hfold, h⟩ := Except.bind_eq_ok.mp h
  obtain rfl := Except.pure_eq_ok.mp h
  -- each initial balance is a mint at `timestamp`, from an empty window
  obtain ⟨⟨t, log, hw, ht⟩, hl⟩ := Except.foldlM_invariant
    (P := fun l : Ledger α => (∃ t log, l.WindowOk H t log ∧ t ≤ timestamp) ∧ l.Linked)
    initialValues (fun l₀ v _ l₂ ⟨⟨t, log, hw, ht⟩, hl⟩ hstep => by
      obtain ⟨⟨r, l₃⟩, hpay, hstep⟩ := Except.bind_eq_ok.mp hstep
      obtain ⟨-, -, hstep⟩ := Except.bind_eq_ok.mp hstep
      obtain rfl := Except.pure_eq_ok.mp hstep
      have hmint : l₀.addPaymentWithTimestamp H (PaymentCall.memo ⟨⟨0⟩, .mint v.1 v.2, none, timestamp⟩)
          (.mint v.1 v.2) none timestamp = .ok (r, l₃) := hpay
      exact ⟨⟨timestamp, _, hw.addPaymentWithTimestamp ht hmint, le_rfl⟩,
        hl.addPaymentWithTimestamp hw ht hmint⟩)
    ⟨⟨⟨0⟩, [], Ledger.windowOk_empty rfl rfl, Nat.zero_le _⟩, fun info hinfo => by
      simp [Ledger.default] at hinfo⟩ hfold
  exact ⟨⟨t, log, hw.congr rfl rfl rfl rfl, ht⟩, hl, List.nodup_nil, by simp, by simp⟩

theorem fst_not_mem_erase {ps : List (ℕ × TimeStamp)} {p : ℕ × TimeStamp}
    (hn : (ps.map Prod.fst).Nodup) (hp : p ∈ ps) : p.1 ∉ (ps.erase p).map Prod.fst :=
  (List.nodup_cons.mp (((List.perm_cons_erase hp).map Prod.fst).nodup_iff.mp hn)).1

omit [LinearOrder α] in
/-- **A segment changing only the ledger and old notifications keeps the invariant**. -/
theorem NotifyInv.ledger (hi : NotifyInv H es c) {l : Ledger α} {now : TimeStamp}
    (hf : c.ledger.Forgets l c.now) (hw : ∃ t log, l.WindowOk H t log ∧ t ≤ now)
    (hl : l.Linked) (hnow : c.now ≤ now) (he : ∀ height ts, e ≠ .reply height ts true) :
    NotifyInv H (es ++ [e]) { c with ledger := l, now } where
  window := hw
  linked := hl
  nodup := hi.nodup
  awaiting p hp := (hi.awaiting p hp).forgets hf hnow
  accepted height ts hacc := by
    rw [List.mem_append, List.mem_singleton] at hacc
    rcases hacc with hacc | hacc
    · exact ⟨(hi.accepted height ts hacc).1, (hi.accepted height ts hacc).2.forgets hf hnow⟩
    · exact absurd hacc.symm (he height ts)

/-- **The first segment of `notify` keeps the invariant**: its block was not marked before. -/
theorem NotifyInv.notify (hi : NotifyInv H es c) {height : ℕ} {maxFee : Tokens} {from_ to_ : α}
    {b : Block α} {l : Ledger α} (hb : c.ledger.blockchain.get height = some b)
    (h : c.ledger.notify H height b.timestamp maxFee from_ to_ c.now = .ok l) :
    NotifyInv H (es ++ [.notify height maxFee from_ to_])
      { c with ledger := l, awaiting := (height, b.timestamp) :: c.awaiting } := by
  obtain ⟨t, log, hw, ht⟩ := hi.window
  obtain ⟨hin, hn, hf, hmarked, hl, log', hw'⟩ :=
    Ledger.notify_forgets hi.linked hw ht (by rw [hb]; rfl) h
  have hfresh (ts : TimeStamp) (hm : c.ledger.Marked c.now height ts) : False := by
    obtain rfl : b.timestamp = ts := by simpa [hb] using hm.1
    exact hn (hm.2 hin)
  refine ⟨⟨c.now, log', hw', le_rfl⟩, hl, ?_, ?_, fun h' ts hacc => ?_⟩
  · rw [List.map_cons, List.nodup_cons]
    refine ⟨fun hmem => ?_, hi.nodup⟩
    obtain ⟨p, hp, rfl⟩ := List.mem_map.mp hmem
    exact hfresh p.2 (hi.awaiting p hp)
  · rintro p (_ | ⟨_, hp⟩)
    · exact hmarked
    · exact (hi.awaiting p hp).forgets hf le_rfl
  · rw [List.mem_append, List.mem_singleton] at hacc
    rcases hacc with hacc | hacc
    · obtain ⟨hnot, hm⟩ := hi.accepted h' ts hacc
      refine ⟨?_, hm.forgets hf le_rfl⟩
      rw [List.map_cons, List.mem_cons, not_or]
      exact ⟨fun heq => hfresh ts ((show h' = height from heq) ▸ hm), hnot⟩
    · cases hacc

omit [LinearOrder α] in
/-- **An accepted notification keeps the invariant**. -/
theorem NotifyInv.accept (hi : NotifyInv H es c) {height : ℕ} {ts : TimeStamp}
    (hmem : (height, ts) ∈ c.awaiting) :
    NotifyInv H (es ++ [.reply height ts true])
      { c with awaiting := c.awaiting.erase (height, ts) } where
  window := hi.window
  linked := hi.linked
  nodup := hi.nodup.sublist (List.erase_sublist.map _)
  awaiting p hp := hi.awaiting p (List.mem_of_mem_erase hp)
  accepted h' ts' hacc := by
    rw [List.mem_append, List.mem_singleton] at hacc
    rcases hacc with hacc | hacc
    · obtain ⟨hnot, hm⟩ := hi.accepted h' ts' hacc
      exact ⟨fun hmem' => hnot ((List.erase_sublist.map _).subset hmem'), hm⟩
    · cases hacc
      exact ⟨fst_not_mem_erase hi.nodup hmem, hi.awaiting _ hmem⟩

omit [LinearOrder α] in
/-- The ledger after a reject: as it was, or with the reply's block unmarked. -/
theorem reject_ledger {height : ℕ} {ts : TimeStamp} {l : Ledger α}
    (hl : l = c.ledger ∨ ∃ r, c.ledger.changeNotificationState height ts false c.now = .ok (r, l)) :
    l = c.ledger ∨ l = { c.ledger with blocksNotified := c.ledger.blocksNotified.erase height } := by
  rcases hl with rfl | ⟨r, hr⟩
  · exact .inl rfl
  rcases Ledger.changeNotificationState_cases hr with ⟨-, rfl⟩ | ⟨-, -, -, rfl⟩
  · exact .inl rfl
  · exact .inr rfl

omit [LinearOrder α] in
/-- **A rejected notification keeps the invariant**: it unmarks at most its own block. -/
theorem NotifyInv.reject (hi : NotifyInv H es c) {height : ℕ} {ts : TimeStamp} {l : Ledger α}
    (hmem : (height, ts) ∈ c.awaiting)
    (hl : l = c.ledger ∨ ∃ r, c.ledger.changeNotificationState height ts false c.now = .ok (r, l)) :
    NotifyInv H (es ++ [.reply height ts false])
      { c with ledger := l, awaiting := c.awaiting.erase (height, ts) } := by
  have hl' := reject_ledger hl
  have hkeep (h' : ℕ) (ts' : TimeStamp) (hne : h' ≠ height) (hm : c.ledger.Marked c.now h' ts') :
      l.Marked c.now h' ts' := by
    rcases hl' with rfl | rfl
    · exact hm
    · exact hm.erase hne
  obtain ⟨t, log, hw, ht⟩ := hi.window
  refine ⟨⟨t, log, ?_, ht⟩, ?_, hi.nodup.sublist (List.erase_sublist.map _), fun p hp => ?_,
    fun h' ts' hacc => ?_⟩
  · rcases hl' with rfl | rfl
    · exact hw
    · exact hw.congr rfl rfl rfl rfl
  · rcases hl' with rfl | rfl <;> exact hi.linked
  · have hne : p.1 ≠ height := by
      intro heq
      have hfst : p.1 ∈ (c.awaiting.erase (height, ts)).map Prod.fst := List.mem_map_of_mem hp
      rw [heq] at hfst
      exact fst_not_mem_erase hi.nodup hmem hfst
    exact hkeep p.1 p.2 hne (hi.awaiting p (List.mem_of_mem_erase hp))
  · rw [List.mem_append, List.mem_singleton] at hacc
    rcases hacc with hacc | hacc
    · obtain ⟨hnot, hm⟩ := hi.accepted h' ts' hacc
      have hne : h' ≠ height := by
        rintro rfl
        exact hnot (List.mem_map_of_mem (f := Prod.fst) hmem)
      exact ⟨fun hmem' => hnot ((List.erase_sublist.map _).subset hmem'), hkeep h' ts' hne hm⟩
    · cases hacc

/-- **Every segment keeps the invariant.** -/
theorem NotifyInv.step (hi : NotifyInv H es c) (h : c.step H e = some c') :
    NotifyInv H (es ++ [e]) c' := by
  obtain ⟨t, log, hw, ht⟩ := hi.window
  rcases step_cases h with ⟨rfl, he⟩ | ⟨now, rfl, hnow, rfl⟩ |
    ⟨memo, payment, createdAtTime, r, l, rfl, hpay, rfl⟩ |
    ⟨height, maxFee, from_, to_, b, l, rfl, hb, hnotify, rfl⟩ | ⟨height, ts, rfl, hmem, rfl⟩ |
    ⟨height, ts, l, rfl, hmem, hl, rfl⟩
  · exact hi.ledger .refl ⟨t, log, hw, ht⟩ hi.linked le_rfl he
  · exact hi.ledger .refl ⟨t, log, hw, ht.trans hnow⟩ hi.linked hnow (by simp)
  · have hpay' : c.ledger.addPaymentWithTimestamp H
        (PaymentCall.memo ⟨memo, payment, createdAtTime, c.now⟩) payment createdAtTime c.now =
          .ok (r, l) := hpay
    exact hi.ledger (Ledger.addPaymentWithTimestamp_forgets hi.linked hpay')
      ⟨c.now, _, hw.addPaymentWithTimestamp ht hpay', le_rfl⟩
      (hi.linked.addPaymentWithTimestamp hw ht hpay') le_rfl (by simp)
  · exact hi.notify hb hnotify
  · exact hi.accept hmem
  · exact hi.reject hmem hl

/-- **The run lemma**: every reachable state keeps the invariant. -/
theorem Reachable.notifyInv (hc : Reachable H es c) : NotifyInv H es c := by
  induction hc with
  | init _ _ _ _ _ h => exact notifyInv_init h
  | step e _ h ih => exact ih.step h

theorem step_notify_eq_self {height : ℕ} {maxFee : Tokens} {from_ to_ : α} {b : Block α}
    (hb : c.ledger.blockchain.get height = some b)
    (he : ∃ e, c.ledger.notify H height b.timestamp maxFee from_ to_ c.now = .error e) :
    c.step H (.notify height maxFee from_ to_) = some c := by
  obtain ⟨e, he⟩ := he
  rw [step, hb]
  dsimp only
  split
  · split_ifs
    · rfl
    · rw [he]
  · rfl

/-- **A reject in its block's window unmarks the block.** -/
theorem NotifyInv.reject_unmarks (hi : NotifyInv H es c) {height : ℕ} {ts : TimeStamp}
    (hmem : (height, ts) ∈ c.awaiting) (hin : c.ledger.InWindow ts c.now)
    (h : c.step H (.reply height ts false) = some c') :
    c'.ledger = { c.ledger with blocksNotified := c.ledger.blocksNotified.erase height } := by
  have hn : height ∈ c.ledger.blocksNotified := (hi.awaiting _ hmem).2 hin
  rw [Canister.step, if_pos hmem] at h
  simp only [Bool.false_eq_true, ↓reduceIte] at h
  rw [Ledger.changeNotificationState_eq_ok hin (iff_of_true hn rfl)] at h
  cases h
  rfl

/-- **A segment other than a reject forgets a notification only of an old block.** -/
theorem NotifyInv.step_forgets (hi : NotifyInv H es c) (h : c.step H e = some c') {bh : ℕ}
    (hbh : bh ∈ c.ledger.blocksNotified) (hbh' : bh ∉ c'.ledger.blocksNotified) :
    (∃ ts, e = .reply bh ts false) ∨ c'.ledger.transactionWindow = c.ledger.transactionWindow ∧
      ∃ b, c.ledger.blockchain.get bh = some b ∧
        b.timestamp.nanos + c.ledger.transactionWindow + permittedDrift < c.now.nanos := by
  obtain ⟨t, log, hw, ht⟩ := hi.window
  rcases step_cases h with ⟨rfl, -⟩ | ⟨now, rfl, -, rfl⟩ |
    ⟨memo, payment, createdAtTime, r, l, rfl, hpay, rfl⟩ |
    ⟨height, maxFee, from_, to_, b, l, rfl, hb, hnotify, rfl⟩ | ⟨height, ts, rfl, -, rfl⟩ |
    ⟨height, ts, l, rfl, -, hl, rfl⟩
  · exact absurd hbh hbh'
  · exact absurd hbh hbh'
  · have hf := Ledger.addPaymentWithTimestamp_forgets hi.linked
      (c := ⟨memo, payment, createdAtTime, c.now⟩) hpay
    exact .inr ⟨hf.window, hf.forgets bh hbh hbh'⟩
  · obtain ⟨-, -, hf, -⟩ := Ledger.notify_forgets hi.linked hw ht (by rw [hb]; rfl) hnotify
    exact .inr ⟨hf.window, hf.forgets bh hbh hbh'⟩
  · exact absurd hbh hbh'
  · -- a reject unmarks its own block only
    rcases reject_ledger hl with rfl | rfl
    · exact absurd hbh hbh'
    · have hbh_eq : bh = height := by simpa [hbh] using hbh'
      exact .inl ⟨ts, hbh_eq ▸ rfl⟩

end Canister

/-- What it means for a state that `notify` succeeds at most once per block. -/
structure NotifiesOnce (H : Hashing α) (es : List (Event α)) (c : Canister α) : Prop where
  /-- At most one call of `notify` per block waits for its notification. -/
  awaitingOnce : (c.awaiting.map Prod.fst).Nodup
  /-- Once the notification of a block was accepted, every later `notify` of it panics. -/
  acceptedOnce : ∀ height ts, Event.reply height ts true ∈ es → ∀ maxFee from_ to_,
    c.step H (.notify height maxFee from_ to_) = some c
  /-- A reject in its block's window unmarks the block, and `change_notification_state` takes it
  again while it stays in the window. -/
  rejectUnmarks : ∀ height ts c', (height, ts) ∈ c.awaiting → c.ledger.InWindow ts c.now →
    c.step H (.reply height ts false) = some c' →
      height ∉ c'.ledger.blocksNotified ∧ ∀ now, c'.ledger.InWindow ts now →
        ∃ l, c'.ledger.changeNotificationState height ts true now = .ok (.ok (), l)
  /-- A `notify` that panics before its await changes nothing. -/
  panicRollsBack : ∀ height maxFee from_ to_ b e, c.ledger.blockchain.get height = some b →
    c.ledger.notify H height b.timestamp maxFee from_ to_ c.now = .error e →
      c.step H (.notify height maxFee from_ to_) = some c
  /-- A segment other than a reject forgets a notification only of a block older than the
  window and the drift, which `change_notification_state` refuses from then on. -/
  forgetsOld : ∀ e c', c.step H e = some c' → ∀ bh ∈ c.ledger.blocksNotified,
    bh ∉ c'.ledger.blocksNotified → (∃ ts, e = .reply bh ts false) ∨
      ∃ b, c.ledger.blockchain.get bh = some b ∧
        b.timestamp.nanos + c.ledger.transactionWindow + permittedDrift < c.now.nanos ∧
        ∀ s now r l, c.now ≤ now →
          c'.ledger.changeNotificationState bh b.timestamp s now = .ok (r, l) → r ≠ .ok ()

/-- **`notify` succeeds at most once per block** in every state reached from `init`. -/
theorem notify_once_per_block {es : List (Event α)} {c : Canister α}
    (hc : Canister.Reachable H es c) : NotifiesOnce H es c := by
  have hi := hc.notifyInv
  refine ⟨hi.nodup, fun height ts hacc maxFee from_ to_ => ?_, fun height ts c' hmem hin h => ?_,
    fun height maxFee from_ to_ b e hb he => Canister.step_notify_eq_self hb ⟨e, he⟩,
    fun e c' h bh hbh hbh' => ?_⟩
  · -- an accepted block stays marked
    obtain ⟨hget, hmarked⟩ := (hi.accepted height ts hacc).2
    obtain ⟨b, hb, rfl⟩ := Option.map_eq_some_iff.mp hget
    exact Canister.step_notify_eq_self hb (Ledger.notify_error_of_marked hmarked)
  · rw [hi.reject_unmarks hmem hin h]
    refine ⟨Finset.notMem_erase height _, fun now hin' => ⟨_, Ledger.changeNotificationState_eq_ok hin' ?_⟩⟩
    simp
  · rcases hi.step_forgets h hbh hbh' with hrej | ⟨hwindow, b, hb, hold⟩
    · exact .inl hrej
    refine .inr ⟨b, hb, hold, fun s now r l hnow hr => Ledger.changeNotificationState_refuses
      (fun hin => absurd hin ?_) hr⟩
    -- the block stays out of its window
    have hle : c.now.nanos ≤ now.nanos := hnow
    rw [Ledger.InWindow, hwindow]
    omega

/-- `init` gives account 1 100000 e8s, account 1 sends 30 to account 2, and a `notify` of that
block is accepted: the block is marked, and every later `notify` of it panics. -/
theorem notify_once_per_block_after_transfer :
    let es : List (Event ℕ) :=
      [.send ⟨5⟩ (.transfer 1 2 ⟨30⟩ ⟨10000⟩) none, .notify 1 ⟨10000⟩ 1 2, .reply 1 ⟨0⟩ true]
    ∃ c, Canister.Reachable memoHashing es c ∧ NotifiesOnce memoHashing es c ∧
      1 ∈ c.ledger.blocksNotified ∧
      ∀ maxFee from_ to_, c.step memoHashing (.notify 1 maxFee from_ to_) = some c := by
  intro es
  have htest : ((Ledger.default.fromInit memoHashing [(1, ⟨100000⟩)] 0 ⟨0⟩ none none).toOption.map
      fun l => ((es.foldlM (fun (c : Canister ℕ) e => c.step memoHashing e) ⟨l, [], ⟨0⟩⟩).map
        fun c => decide (1 ∈ c.ledger.blocksNotified)) == some true) = some true := by
    decide +kernel
  obtain ⟨l, hinit, hrun⟩ := Except.exists_eq_ok_of_toOption_map htest
  obtain ⟨c, hc, hmark⟩ := Option.map_eq_some_iff.mp (beq_iff_eq.mp hrun)
  have hreach : Canister.Reachable memoHashing es c := by
    simpa using (Canister.Reachable.init _ _ _ _ _ hinit).of_foldlM hc
  have hn := notify_once_per_block hreach
  exact ⟨c, hreach, hn, of_decide_eq_true hmark, hn.acceptedOnce 1 ⟨0⟩ (by simp [es])⟩

end IC.LedgerCanister
