/-
The hBTC books: where every satoshi that entered the vault is, and why
funding one round leaves enough for every other.

# The invariant

`conserved` locates the hBTC: vault, batches, redemptions, or paid out.
Each batch and redemption holds what it was opened with less what it
paid, until a sweep returns the rest, so what is held there or paid out
never exceeds the amounts of the funded records (`funded_eq`). What Hashi
credited is in the accumulator or has been collected, which leaves the
amounts of the unfunded confirmed records in the vault or on their way.
-/
import M1n3Protocol.Proofs.Rounds
import M1n3Protocol.Chain.HashiStep

namespace M1n3Protocol

open Checked

/-- What a record put into a batch or a redemption. -/
def RecordObject.fundedSats (r : RecordObject) : Nat :=
  if r.record.fundedBatchId.isSome then r.record.amountSats.toNat else 0

/-- What Hashi has confirmed for a record. -/
def RecordObject.confirmedSats (r : RecordObject) : Nat :=
  if r.record.status = .confirmed then r.record.amountSats.toNat else 0

/-- What a confirmed record is still owed from the vault. -/
def RecordObject.unfundedSats (r : RecordObject) : Nat :=
  if r.record.status = .confirmed ∧ r.record.fundedBatchId = none
  then r.record.amountSats.toNat else 0

structure VaultBooks (h : Hashi) : Prop where
  vault_eq : h.vault.hbtc.toNat + h.vault.totalWithdrawnHbtc.toNat
    = h.vault.totalReceivedHbtc.toNat
  conserved : h.vault.hbtc.toNat + (h.batches.sum fun b => b.balance.toNat)
      + (h.redemptions.sum fun r => r.balance.toNat) + h.paidOut
    = h.receivedOutside
  paid_eq : h.paidOut = (h.batches.sum fun b => b.claimedSats.toNat)
    + h.redemptions.sum fun r => r.paidSats.toNat
  batches_within : h.batches.All fun b =>
    b.balance.toNat + b.claimedSats.toNat ≤ b.totalSats.toNat
  redemptions_within : h.redemptions.All fun r =>
    r.balance.toNat + r.paidSats.toNat ≤ r.totalSats.toNat
  funded_eq : h.records.sum RecordObject.fundedSats
    = (h.batches.sum fun b => b.totalSats.toNat)
      + h.redemptions.sum fun r => r.totalSats.toNat
  funded_confirmed : h.records.All fun r =>
    r.record.fundedBatchId.isSome = true → r.record.status = .confirmed
  credited_le : h.hashiCredited ≤ h.accumulated.toNat + h.receivedOutside

theorem VaultBooks.init : VaultBooks .init where
  vault_eq := rfl
  conserved := rfl
  paid_eq := rfl
  batches_within := .empty
  redemptions_within := .empty
  funded_eq := rfl
  funded_confirmed := .empty
  credited_le := Nat.le_refl _

-- =============================================================== the steps

/-- Records may be added or replaced as long as no amount is newly
funded. -/
theorem VaultBooks.records {h : Hashi} (hb : VaultBooks h)
    {configs : ObjStore HashiPoolConfig} {records : ObjStore RecordObject}
    (hsum : records.sum RecordObject.fundedSats
      = h.records.sum RecordObject.fundedSats)
    (hall : records.All fun r =>
      r.record.fundedBatchId.isSome = true → r.record.status = .confirmed) :
    VaultBooks { h with configs, records } :=
  { hb with
    funded_eq := hsum.trans hb.funded_eq
    funded_confirmed := hall }

/-- A record is replaced by one that is funded for as much. -/
theorem VaultBooks.replace {h : Hashi} (hb : VaultBooks h)
    {configs : ObjStore HashiPoolConfig} {id : ID} {r : RecordObject}
    {r' : BlockDepositRecord} (hget : h.records.get id = some r)
    (hamount : r'.amountSats = r.record.amountSats)
    (hfunded : r'.fundedBatchId = r.record.fundedBatchId)
    (hstatus : r'.status = .confirmed
      ∨ (r.record.status ≠ .confirmed)) :
    VaultBooks { h with
      configs, records := h.records.put id { r with record := r' } } := by
  refine hb.records ?_ (hb.funded_confirmed.put ?_)
  · have hsum := ObjStore.sum_put hget { r with record := r' }
      RecordObject.fundedSats
    have hsame : RecordObject.fundedSats { r with record := r' }
        = r.fundedSats := by
      unfold RecordObject.fundedSats
      rw [hamount, hfunded]
    omega
  · intro hsome
    rcases hstatus with hs | hs
    · exact hs
    · refine absurd (hb.funded_confirmed id r hget ?_) hs
      rw [← hfunded]
      exact hsome

/-- hBTC arriving from outside. -/
theorem VaultBooks.arrive {h : Hashi} (hb : VaultBooks h) {amount : U64}
    {vault : HashiVault} {accumulated : U64} {inbox : ObjStore U64}
    (hok : depositHbtc h.vault amount = .ok vault)
    (hacc : h.accumulated.toNat ≤ accumulated.toNat + amount.toNat) :
    VaultBooks { h with
      vault, accumulated, inbox
      receivedOutside := h.receivedOutside + amount.toNat } := by
  obtain ⟨hbal, hrec, hwith⟩ := depositHbtc_ok hok
  have h1 := hb.vault_eq
  have h2 := hb.conserved
  have h3 := hb.credited_le
  refine { hb with vault_eq := ?_, conserved := ?_, credited_le := ?_ }
  · dsimp only
    rw [hwith]
    omega
  · dsimp only
    omega
  · dsimp only
    omega

/-- The record spent on an opening now counts as funded. -/
theorem sum_funded {s : ObjStore RecordObject} {id : ID} {r : RecordObject}
    {by' : FundedBy} (hget : s.get id = some r)
    (hnone : r.record.fundedBatchId = none) :
    (s.put id { r with record :=
        { r.record with fundedBatchId := some by' } }).sum
          RecordObject.fundedSats
      = s.sum RecordObject.fundedSats + r.record.amountSats.toNat := by
  have hsum := ObjStore.sum_put hget { r with record :=
    { r.record with fundedBatchId := some by' } } RecordObject.fundedSats
  have hzero : r.fundedSats = 0 := by
    unfold RecordObject.fundedSats
    rw [hnone]
    rfl
  have hamount : RecordObject.fundedSats { r with record :=
      { r.record with fundedBatchId := some by' } }
      = r.record.amountSats.toNat := rfl
  omega

theorem VaultBooks.openBatch {h : Hashi} (hb : VaultBooks h) {rid : ID}
    {rh : RoundHistory} {r : RecordObject} {out : BatchOpened}
    (hget : h.records.get rid = some r)
    (hok : OpenedBatch h.rewards h.vault rh r.record h.batches.next out) :
    VaultBooks { h with
      rewards := out.registry
      vault := out.vault
      records := h.records.put rid { r with record := out.record }
      batches := h.batches.alloc out.batch } := by
  obtain ⟨-, htake, hrec, hwith⟩ := takeExactHbtc_ok hok.take_ok
  have hzero : (0 : U64).toNat = 0 := rfl
  have h1 := hb.vault_eq
  have h2 := hb.conserved
  have h3 := hb.paid_eq
  have h4 := hb.funded_eq
  refine { hb with
    vault_eq := ?_, conserved := ?_, paid_eq := ?_
    batches_within := hb.batches_within.alloc ?_
    funded_eq := ?_, funded_confirmed := hb.funded_confirmed.put ?_ }
  · dsimp only
    rw [hrec]
    omega
  · dsimp only
    rw [ObjStore.sum_alloc, hok.batch_balance]
    omega
  · dsimp only
    rw [ObjStore.sum_alloc, hok.batch_claimed, hzero]
    omega
  · rw [hok.batch_balance, hok.batch_claimed, hok.batch_total, hzero]
    exact Nat.le_refl _
  · dsimp only
    rw [hok.record_eq, sum_funded hget hok.unfunded, ObjStore.sum_alloc,
      hok.batch_total]
    omega
  · intro _
    show out.record.status = .confirmed
    rw [hok.record_eq]
    exact hok.confirmed

theorem VaultBooks.openRedemption {h : Hashi} (hb : VaultBooks h)
    {reg : HashShareRegistry} {capId rid : ID} {cap : TreasuryCap}
    {rh : RoundHistory} {r : RecordObject} {out : RedemptionOpened}
    (hget : h.records.get rid = some r)
    (hok : OpenedRedemption reg capId cap h.vault rh r.record
      h.redemptions.next out) :
    VaultBooks { h with
      vault := out.vault
      records := h.records.put rid { r with record := out.record }
      redemptions := h.redemptions.alloc out.redemption } := by
  obtain ⟨-, htake, hrec, hwith⟩ := takeExactHbtc_ok hok.take_ok
  have hzero : (0 : U64).toNat = 0 := rfl
  have h1 := hb.vault_eq
  have h2 := hb.conserved
  have h3 := hb.paid_eq
  have h4 := hb.funded_eq
  refine { hb with
    vault_eq := ?_, conserved := ?_, paid_eq := ?_
    redemptions_within := hb.redemptions_within.alloc ?_
    funded_eq := ?_, funded_confirmed := hb.funded_confirmed.put ?_ }
  · dsimp only
    rw [hrec]
    omega
  · dsimp only
    rw [ObjStore.sum_alloc, hok.balance_eq]
    omega
  · dsimp only
    rw [ObjStore.sum_alloc, hok.paid_eq, hzero]
    omega
  · rw [hok.balance_eq, hok.paid_eq, hok.total_eq, hzero]
    exact Nat.le_refl _
  · dsimp only
    rw [hok.record_eq, sum_funded hget hok.unfunded, ObjStore.sum_alloc,
      hok.total_eq]
    omega
  · intro _
    show out.record.status = .confirmed
    rw [hok.record_eq]
    exact hok.confirmed

/-- A claim moves its amount from the batch to the paid side. -/
theorem VaultBooks.claim {h : Hashi} (hb : VaultBooks h) {bid : ID}
    {b b' : HashiRewardBatch} {r : MinerWorkRecord} {rh : RoundHistory}
    {ctx : TxContext} {reg : HashiRewardRegistry} {amount : U64}
    {claimed : ObjStore ClaimEntry} (hget : h.batches.get bid = some b)
    (hok : Claimed h.rewards b r rh ctx reg b' amount) :
    VaultBooks { h with
      rewards := reg
      batches := h.batches.put bid b'
      claimed
      paidOut := h.paidOut + amount.toNat } := by
  have hbal := ObjStore.sum_put hget b' fun b => b.balance.toNat
  have hcl := ObjStore.sum_put hget b' fun b => b.claimedSats.toNat
  have htot := ObjStore.sum_put hget b' fun b => b.totalSats.toNat
  have hsat : b'.totalSats.toNat = b.totalSats.toNat := by rw [hok.total_eq]
  have h1 := hok.balance_eq
  have h2 := hok.claimed_eq
  have h3 := hb.conserved
  have h4 := hb.paid_eq
  have h5 := hb.funded_eq
  have h6 := hb.batches_within bid b hget
  refine { hb with
    conserved := ?_, paid_eq := ?_
    batches_within := hb.batches_within.put ?_, funded_eq := ?_ }
  · dsimp only
    omega
  · dsimp only
    omega
  · omega
  · dsimp only
    omega

theorem VaultBooks.redeem {h : Hashi} (hb : VaultBooks h) {did : ID}
    {r : Redemption} {cap : TreasuryCap} {units : U64} {ctx : TxContext}
    {out : Redeemed} (hget : h.redemptions.get did = some r)
    (hok : RedeemedOk r cap units ctx out) :
    VaultBooks { h with
      redemptions := h.redemptions.put did out.redemption
      paidOut := h.paidOut + out.payout.toNat } := by
  have hbal := ObjStore.sum_put hget out.redemption fun r => r.balance.toNat
  have hpd := ObjStore.sum_put hget out.redemption fun r => r.paidSats.toNat
  have htot := ObjStore.sum_put hget out.redemption fun r => r.totalSats.toNat
  have hsat : out.redemption.totalSats.toNat = r.totalSats.toNat := by
    rw [hok.total_eq]
  have h1 := hok.balance_eq
  have h2 := hok.paid_eq
  have h3 := hb.conserved
  have h4 := hb.paid_eq
  have h5 := hb.funded_eq
  have h6 := hb.redemptions_within did r hget
  refine { hb with
    conserved := ?_, paid_eq := ?_
    redemptions_within := hb.redemptions_within.put ?_, funded_eq := ?_ }
  · dsimp only
    omega
  · dsimp only
    omega
  · omega
  · dsimp only
    omega

/-- A sweep moves the rest of an expired batch back to the vault. -/
theorem VaultBooks.recycleBatch {h : Hashi} (hb : VaultBooks h) {bid : ID}
    {b b' : HashiRewardBatch} {reg : HashiRewardRegistry}
    {vault : HashiVault} {ctx : TxContext}
    (hget : h.batches.get bid = some b)
    (hok : recycleExpiredToVault h.rewards b h.vault ctx
      = .ok (reg, b', vault)) :
    VaultBooks { h with
      rewards := reg, vault, batches := h.batches.put bid b' } := by
  obtain ⟨-, -, hsweep, rfl, -⟩ := recycleExpiredToVault_ok hok
  obtain ⟨hv, hrec, hwith⟩ := sweepToVault_ok hsweep
  have hbal := ObjStore.sum_put hget { b with balance := 0, status := .expired }
    fun b => b.balance.toNat
  have hcl := ObjStore.sum_put hget { b with balance := 0, status := .expired }
    fun b => b.claimedSats.toNat
  have htot := ObjStore.sum_put hget { b with balance := 0, status := .expired }
    fun b => b.totalSats.toNat
  have hzero : (0 : U64).toNat = 0 := rfl
  dsimp only at hbal hcl htot
  rw [hzero] at hbal
  have h1 := hb.vault_eq
  have h2 := hb.conserved
  have h3 := hb.paid_eq
  have h4 := hb.funded_eq
  have h5 := hb.batches_within bid b hget
  refine { hb with
    vault_eq := ?_, conserved := ?_, paid_eq := ?_
    batches_within := hb.batches_within.put ?_, funded_eq := ?_ }
  · dsimp only
    rw [hwith]
    omega
  · dsimp only
    omega
  · dsimp only
    omega
  · show (0 : U64).toNat + b.claimedSats.toNat ≤ b.totalSats.toNat
    omega
  · dsimp only
    omega

theorem VaultBooks.recycleRedemption {h : Hashi} (hb : VaultBooks h)
    {did : ID} {r r' : Redemption} {vault : HashiVault} {ctx : TxContext}
    (hget : h.redemptions.get did = some r)
    (hok : recycleExpiredRedemption r h.vault ctx = .ok (r', vault)) :
    VaultBooks { h with
      vault, redemptions := h.redemptions.put did r' } := by
  obtain ⟨-, -, hsweep, rfl⟩ := recycleExpiredRedemption_ok hok
  obtain ⟨hv, hrec, hwith⟩ := sweepToVault_ok hsweep
  have hbal := ObjStore.sum_put hget { r with balance := 0, isExpired := true }
    fun r => r.balance.toNat
  have hpd := ObjStore.sum_put hget { r with balance := 0, isExpired := true }
    fun r => r.paidSats.toNat
  have htot := ObjStore.sum_put hget { r with balance := 0, isExpired := true }
    fun r => r.totalSats.toNat
  have hzero : (0 : U64).toNat = 0 := rfl
  dsimp only at hbal hpd htot
  rw [hzero] at hbal
  have h1 := hb.vault_eq
  have h2 := hb.conserved
  have h3 := hb.paid_eq
  have h4 := hb.funded_eq
  have h5 := hb.redemptions_within did r hget
  refine { hb with
    vault_eq := ?_, conserved := ?_, paid_eq := ?_
    redemptions_within := hb.redemptions_within.put ?_, funded_eq := ?_ }
  · dsimp only
    rw [hwith]
    omega
  · dsimp only
    omega
  · dsimp only
    omega
  · show (0 : U64).toNat + r.paidSats.toNat ≤ r.totalSats.toNat
    omega
  · dsimp only
    omega

theorem VaultBooks.step {w w' : World} {c : Call} (hb : VaultBooks w.hashi)
    (hs : World.HashiStep w c w') : VaultBooks w'.hashi := by
  cases hs with
  | initializeConfig | config => exact hb.records rfl hb.funded_confirmed
  | mark hget hm => exact hb.replace hget hm.amount hm.funded (.inr hm.before)
  | confirm hc hget hok =>
      obtain ⟨-, rfl, -⟩ := markHashiConfirmed_ok hok
      exact hb.replace hget rfl rfl (.inl rfl)
  | record hc hclaim hok =>
      obtain ⟨-, -, -, -, -, -, -, -, -, -, hnone⟩ := recordBlockFound_ok hok
      refine hb.records ?_ (hb.funded_confirmed.alloc ?_)
      · rw [ObjStore.sum_alloc]
        show _ + RecordObject.fundedSats ⟨_, _, _⟩ = _
        unfold RecordObject.fundedSats
        rw [hnone]
        rfl
      · intro hsome
        rw [hnone] at hsome
        cases hsome
  | @credit _ amount accumulated hashiCredited hacc hby =>
      have := hb.credited_le
      refine { hb with credited_le := ?_ }
      show hashiCredited ≤ accumulated.toNat + w.hashi.receivedOutside
      omega
  | transferCoin => exact { hb with }
  | receive hget hok => exact hb.arrive hok (Nat.le_add_right _ _)
  | collect hok hacc => exact hb.arrive hok (Nat.le_of_eq hacc.symm)
  | openBatch hhist hget hok => exact hb.openBatch hget hok
  | claim hget hr hhist hok => exact hb.claim hget hok
  | recycleBatch hget hok => exact hb.recycleBatch hget hok
  | openRedemption hcap hhist hget hok => exact hb.openRedemption hget hok
  | redeem hget hcap hcoin hrcap hkcap hok => exact hb.redeem hget hok
  | recycleRedemption hget hok => exact hb.recycleRedemption hget hok

theorem vaultBooks_of_reach {H : HashFn} {publisher : Address} {w : World}
    (h : Machine.Reach (contract H publisher) w) : VaultBooks w.hashi :=
  hashi_invariant .init (fun _ _ _ hb hs => hb.step hs) h

-- ================================================================= outflow

/-- A record was confirmed and unspent before the call, was spent by it,
and the vault paid exactly its amount. -/
structure FundedInStep (w w' : World) (rid : ID) : Prop where
  spent : ∃ r r', w.hashi.records.get rid = some r
    ∧ r.record.status = .confirmed ∧ r.record.fundedBatchId = none
    ∧ w'.hashi.records.get rid = some r'
    ∧ r'.record.fundedBatchId.isSome = true
    ∧ w'.hashi.vault.hbtc.toNat + r.record.amountSats.toNat
        = w.hashi.vault.hbtc.toNat

/-- Only the two openings take hBTC out of the vault. -/
theorem World.HashiStep.outflow {w w' : World} {c : Call}
    (hs : World.HashiStep w c w')
    (hless : w'.hashi.vault.hbtc.toNat < w.hashi.vault.hbtc.toNat) :
    ∃ rid, ((∃ hid, c = .openAndFundRoundBatch hid rid)
        ∨ ∃ capId hid, c = .openRedemption capId hid rid)
      ∧ FundedInStep w w' rid := by
  have hin : ∀ {v : HashiVault} {a : U64}, v.hbtc.toNat
      = w.hashi.vault.hbtc.toNat + a.toNat →
      ¬ v.hbtc.toNat < w.hashi.vault.hbtc.toNat := by
    intro v a h
    omega
  cases hs with
  | @openBatch hid rid rh r out hhist hget hok =>
      obtain ⟨-, htake, -⟩ := takeExactHbtc_ok hok.take_ok
      refine ⟨rid, .inl ⟨hid, rfl⟩, ⟨r, _, hget, hok.confirmed, hok.unfunded,
        ObjStore.get_put_self _ hget, ?_, htake⟩⟩
      show out.record.fundedBatchId.isSome = true
      rw [hok.record_eq]
      rfl
  | @openRedemption capId hid rid cap rh r out hcap hhist hget hok =>
      obtain ⟨-, htake, -⟩ := takeExactHbtc_ok hok.take_ok
      refine ⟨rid, .inr ⟨capId, hid, rfl⟩, ⟨r, _, hget, hok.confirmed,
        hok.unfunded, ObjStore.get_put_self _ hget, ?_, htake⟩⟩
      show out.record.fundedBatchId.isSome = true
      rw [hok.record_eq]
      rfl
  | receive hget hok => exact absurd hless (hin (depositHbtc_ok hok).1)
  | collect hok hacc => exact absurd hless (hin (depositHbtc_ok hok).1)
  | recycleBatch hget hok =>
      obtain ⟨-, -, hsweep, -⟩ := recycleExpiredToVault_ok hok
      exact absurd hless (hin (sweepToVault_ok hsweep).1)
  | recycleRedemption hget hok =>
      obtain ⟨-, -, hsweep, -⟩ := recycleExpiredRedemption_ok hok
      exact absurd hless (hin (sweepToVault_ok hsweep).1)
  | initializeConfig | config | mark | confirm | record | credit
  | transferCoin | claim | redeem => exact absurd hless (Nat.lt_irrefl _)

/-- What is held or paid out beside the vault stays within what was
funded. -/
theorem VaultBooks.held_le {h : Hashi} (hb : VaultBooks h) :
    (h.batches.sum fun b => b.balance.toNat)
      + (h.redemptions.sum fun r => r.balance.toNat) + h.paidOut
      ≤ h.records.sum RecordObject.fundedSats := by
  have hbat : (h.batches.sum fun b => b.balance.toNat + b.claimedSats.toNat)
      ≤ h.batches.sum fun b => b.totalSats.toNat :=
    ObjStore.sum_le_sum hb.batches_within
  have hred : (h.redemptions.sum fun r => r.balance.toNat + r.paidSats.toNat)
      ≤ h.redemptions.sum fun r => r.totalSats.toNat :=
    ObjStore.sum_le_sum hb.redemptions_within
  rw [ObjStore.sum_add] at hbat hred
  have := hb.paid_eq
  have := hb.funded_eq
  omega

/-- Confirmed records are funded or unfunded. -/
theorem VaultBooks.confirmed_split {h : Hashi} (hb : VaultBooks h) :
    h.records.sum RecordObject.confirmedSats
      = h.records.sum RecordObject.fundedSats
        + h.records.sum RecordObject.unfundedSats := by
  rw [← ObjStore.sum_add]
  refine ObjStore.sum_congr fun i r hi => ?_
  unfold RecordObject.confirmedSats RecordObject.fundedSats
    RecordObject.unfundedSats
  cases hf : r.record.fundedBatchId with
  | none => simp [hf]
  | some f =>
      have hs := hb.funded_confirmed i r hi (by rw [hf]; rfl)
      simp [hf, hs]

/-- In every reachable state the vault's counters and the hBTC outside it
account for all that came in; hBTC leaves the vault only as the exact
amount of a confirmed record spent by the same call; and where Hashi has
credited the amounts of all confirmed records, the vault and what it has
not collected cover every confirmed unfunded one. -/
theorem hbtc_conserved {H : HashFn} {publisher : Address} {w : World}
    (h : Machine.Reach (contract H publisher) w) :
    (w.hashi.vault.hbtc.toNat = w.hashi.vault.totalReceivedHbtc.toNat
        - w.hashi.vault.totalWithdrawnHbtc.toNat
      ∧ w.hashi.vault.totalWithdrawnHbtc.toNat
        ≤ w.hashi.vault.totalReceivedHbtc.toNat)
      ∧ w.hashi.vault.hbtc.toNat
          + (w.hashi.batches.sum fun b => b.balance.toNat)
          + (w.hashi.redemptions.sum fun r => r.balance.toNat)
          + w.hashi.paidOut = w.hashi.receivedOutside
      ∧ (∀ c w', w.exec H c = .ok w' →
          w'.hashi.vault.hbtc.toNat < w.hashi.vault.hbtc.toNat →
          ∃ rid, ((∃ hid, c = .openAndFundRoundBatch hid rid)
              ∨ ∃ capId hid, c = .openRedemption capId hid rid)
            ∧ FundedInStep w w' rid)
      ∧ (w.hashi.records.sum RecordObject.confirmedSats
            ≤ w.hashi.hashiCredited →
          w.hashi.records.sum RecordObject.unfundedSats
            ≤ w.hashi.vault.hbtc.toNat + w.hashi.accumulated.toNat) := by
  have hb := vaultBooks_of_reach h
  have hvault := hb.vault_eq
  refine ⟨⟨by omega, by omega⟩, hb.conserved, fun c w' hs hless => ?_,
    fun hcredit => ?_⟩
  · rcases World.exec_hashi hs with ⟨-, hstep⟩ | ⟨-, hsame, -⟩
    · exact hstep.outflow hless
    · rw [hsame] at hless
      exact absurd hless (Nat.lt_irrefl _)
  · have hheld := hb.held_le
    have hsplit := hb.confirmed_split
    have hcons := hb.conserved
    have hle := hb.credited_le
    omega

/-- The round closed above, its reward of 1000 sats confirmed, collected
and put into a batch. -/
def fundedRound : List Call :=
  .hashiAdmin (.initializeConfig (leBytes 32 0)) :: closedRound ++
  [.recordBlockFound 0 0 (leBytes 32 1) 0 1000,
   .beginTx 0 0 5000,
   .hashiAdmin (.registerWithHashi 0),
   .hashiAdmin (.markHashiApproved 0),
   .hashi (.hashiCredit 1000),
   .hashiAdmin (.markHashiConfirmed 0 0),
   .hashi (.claimAccumulatedHbtc 1000),
   .openAndFundRoundBatch 0 0]

/-- All that came in is in the batch. -/
theorem hbtc_conserved_fundedRound :
    ∃ w, Machine.Reach (contract sha256 0) w
      ∧ w.hashi.receivedOutside = 1000
      ∧ w.hashi.vault.hbtc.toNat
          + (w.hashi.batches.sum fun b => b.balance.toNat)
          + (w.hashi.redemptions.sum fun r => r.balance.toNat)
          + w.hashi.paidOut = w.hashi.receivedOutside := by
  have hrun : (contract sha256 0).endsIn fundedRound (fun w =>
      decide (w.hashi.receivedOutside = 1000)
        && (w.hashi.batches.get 0).isSome) = true := by
    decide +kernel
  obtain ⟨w, hw, hcheck⟩ := Machine.reach_of_endsIn hrun
  rw [Bool.and_eq_true, decide_eq_true_eq] at hcheck
  exact ⟨w, hw, hcheck.1, (hbtc_conserved hw).2.1⟩

end M1n3Protocol
