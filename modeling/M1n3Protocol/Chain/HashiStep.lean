/-
What one call can do to the hBTC side, said once.

`World.HashiStep` has a constructor for each effect, with what the source
checked on the way; the marks along the deposit pipeline that neither
confirm nor fund a record are one. A claim also consumes a work record
and a redemption also burns coins, so the relation is on whole worlds.
`World.exec_hashi` takes any successful call to such a step under its own
name, or to none, and `hashi_invariant` carries what the steps keep to
every reachable chain.
-/
import M1n3Protocol.Chain.World

namespace M1n3Protocol

open Checked

/-- A config after a call that makes no record and confirms none. -/
structure ConfigKept (c c' : HashiPoolConfig) : Prop where
  index : c'.depositIndex = c.depositIndex
  deposits : c'.totalDeposits = c.totalDeposits
  confirmed : c'.totalSatsConfirmed = c.totalSatsConfirmed
  pending : c'.pendingSats.toNat ≤ c.pendingSats.toNat

inductive World.HashiStep (w : World) : Call → World → Prop
  | initializeConfig {call : HashiAdminCall} {addr : Bytes}
      {config : HashiPoolConfig}
      (hok : M1n3Protocol.initializeConfig addr = .ok config) :
      HashiStep w (.hashiAdmin call) { w with hashi := { w.hashi with
        configs := w.hashi.configs.alloc config } }
  | config {call : HashiAdminCall} {id : ID} {c c' : HashiPoolConfig}
      (hget : w.hashi.configs.get id = some c) (hkept : ConfigKept c c') :
      HashiStep w (.hashiAdmin call) { w with hashi := { w.hashi with
        configs := w.hashi.configs.put id c' } }
  | mark {call : HashiAdminCall} {id : ID} {r : RecordObject}
      {r' : BlockDepositRecord}
      (hget : w.hashi.records.get id = some r) (hm : Marked r.record r') :
      HashiStep w (.hashiAdmin call) { w with hashi := { w.hashi with
        records := w.hashi.records.put id { r with record := r' } } }
  | confirm {call : HashiAdminCall} {cid id : ID} {c c' : HashiPoolConfig}
      {r : RecordObject} {r' : BlockDepositRecord}
      (hc : w.hashi.configs.get cid = some c)
      (hr : w.hashi.records.get id = some r)
      (hok : markHashiConfirmed c r.record w.ctx = .ok (c', r')) :
      HashiStep w (.hashiAdmin call) { w with hashi := { w.hashi with
        configs := w.hashi.configs.put cid c'
        records := w.hashi.records.put id { r with record := r' } } }
  | record {cid claimId : ID} {c c' : HashiPoolConfig} {claim : ClaimObject}
      {txid : Bytes} {vout : U32} {amount : U64} {r : BlockDepositRecord}
      (hc : w.hashi.configs.get cid = some c)
      (hclaim : w.mining.claims.get claimId = some claim)
      (hok : M1n3Protocol.recordBlockFound c claim.claim txid vout amount
        w.hashi.records.next w.ctx = .ok (c', r)) :
      HashiStep w (.recordBlockFound cid claimId txid vout amount)
        { w with hashi := { w.hashi with
        configs := w.hashi.configs.put cid c'
        records := w.hashi.records.alloc ⟨r, cid, claimId⟩ } }
  | credit {call : HashiCall} {amount accumulated : U64} {hashiCredited : Nat}
      (hacc : accumulated.toNat = w.hashi.accumulated.toNat + amount.toNat)
      (hby : hashiCredited = w.hashi.hashiCredited + amount.toNat
        ∨ hashiCredited = w.hashi.hashiCredited)
      (hcall : call = .hashiCredit amount ∨ call = .sendFunds amount) :
      HashiStep w (.hashi call) { w with hashi := { w.hashi with
        accumulated, hashiCredited } }
  | transferCoin {amount : U64} :
      HashiStep w (.hashi (.transferCoin amount)) { w with hashi := { w.hashi with
        inbox := w.hashi.inbox.alloc amount } }
  | receive {id : ID} {amount : U64} {vault : HashiVault}
      (hget : w.hashi.inbox.get id = some amount)
      (hok : depositHbtc w.hashi.vault amount = .ok vault) :
      HashiStep w (.hashi (.receiveHbtc id)) { w with hashi := { w.hashi with
        vault
        inbox := w.hashi.inbox.erase id
        receivedOutside := w.hashi.receivedOutside + amount.toNat } }
  | collect {amount accumulated : U64} {vault : HashiVault}
      (hok : depositHbtc w.hashi.vault amount = .ok vault)
      (hacc : accumulated.toNat + amount.toNat = w.hashi.accumulated.toNat) :
      HashiStep w (.hashi (.claimAccumulatedHbtc amount)) { w with hashi := { w.hashi with
        vault, accumulated
        receivedOutside := w.hashi.receivedOutside + amount.toNat } }
  | openBatch {hid rid : ID} {rh : RoundHistory} {r : RecordObject}
      {out : BatchOpened} (hhist : w.mining.histories.get hid = some rh)
      (hr : w.hashi.records.get rid = some r)
      (hok : OpenedBatch w.hashi.rewards w.hashi.vault rh r.record
        w.hashi.batches.next out) :
      HashiStep w (.openAndFundRoundBatch hid rid)
        { w with hashi := { w.hashi with
        rewards := out.registry
        vault := out.vault
        records := w.hashi.records.put rid { r with record := out.record }
        batches := w.hashi.batches.alloc out.batch } }
  | claim {bid rid hid : ID} {b b' : HashiRewardBatch} {r : MinerWorkRecord}
      {rh : RoundHistory} {reg : HashiRewardRegistry} {amount : U64}
      (hb : w.hashi.batches.get bid = some b)
      (hr : w.mining.workRecords.get rid = some r)
      (hhist : w.mining.histories.get hid = some rh)
      (hok : Claimed w.hashi.rewards b r rh w.ctx reg b' amount) :
      HashiStep w (.claimReward bid rid hid)
        { w with
        mining := { w.mining with
          workRecords := w.mining.workRecords.erase rid }
        hashi := { w.hashi with
          rewards := reg
          batches := w.hashi.batches.put bid b'
          claimed := w.hashi.claimed.alloc ⟨bid, r, amount⟩
          paidOut := w.hashi.paidOut + amount.toNat } }
  | recycleBatch {bid : ID} {b b' : HashiRewardBatch}
      {reg : HashiRewardRegistry} {vault : HashiVault}
      (hb : w.hashi.batches.get bid = some b)
      (hok : recycleExpiredToVault w.hashi.rewards b w.hashi.vault w.ctx
        = .ok (reg, b', vault)) :
      HashiStep w (.hashi (.recycleExpiredToVault bid)) { w with hashi := { w.hashi with
        rewards := reg, vault, batches := w.hashi.batches.put bid b' } }
  | openRedemption {capId hid rid : ID} {cap : TreasuryCap}
      {rh : RoundHistory} {r : RecordObject} {out : RedemptionOpened}
      (hcap : w.slots.caps.get capId = some cap)
      (hhist : w.mining.histories.get hid = some rh)
      (hr : w.hashi.records.get rid = some r)
      (hok : OpenedRedemption w.slots.registry capId cap w.hashi.vault rh
        r.record w.hashi.redemptions.next out) :
      HashiStep w (.openRedemption capId hid rid)
        { w with hashi := { w.hashi with
        vault := out.vault
        records := w.hashi.records.put rid { r with record := out.record }
        redemptions := w.hashi.redemptions.alloc out.redemption } }
  | redeem {did capId kid : ID} {r : Redemption} {cap : TreasuryCap}
      {coin : Coin} {out : Redeemed}
      (hr : w.hashi.redemptions.get did = some r)
      (hcap : w.slots.caps.get capId = some cap)
      (hcoin : w.slots.coins.get kid = some coin)
      (hrcap : r.capId = capId) (hkcap : coin.capId = capId)
      (hok : RedeemedOk r cap coin.value w.ctx out) :
      HashiStep w (.redeem did capId kid)
        { w with
        slots := { w.slots with
          caps := w.slots.caps.put capId out.cap
          coins := w.slots.coins.erase kid
          burns := w.slots.burns.alloc ⟨capId, coin.value⟩ }
        hashi := { w.hashi with
          redemptions := w.hashi.redemptions.put did out.redemption
          paidOut := w.hashi.paidOut + out.payout.toNat } }
  | recycleRedemption {did : ID} {r r' : Redemption}
      {vault : HashiVault}
      (hr : w.hashi.redemptions.get did = some r)
      (hok : recycleExpiredRedemption r w.hashi.vault w.ctx
        = .ok (r', vault)) :
      HashiStep w (.hashi (.recycleExpiredRedemption did)) { w with hashi := { w.hashi with
        vault, redemptions := w.hashi.redemptions.put did r' } }

-- ============================================================= inversion

variable {H : HashFn} {w w' : World}

theorem clearPendingSats_kept (c : HashiPoolConfig) (amount : U64) :
    ConfigKept c (clearPendingSats c amount) := by
  unfold clearPendingSats
  split
  case isTrue => exact ⟨rfl, rfl, rfl, Nat.zero_le _⟩
  case isFalse h =>
    refine ⟨rfl, rfl, rfl, ?_⟩
    have hle : amount.toNat ≤ c.pendingSats.toNat := by
      rw [BitVec.le_def] at h
      omega
    show (c.pendingSats - amount).toNat ≤ _
    rw [BitVec.toNat_sub_of_le hle]
    exact Nat.sub_le _ _

theorem updateBtcAddress_kept {c c' : HashiPoolConfig} {addr : Bytes}
    (h : updateBtcAddress c addr = .ok c') : ConfigKept c c' := by
  simp only [updateBtcAddress, bind_eq_ok, require_eq_ok, pure_eq_ok] at h
  obtain ⟨-, -, heq⟩ := h
  subst heq
  exact ⟨rfl, rfl, rfl, Nat.le_refl _⟩

theorem Hashi.execAdmin_step {c : HashiAdminCall} {h' : Hashi}
    (h : w.hashi.execAdmin w.ctx c = .ok h') :
    World.HashiStep w (.hashiAdmin c) { w with hashi := h' } := by
  cases c with
  | initializeConfig addr =>
      simp only [Hashi.execAdmin, bind_eq_ok, pure_eq_ok] at h
      obtain ⟨config, hok, heq⟩ := h
      subst heq
      exact .initializeConfig hok
  | updateBtcAddress id addr =>
      simp only [Hashi.execAdmin, bind_eq_ok, load_eq_ok, pure_eq_ok] at h
      obtain ⟨c, hget, c', hok, heq⟩ := h
      subst heq
      exact .config hget (updateBtcAddress_kept hok)
  | registerWithHashi id =>
      simp only [Hashi.execAdmin, bind_eq_ok, load_eq_ok, pure_eq_ok] at h
      obtain ⟨r, hget, r', hok, heq⟩ := h
      subst heq
      exact .mark hget (registerWithHashi_ok hok)
  | setHashiRequestId id req =>
      simp only [Hashi.execAdmin, bind_eq_ok, load_eq_ok, pure_eq_ok] at h
      obtain ⟨r, hget, r', hok, heq⟩ := h
      subst heq
      exact .mark hget (setHashiRequestId_ok hok)
  | markHashiApproved id =>
      simp only [Hashi.execAdmin, bind_eq_ok, load_eq_ok, pure_eq_ok] at h
      obtain ⟨r, hget, r', hok, heq⟩ := h
      subst heq
      exact .mark hget (markHashiApproved_ok hok)
  | markHashiConfirmed cid id =>
      simp only [Hashi.execAdmin, bind_eq_ok, load_eq_ok, pure_eq_ok] at h
      obtain ⟨c, hc, r, hr, ⟨c', r'⟩, hok, heq⟩ := h
      subst heq
      exact .confirm hc hr hok
  | markHashiFailed id reason =>
      simp only [Hashi.execAdmin, bind_eq_ok, load_eq_ok, pure_eq_ok] at h
      obtain ⟨r, hget, r', hok, heq⟩ := h
      subst heq
      exact .mark hget (markHashiFailed_ok hok)
  | clearPendingSats id amount =>
      simp only [Hashi.execAdmin, bind_eq_ok, load_eq_ok, pure_eq_ok] at h
      obtain ⟨c, hget, heq⟩ := h
      subst heq
      exact .config hget (clearPendingSats_kept c amount)

theorem Hashi.exec_step {c : HashiCall} {h' : Hashi}
    (h : w.hashi.exec w.ctx c = .ok h') :
    World.HashiStep w (.hashi c) { w with hashi := h' } := by
  cases c with
  | hashiCredit amount =>
      simp only [Hashi.exec, bind_eq_ok, balanceJoin_eq_ok, pure_eq_ok] at h
      obtain ⟨acc, hacc, heq⟩ := h
      subst heq
      exact .credit hacc (.inl rfl) (.inl rfl)
  | sendFunds amount =>
      simp only [Hashi.exec, bind_eq_ok, balanceJoin_eq_ok, pure_eq_ok] at h
      obtain ⟨acc, hacc, heq⟩ := h
      subst heq
      exact .credit hacc (.inr rfl) (.inr rfl)
  | transferCoin amount =>
      simp only [Hashi.exec, pure_eq_ok] at h
      subst h
      exact .transferCoin
  | receiveHbtc id =>
      simp only [Hashi.exec, bind_eq_ok, load_eq_ok, pure_eq_ok] at h
      obtain ⟨amount, hget, vault, hok, heq⟩ := h
      subst heq
      exact .receive hget hok
  | claimAccumulatedHbtc amount =>
      simp only [Hashi.exec, bind_eq_ok, pure_eq_ok] at h
      obtain ⟨⟨vault, acc⟩, hok, heq⟩ := h
      subst heq
      obtain ⟨hdep, hacc⟩ := claimAccumulatedHbtc_ok hok
      exact .collect hdep hacc
  | recycleExpiredToVault id =>
      simp only [Hashi.exec, bind_eq_ok, load_eq_ok, pure_eq_ok] at h
      obtain ⟨b, hb, ⟨reg, b', vault⟩, hok, heq⟩ := h
      subst heq
      exact .recycleBatch hb hok
  | recycleExpiredRedemption id =>
      simp only [Hashi.exec, bind_eq_ok, load_eq_ok, pure_eq_ok] at h
      obtain ⟨r, hr, ⟨r', vault⟩, hok, heq⟩ := h
      subst heq
      exact .recycleRedemption hr hok

/-- The calls that reach the hBTC side. -/
def Call.onHashi : Call → Bool
  | .hashiAdmin _ | .hashi _ | .recordBlockFound .. | .openAndFundRoundBatch ..
  | .claimReward .. | .openRedemption .. | .redeem .. => true
  | _ => false

/-- Every call that reaches the hBTC side is a step there, at the time of
the call; the others leave it alone, and the clock does not run back. -/
theorem World.exec_hashi {c : Call} (h : w.exec H c = .ok w') :
    (c.onHashi = true ∧ World.HashiStep w c w')
      ∨ (c.onHashi = false ∧ w'.hashi = w.hashi
        ∧ w.ctx.timestampMs ≤ w'.ctx.timestampMs) := by
  cases c with
  | beginTx sender epoch ts =>
      simp only [World.exec, World.beginTx, bind_eq_ok, require_eq_ok,
        pure_eq_ok] at h
      obtain ⟨-, ⟨-, hclock⟩, heq⟩ := h
      subst heq
      exact .inr ⟨rfl, rfl, hclock⟩
  | transferAdminCap recipient =>
      simp only [World.exec, bind_eq_ok, pure_eq_ok] at h
      obtain ⟨_, -, heq⟩ := h
      subst heq
      exact .inr ⟨rfl, rfl, BitVec.le_refl _⟩
  | admin c =>
      simp only [World.exec, bind_eq_ok, pure_eq_ok] at h
      obtain ⟨_, -, mining, -, heq⟩ := h
      subst heq
      exact .inr ⟨rfl, rfl, BitVec.le_refl _⟩
  | mining c =>
      simp only [World.exec, bind_eq_ok, pure_eq_ok] at h
      obtain ⟨mining, -, heq⟩ := h
      subst heq
      exact .inr ⟨rfl, rfl, BitVec.le_refl _⟩
  | order c =>
      simp only [World.exec, bind_eq_ok, pure_eq_ok] at h
      obtain ⟨orders, -, heq⟩ := h
      subst heq
      exact .inr ⟨rfl, rfl, BitVec.le_refl _⟩
  | pay c =>
      refine .inr ⟨rfl, ?_⟩
      replace h : w.pay H c = .ok w' := h
      cases c with
      | submitShareForPay | submitShareForPayDerived
      | submitShareForBuyerPay =>
          simp only [World.pay, bind_eq_ok, pure_eq_ok] at h
          obtain ⟨t, -, b, -, o, -, paid, -, heq⟩ := h
          subst heq
          exact ⟨rfl, BitVec.le_refl _⟩
      | submitShareForBuyerPayDerived =>
          simp only [World.pay, bind_eq_ok, pure_eq_ok] at h
          obtain ⟨d, -, p, -, b, -, o, -, paid, -, heq⟩ := h
          subst heq
          exact ⟨rfl, BitVec.le_refl _⟩
  | slotAdmin c =>
      simp only [World.exec, bind_eq_ok, pure_eq_ok] at h
      obtain ⟨_, -, slots, -, heq⟩ := h
      subst heq
      exact .inr ⟨rfl, rfl, BitVec.le_refl _⟩
  | slot c =>
      simp only [World.exec, bind_eq_ok, pure_eq_ok] at h
      obtain ⟨slots, -, heq⟩ := h
      subst heq
      exact .inr ⟨rfl, rfl, BitVec.le_refl _⟩
  | mintShare capId receiptId mrsId =>
      simp only [World.exec, World.mintShare, bind_eq_ok, pure_eq_ok] at h
      obtain ⟨cap, -, r, -, mrs, -, out, -, heq⟩ := h
      subst heq
      exact .inr ⟨rfl, rfl, BitVec.le_refl _⟩
  | hashiAdmin c =>
      simp only [World.exec, bind_eq_ok, pure_eq_ok] at h
      obtain ⟨_, -, hashi, hs, heq⟩ := h
      subst heq
      exact .inl ⟨rfl, Hashi.execAdmin_step hs⟩
  | hashi c =>
      simp only [World.exec, bind_eq_ok, pure_eq_ok] at h
      obtain ⟨hashi, hs, heq⟩ := h
      subst heq
      exact .inl ⟨rfl, Hashi.exec_step hs⟩
  | recordBlockFound cid claimId txid vout amount =>
      simp only [World.exec, World.recordBlockFound, bind_eq_ok, load_eq_ok,
        pure_eq_ok] at h
      obtain ⟨c, hc, claim, hclaim, ⟨c', r⟩, hok, heq⟩ := h
      subst heq
      exact .inl ⟨rfl, .record hc hclaim hok⟩
  | openAndFundRoundBatch hid rid =>
      simp only [World.exec, World.openAndFundRoundBatch, bind_eq_ok,
        load_eq_ok, pure_eq_ok] at h
      obtain ⟨rh, hhist, r, hr, out, hok, heq⟩ := h
      subst heq
      exact .inl ⟨rfl, .openBatch hhist hr (openAndFundRoundBatch_ok hok)⟩
  | claimReward bid rid hid =>
      simp only [World.exec, World.claimReward, bind_eq_ok, load_eq_ok,
        pure_eq_ok] at h
      obtain ⟨b, hb, r, hr, rh, hhist, ⟨reg, b', amount⟩, hok, heq⟩ := h
      subst heq
      exact .inl ⟨rfl, .claim hb hr hhist (claimReward_ok hok)⟩
  | openRedemption capId hid rid =>
      simp only [World.exec, World.openRedemption, bind_eq_ok, load_eq_ok,
        pure_eq_ok] at h
      obtain ⟨cap, hcap, rh, hhist, r, hr, out, hok, heq⟩ := h
      subst heq
      exact .inl ⟨rfl, .openRedemption hcap hhist hr (openRedemption_ok hok)⟩
  | redeem did capId kid =>
      simp only [World.exec, World.redeem, bind_eq_ok, load_eq_ok,
        require_eq_ok, pure_eq_ok] at h
      obtain ⟨r, hr, cap, hcap, coin, hcoin, -, ⟨hrcap, hkcap⟩, out, hok,
        heq⟩ := h
      subst heq
      exact .inl ⟨rfl, .redeem hr hcap hcoin hrcap hkcap (redeem_ok hok)⟩

/-- A property of the hBTC side kept by every step there holds on every
reachable chain. -/
theorem hashi_invariant {publisher : Address} {I : Hashi → Prop}
    (hinit : I .init)
    (hstep : ∀ w c w', I w.hashi → World.HashiStep w c w' → I w'.hashi)
    (h : Machine.Reach (contract H publisher) w) : I w.hashi := by
  refine Machine.ReachVia.invariant (I := fun w => I w.hashi) hinit ?_ h
  intro w c w' hinv _ hs
  rcases World.exec_hashi hs with ⟨-, hs⟩ | ⟨-, hsame, -⟩
  · exact hstep w c w' hinv hs
  · rw [hsame]
    exact hinv

end M1n3Protocol
