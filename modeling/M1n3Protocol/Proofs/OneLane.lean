/-
One deposit, two lanes: the batch for the miners' records, and the
redemption for the round's coins.

# The lock

Both openings take a record's whole amount and mark the record as funded,
and both refuse a marked one. The mark is for good (`Onward.funded`). So
the lanes compete for the record: while it is unfunded either may be
opened, by anyone, and the first to be opened has all of it.
-/
import M1n3Protocol.Proofs.Vault
import M1n3Protocol.Proofs.Pipeline

namespace M1n3Protocol

open Checked

variable {H : HashFn} {publisher : Address} {w : World} {rid : ID}
  {r : RecordObject}

-- ============================================================ both open

/-- What either opening asks, and that no counter overflows. -/
structure LanesReady (w : World) (r : RecordObject) (hid capId : ID) :
    Prop where
  history : ∃ rh, w.mining.histories.get hid = some rh
    ∧ r.record.roundId = rh.roundId
  slot : ∃ b, w.slots.registry.rounds r.record.roundId = some b
    ∧ b.capId = capId
  supply : ∃ cap, w.slots.caps.get capId = some cap ∧ 0 < cap.totalSupply
  confirmed : r.record.status = .confirmed
  unfunded : r.record.fundedBatchId = none
  amount_pos : 0 < r.record.amountSats
  held : r.record.amountSats.toNat ≤ w.hashi.vault.hbtc.toNat
  withdrawn : w.hashi.vault.totalWithdrawnHbtc.toNat
    + r.record.amountSats.toNat < 2 ^ 64
  clock : w.ctx.timestampMs.toNat + Const.trustlessClaimWindowMs.toNat
    < 2 ^ 64
  batches : w.hashi.rewards.totalBatches.toNat + 1 < 2 ^ 64

theorem LanesReady.batch {hid capId : ID}
    (hr : w.hashi.records.get rid = some r)
    (h : LanesReady w r hid capId) :
    ∃ w', w.exec H (.openAndFundRoundBatch hid rid) = .ok w' := by
  obtain ⟨rh, hhist, hround⟩ := h.history
  obtain ⟨out, hok⟩ := openAndFundRoundBatch_of_confirmed
    hround h.confirmed h.unfunded
    h.amount_pos h.held h.withdrawn h.clock h.batches
  exact ⟨_, bind_eq_ok.mpr ⟨rh, load_eq_ok.mpr hhist,
    bind_eq_ok.mpr ⟨r, load_eq_ok.mpr hr, bind_eq_ok.mpr ⟨out, hok, rfl⟩⟩⟩⟩

theorem LanesReady.redemption {hid capId : ID}
    (hr : w.hashi.records.get rid = some r)
    (h : LanesReady w r hid capId) :
    ∃ w', w.exec H (.openRedemption capId hid rid) = .ok w' := by
  obtain ⟨rh, hhist, hround⟩ := h.history
  obtain ⟨b, hb, hcapId⟩ := h.slot
  obtain ⟨cap, hcap, hsupply⟩ := h.supply
  obtain ⟨v, hv⟩ := takeExactHbtc_of_le h.amount_pos h.held h.withdrawn
  obtain ⟨d, hd, -⟩ := add_of_lt Abort.arithmetic (a := w.ctx.timestampMs)
    (b := Const.redemptionWindowMs) h.clock
  have hopen : ∃ out, openRedemption w.slots.registry capId cap w.hashi.vault
      rh r.record w.hashi.redemptions.next w.ctx = .ok out := by
    have hnone : r.record.fundedBatchId.isSome = false := by
      rw [h.unfunded]
      rfl
    have hbound : assertCapMatchesRound w.slots.registry rh.roundId capId
        = .ok () := by
      rw [← hround]
      exact assertCapMatchesRound_eq_ok.mpr ⟨b, hb, hcapId⟩
    exact ⟨_, bind_eq_ok.mpr ⟨(), require_eq_ok.mpr hround,
      bind_eq_ok.mpr ⟨(), require_eq_ok.mpr (decide_eq_true h.confirmed),
      bind_eq_ok.mpr ⟨(), require_eq_ok.mpr hnone,
      bind_eq_ok.mpr ⟨(), hbound,
      bind_eq_ok.mpr ⟨(), require_eq_ok.mpr hsupply,
      bind_eq_ok.mpr ⟨(), require_eq_ok.mpr h.amount_pos,
      bind_eq_ok.mpr ⟨v, hv, bind_eq_ok.mpr ⟨d, hd,
      bind_eq_ok.mpr ⟨_, markFunded_eq_ok.mpr ⟨h.unfunded, rfl⟩,
      rfl⟩⟩⟩⟩⟩⟩⟩⟩⟩⟩
  obtain ⟨out, hok⟩ := hopen
  exact ⟨_, bind_eq_ok.mpr ⟨cap, load_eq_ok.mpr hcap,
    bind_eq_ok.mpr ⟨rh, load_eq_ok.mpr hhist,
    bind_eq_ok.mpr ⟨r, load_eq_ok.mpr hr, bind_eq_ok.mpr ⟨out, hok, rfl⟩⟩⟩⟩⟩

-- ========================================================= one is opened

/-- A record is funded by `lane`. -/
def World.FundedVia (w : World) (rid : ID) (lane : FundedBy) : Prop :=
  ∃ r, w.hashi.records.get rid = some r ∧ r.record.fundedBatchId = some lane

/-- An opened batch has the whole amount, and the record is its. -/
theorem batch_opened {w' : World} {hid : ID}
    (hr : w.hashi.records.get rid = some r)
    (hs : w.exec H (.openAndFundRoundBatch hid rid) = .ok w') :
    w'.FundedVia rid (.batch w.hashi.batches.next)
      ∧ ∃ b, w'.hashi.batches.get w.hashi.batches.next = some b
        ∧ b.roundId = r.record.roundId
        ∧ b.totalSats = r.record.amountSats
        ∧ b.balance = r.record.amountSats := by
  simp only [World.exec, World.openAndFundRoundBatch, bind_eq_ok, load_eq_ok,
    pure_eq_ok] at hs
  obtain ⟨rh, hhist, r', hr', out, hok, heq⟩ := hs
  rw [hr] at hr'
  cases hr'
  subst heq
  have hopened := openAndFundRoundBatch_ok hok
  refine ⟨⟨_, ObjStore.get_put_self _ hr, ?_⟩, out.batch,
    ObjStore.get_alloc_self .., ?_, hopened.batch_total,
    hopened.batch_balance⟩
  · show out.record.fundedBatchId = _
    rw [hopened.record_eq]
  · rw [hopened.batch_round, hopened.round]

theorem redemption_opened {w' : World} {hid capId : ID}
    (hr : w.hashi.records.get rid = some r)
    (hs : w.exec H (.openRedemption capId hid rid) = .ok w') :
    w'.FundedVia rid (.redemption w.hashi.redemptions.next)
      ∧ ∃ d, w'.hashi.redemptions.get w.hashi.redemptions.next = some d
        ∧ d.roundId = r.record.roundId
        ∧ d.totalSats = r.record.amountSats
        ∧ d.balance = r.record.amountSats := by
  simp only [World.exec, World.openRedemption, bind_eq_ok, load_eq_ok,
    pure_eq_ok] at hs
  obtain ⟨cap, hcap, rh, hhist, r', hr', out, hok, heq⟩ := hs
  rw [hr] at hr'
  cases hr'
  subst heq
  have hopened := openRedemption_ok hok
  refine ⟨⟨_, ObjStore.get_put_self _ hr, ?_⟩, out.redemption,
    ObjStore.get_alloc_self .., ?_, hopened.total_eq, hopened.balance_eq⟩
  · show out.record.fundedBatchId = _
    rw [hopened.record_eq]
  · rw [hopened.round_eq, hopened.round]

-- ====================================================== and none after it

/-- Whatever follows, a funded record stays funded by the same lane and
opens no other. -/
structure Spent (publisher : Address) (H : HashFn) (w : World) (rid : ID)
    (lane : FundedBy) : Prop where
  kept : ∀ w', (contract H publisher).Leads w w' → w'.FundedVia rid lane
  no_batch : ∀ w', (contract H publisher).Leads w w' → ∀ hid w'',
    w'.exec H (.openAndFundRoundBatch hid rid) ≠ .ok w''
  no_redemption : ∀ w', (contract H publisher).Leads w w' →
    ∀ capId hid w'', w'.exec H (.openRedemption capId hid rid) ≠ .ok w''

theorem World.FundedVia.not_unfunded {lane : FundedBy}
    (h : w.FundedVia rid lane) (hr : w.hashi.records.get rid = some r) :
    r.record.fundedBatchId ≠ none := by
  obtain ⟨r', hr', hfunded⟩ := h
  rw [hr] at hr'
  cases hr'
  rw [hfunded]
  exact Option.some_ne_none lane

/-- A funded record opens nothing. -/
theorem World.FundedVia.refused {lane : FundedBy}
    (h : w.FundedVia rid lane) :
    (∀ hid w', w.exec H (.openAndFundRoundBatch hid rid) ≠ .ok w')
      ∧ ∀ capId hid w', w.exec H (.openRedemption capId hid rid) ≠ .ok w' := by
  constructor
  · intro hid w' hs
    rcases World.exec_hashi hs with ⟨-, hstep⟩ | ⟨hoff, -⟩
    · cases hstep with
      | openBatch _ hr hok => exact h.not_unfunded hr hok.unfunded
    · cases hoff
  · intro capId hid w' hs
    rcases World.exec_hashi hs with ⟨-, hstep⟩ | ⟨hoff, -⟩
    · cases hstep with
      | openRedemption _ _ hr hok => exact h.not_unfunded hr hok.unfunded
    · cases hoff

theorem World.FundedVia.spent {lane : FundedBy} (h : w.FundedVia rid lane) :
    Spent publisher H w rid lane := by
  have hkept : ∀ w', (contract H publisher).Leads w w' →
      w'.FundedVia rid lane := by
    obtain ⟨r, hr, hfunded⟩ := h
    intro w' hw'
    obtain ⟨r', hr', honward⟩ := records_onward hw' hr
    exact ⟨r', hr', honward.funded lane hfunded⟩
  exact ⟨hkept, fun w' hw' => (hkept w' hw').refused.1,
    fun w' hw' => (hkept w' hw').refused.2⟩

/-- While a confirmed record is unfunded, either lane can be opened on
it; whichever is opened first has the whole amount; and from then on, in
every continuation, the record stays with that lane and both openings are
refused on it. -/
theorem deposit_funds_one_lane
    (hr : w.hashi.records.get rid = some r) :
    (∀ hid capId, LanesReady w r hid capId →
        (∃ w', w.exec H (.openAndFundRoundBatch hid rid) = .ok w')
          ∧ ∃ w', w.exec H (.openRedemption capId hid rid) = .ok w')
      ∧ (∀ hid w', w.exec H (.openAndFundRoundBatch hid rid) = .ok w' →
          Spent publisher H w' rid (.batch w.hashi.batches.next)
            ∧ ∃ b, w'.hashi.batches.get w.hashi.batches.next = some b
              ∧ b.roundId = r.record.roundId
              ∧ b.totalSats = r.record.amountSats
              ∧ b.balance = r.record.amountSats)
      ∧ ∀ capId hid w', w.exec H (.openRedemption capId hid rid) = .ok w' →
          Spent publisher H w' rid (.redemption w.hashi.redemptions.next)
            ∧ ∃ d, w'.hashi.redemptions.get w.hashi.redemptions.next = some d
              ∧ d.roundId = r.record.roundId
              ∧ d.totalSats = r.record.amountSats
              ∧ d.balance = r.record.amountSats := by
  refine ⟨fun hid capId h => ⟨h.batch hr, h.redemption hr⟩,
    fun hid w' hs => ?_, fun capId hid w' hs => ?_⟩
  · obtain ⟨hfunded, hbatch⟩ := batch_opened hr hs
    exact ⟨hfunded.spent, hbatch⟩
  · obtain ⟨hfunded, hredemption⟩ := redemption_opened hr hs
    exact ⟨hfunded.spent, hredemption⟩

-- ================================================================== a run

/-- Two miners work on a round: the first keeps its share for the pool's
reward, the second mints its own as coins. The round is closed, and its
deposit of 1000 sats confirmed and collected. -/
def splitRound : List Call :=
  [.hashiAdmin (.initializeConfig (leBytes 32 0)),
   .slot .createCurrency,
   .slot (.registerSlot 0 []),
   .slot (.bindSlotToRound 0),
   .admin (.registerTemplate block125552),
   .beginTx 1 0 0,
   .mining (.registerMiner []),
   .mining (.createRoundStats 0 0),
   .mining (.createShareDedup 0),
   .mining (.submitShare 0 ⟨0, 0, 0⟩ solution125552),
   .beginTx 2 0 0,
   .mining (.registerMiner []),
   .mining (.createRoundStats 0 0),
   .mining (.createShareDedup 0),
   .mining (.submitShare 0 ⟨1, 1, 1⟩ solution125552),
   .mintShare 0 0 1,
   .beginTx 1 0 0,
   .mining (.openRoundAccumulatorFromClaim 0),
   .mining (.accumulateMinerStats 0 [0]),
   .recordBlockFound 0 0 (leBytes 32 1) 0 1000,
   .beginTx 0 0 5000,
   .mining (.finalizeRound 0),
   .hashiAdmin (.registerWithHashi 0),
   .hashiAdmin (.markHashiApproved 0),
   .hashi (.hashiCredit 1000),
   .hashiAdmin (.markHashiConfirmed 0 0),
   .hashi (.claimAccumulatedHbtc 1000)]

/-- The round has work and coins, and its deposit is confirmed. -/
structure Split (w : World) (r : RecordObject) : Prop where
  record : w.hashi.records.get 0 = some r
  work : ∃ rh, w.mining.histories.get 0 = some rh
    ∧ rh.roundId = r.record.roundId ∧ 0 < rh.totalWork
  coins : ∃ b cap, w.slots.registry.rounds r.record.roundId = some b
    ∧ w.slots.caps.get b.capId = some cap ∧ 0 < cap.totalSupply
  confirmed : r.record.status = .confirmed

def splitAt (w : World) (r : RecordObject) : Bool :=
  ((w.mining.histories.get 0).any fun rh =>
      decide (rh.roundId = r.record.roundId ∧ 0 < rh.totalWork))
    && ((w.slots.registry.rounds r.record.roundId).any fun b =>
      (w.slots.caps.get b.capId).any fun cap =>
        decide (0 < cap.totalSupply))
    && decide (r.record.status = .confirmed)

theorem split_of_splitAt (hr : w.hashi.records.get 0 = some r)
    (h : splitAt w r = true) : Split w r := by
  rw [splitAt, Bool.and_eq_true, Bool.and_eq_true] at h
  obtain ⟨⟨hwork, hcoins⟩, hconfirmed⟩ := h
  obtain ⟨rh, hrh, hwork⟩ := (Option.any_eq_true ..).mp hwork
  obtain ⟨hround, hpos⟩ := of_decide_eq_true hwork
  obtain ⟨b, hb, hcoins⟩ := (Option.any_eq_true ..).mp hcoins
  obtain ⟨cap, hcap, hsupply⟩ := (Option.any_eq_true ..).mp hcoins
  exact ⟨hr, ⟨rh, hrh, hround, hpos⟩,
    ⟨b, cap, hb, hcap, of_decide_eq_true hsupply⟩,
    of_decide_eq_true hconfirmed⟩

/-- Opened as a batch, that deposit stays with the batch. -/
theorem deposit_funds_one_lane_splitRound :
    ∃ w w', Machine.Reach (contract sha256 0) w
      ∧ w.exec sha256 (.openAndFundRoundBatch 0 0) = .ok w'
      ∧ Spent 0 sha256 w' 0 (.batch w.hashi.batches.next) := by
  have hrun : (contract sha256 0).endsIn splitRound (fun w =>
      (w.hashi.records.get 0).isSome
        && (w.exec sha256 (.openAndFundRoundBatch 0 0)).toOption.isSome)
      = true := by
    decide +kernel
  obtain ⟨w, hw, hcheck⟩ := Machine.reach_of_endsIn hrun
  rw [Bool.and_eq_true] at hcheck
  obtain ⟨r, hr⟩ := Option.isSome_iff_exists.mp hcheck.1
  obtain ⟨w', hw'⟩ := Option.isSome_iff_exists.mp hcheck.2
  have hs := toOption_eq_some.mp hw'
  exact ⟨w, w', hw, hs, ((deposit_funds_one_lane hr).2.1 0 w' hs).1⟩

/-- In either order of the two calls, the lane that comes second never
gets anything of the deposit. -/
theorem one_lane_unfunded :
    ∃ w r, Machine.Reach (contract sha256 0) w ∧ Split w r
      ∧ (∃ w₁, w.exec sha256 (.openAndFundRoundBatch 0 0) = .ok w₁
        ∧ ∀ w', (contract sha256 0).Leads w₁ w' → ∀ capId hid w'',
          w'.exec sha256 (.openRedemption capId hid 0) ≠ .ok w'')
      ∧ ∃ w₂, w.exec sha256 (.openRedemption 0 0 0) = .ok w₂
        ∧ ∀ w', (contract sha256 0).Leads w₂ w' → ∀ hid w'',
          w'.exec sha256 (.openAndFundRoundBatch hid 0) ≠ .ok w'' := by
  have hrun : (contract sha256 0).endsIn splitRound (fun w =>
      ((w.hashi.records.get 0).any fun r => splitAt w r)
        && (w.exec sha256 (.openAndFundRoundBatch 0 0)).toOption.isSome
        && (w.exec sha256 (.openRedemption 0 0 0)).toOption.isSome)
      = true := by
    decide +kernel
  obtain ⟨w, hw, hcheck⟩ := Machine.reach_of_endsIn hrun
  rw [Bool.and_eq_true, Bool.and_eq_true] at hcheck
  obtain ⟨⟨hsplit, hbatch⟩, hredemption⟩ := hcheck
  obtain ⟨r, hr, hsplit⟩ := (Option.any_eq_true ..).mp hsplit
  obtain ⟨w₁, hw₁⟩ := Option.isSome_iff_exists.mp hbatch
  obtain ⟨w₂, hw₂⟩ := Option.isSome_iff_exists.mp hredemption
  have hs₁ := toOption_eq_some.mp hw₁
  have hs₂ := toOption_eq_some.mp hw₂
  exact ⟨w, r, hw, split_of_splitAt hr hsplit,
    ⟨w₁, hs₁, (batch_opened hr hs₁).1.spent.no_redemption⟩,
    w₂, hs₂, (redemption_opened hr hs₂).1.spent.no_batch⟩

end M1n3Protocol
