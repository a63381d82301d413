/-
Redemptions of a slot's coins: as long as no coin is added to the slot
while one is open, every coin can be redeemed in time for its floor.

# The invariant

A redemption pays out of a snapshot: `supplyAtOpen` parts of its total,
of which `outstandingSupply` are not burned yet. `RedemptionBooks` says
that what it paid stays within the share of the burned parts, in any
order of redemptions. `CountedBy` says that the coins of the slot are
among the outstanding parts; it is what a mint after the opening breaks,
and the only part that asks something of the calls.
-/
import M1n3Protocol.Chain.HashiStep
import M1n3Protocol.Lib.ProRata
import M1n3Protocol.Proofs.Supply

namespace M1n3Protocol

open Checked

/-- What a redemption has burned so far. -/
def Redemption.burned (r : Redemption) : Nat :=
  r.supplyAtOpen.toNat - r.outstandingSupply.toNat

structure RedemptionBooks (w : World) : Prop where
  supply_pos : w.hashi.redemptions.All fun r => 0 < r.supplyAtOpen.toNat
  outstanding_le : w.hashi.redemptions.All fun r =>
    r.outstandingSupply.toNat ≤ r.supplyAtOpen.toNat
  paid_le : w.hashi.redemptions.All fun r => r.paidSats.toNat
    ≤ ProRata.share r.burned r.totalSats.toNat r.supplyAtOpen.toNat
  held : w.hashi.redemptions.All fun r => r.isExpired = false →
    r.balance.toNat + r.paidSats.toNat = r.totalSats.toNat
  swept_late : w.hashi.redemptions.All fun r => r.isExpired = true →
    r.deadlineMs ≤ w.ctx.timestampMs

variable {H : HashFn} {w w' : World}

theorem RedemptionBooks.init (publisher : Address) :
    RedemptionBooks (World.init publisher) where
  supply_pos := .empty
  outstanding_le := .empty
  paid_le := .empty
  held := .empty
  swept_late := .empty

/-- Where no redemption changes, time may pass. -/
theorem RedemptionBooks.later (hb : RedemptionBooks w)
    (hsame : w'.hashi.redemptions = w.hashi.redemptions)
    (hclock : w.ctx.timestampMs ≤ w'.ctx.timestampMs) :
    RedemptionBooks w' where
  supply_pos := by rw [hsame]; exact hb.supply_pos
  outstanding_le := by rw [hsame]; exact hb.outstanding_le
  paid_le := by rw [hsame]; exact hb.paid_le
  held := by rw [hsame]; exact hb.held
  swept_late := by
    rw [hsame]
    intro i r hi hexp
    exact BitVec.le_trans (hb.swept_late i r hi hexp) hclock

/-- The payout of the next units burned still fits beside what was paid,
whatever was redeemed before. -/
theorem RedemptionBooks.payout_fits (hb : RedemptionBooks w) {did : ID}
    {r : Redemption} {n : Nat} (hr : w.hashi.redemptions.get did = some r)
    (hn : n ≤ r.outstandingSupply.toNat) :
    r.paidSats.toNat
        + ProRata.share n r.totalSats.toNat r.supplyAtOpen.toNat
      ≤ ProRata.share (r.burned + n) r.totalSats.toNat r.supplyAtOpen.toNat
    ∧ ProRata.share (r.burned + n) r.totalSats.toNat r.supplyAtOpen.toNat
      ≤ r.totalSats.toNat := by
  have hpaid := hb.paid_le did r hr
  have hout := hb.outstanding_le did r hr
  have hadd := ProRata.share_add_le r.burned n r.totalSats.toNat
    r.supplyAtOpen.toNat
  refine ⟨by omega, ProRata.share_le ?_ _⟩
  unfold Redemption.burned
  omega

theorem RedemptionBooks.redeem (hb : RedemptionBooks w) {did : ID}
    {r : Redemption} {cap : TreasuryCap} {units : U64} {out : Redeemed}
    {slots : Slots} {paidOut : Nat}
    (hr : w.hashi.redemptions.get did = some r)
    (hok : RedeemedOk r cap units w.ctx out) :
    RedemptionBooks { w with
      slots
      hashi := { w.hashi with
        redemptions := w.hashi.redemptions.put did out.redemption
        paidOut } } := by
  have hout := hok.outstanding_eq
  have hle := hb.outstanding_le did r hr
  have hheld := hb.held did r hr hok.live
  have hbal := hok.balance_eq
  have hpaid := hok.paid_eq
  have hburned : out.redemption.burned = r.burned + units.toNat := by
    unfold Redemption.burned
    rw [hok.supply_eq]
    omega
  have hfits := (hb.payout_fits hr (n := units.toNat) (by omega)).1
  refine {
    supply_pos := hb.supply_pos.put ?_
    outstanding_le := hb.outstanding_le.put ?_
    paid_le := hb.paid_le.put ?_
    held := hb.held.put fun _ => ?_
    swept_late := hb.swept_late.put fun hexp => ?_ }
  · rw [hok.supply_eq]
    exact hb.supply_pos did r hr
  · rw [hok.supply_eq]
    omega
  · rw [hpaid, hburned, hok.payout_eq, hok.total_eq, hok.supply_eq]
    exact hfits
  · rw [hok.total_eq]
    omega
  · rw [hok.live_eq] at hexp
    cases hexp

theorem RedemptionBooks.step {c : Call} (hb : RedemptionBooks w)
    (hs : World.HashiStep w c w') : RedemptionBooks w' := by
  cases hs with
  | initializeConfig | config | mark | confirm | record | credit
  | transferCoin | receive | collect | openBatch | claim | recycleBatch =>
      exact hb.later rfl (BitVec.le_refl _)
  | openRedemption hcap hhist hr hok =>
      have hzero : (0 : U64).toNat = 0 := rfl
      refine {
        supply_pos := hb.supply_pos.alloc ?_
        outstanding_le := hb.outstanding_le.alloc ?_
        paid_le := hb.paid_le.alloc ?_
        held := hb.held.alloc fun _ => ?_
        swept_late := hb.swept_late.alloc fun hexp => ?_ }
      · rw [hok.supply_eq]
        exact hok.supply_pos
      · rw [hok.supply_eq, hok.outstanding_eq]
      · rw [hok.paid_eq, hzero]
        exact Nat.zero_le _
      · rw [hok.balance_eq, hok.paid_eq, hok.total_eq, hzero]
        rfl
      · rw [hok.expired_eq] at hexp
        cases hexp
  | redeem hr hcap hcoin hrcap hkcap hok => exact hb.redeem hr hok
  | @recycleRedemption did r r' vault hr hok =>
      obtain ⟨-, hlate, -, rfl⟩ := recycleExpiredRedemption_ok hok
      exact {
        supply_pos := hb.supply_pos.put (hb.supply_pos did r hr)
        outstanding_le := hb.outstanding_le.put (hb.outstanding_le did r hr)
        paid_le := hb.paid_le.put (hb.paid_le did r hr)
        held := hb.held.put fun hlive => by cases hlive
        swept_late := hb.swept_late.put fun _ => hlate }

/-- In time, a redemption has not been swept. -/
theorem RedemptionBooks.live (hb : RedemptionBooks w) {did : ID}
    {r : Redemption} (hr : w.hashi.redemptions.get did = some r)
    (htime : w.ctx.timestampMs < r.deadlineMs) : r.isExpired = false := by
  by_contra hexp
  have hlate := hb.swept_late did r hr (by simpa using hexp)
  exact absurd (Nat.lt_of_lt_of_le htime hlate) (Nat.lt_irrefl _)

/-- In time, a coin that the redemption still counts and the cap still
backs is redeemed for its floor. -/
theorem RedemptionBooks.exec_redeem (hb : RedemptionBooks w)
    {did capId kid : ID} {r : Redemption} {cap : TreasuryCap} {coin : Coin}
    (hr : w.hashi.redemptions.get did = some r) (hrcap : r.capId = capId)
    (htime : w.ctx.timestampMs < r.deadlineMs)
    (hcap : w.slots.caps.get capId = some cap)
    (hcoin : w.slots.coins.get kid = some coin) (hkcap : coin.capId = capId)
    (hpos : 0 < coin.value.toNat)
    (hcount : coin.value.toNat ≤ r.outstandingSupply.toNat)
    (hsupply : coin.value.toNat ≤ cap.totalSupply.toNat) :
    ∃ w', w.exec H (.redeem did capId kid) = .ok w'
      ∧ w'.hashi.paidOut = w.hashi.paidOut
        + coin.value.toNat * r.totalSats.toNat / r.supplyAtOpen.toNat := by
  have hlive := hb.live hr htime
  obtain ⟨hfits, htotal⟩ := hb.payout_fits hr hcount
  obtain ⟨out, hok⟩ := redeem_of_counted hlive htime hpos hcount hsupply
    (hb.supply_pos did r hr) (hb.held did r hr hlive) (hfits.trans htotal)
  rw [← (redeem_ok hok).payout_eq]
  simp only [World.exec, World.redeem, bind_eq_ok, load_eq_ok, require_eq_ok,
    pure_eq_ok]
  exact ⟨_, ⟨r, hr, cap, hcap, coin, hcoin, (), ⟨hrcap, hkcap⟩, out, hok, rfl⟩,
    rfl⟩

theorem redemptionBooks_of_reach {publisher : Address}
    (h : Machine.Reach (contract H publisher) w) : RedemptionBooks w := by
  refine Machine.ReachVia.invariant (I := RedemptionBooks)
    (RedemptionBooks.init publisher) ?_ h
  intro w c w' hb _ hs
  rcases World.exec_hashi hs with ⟨-, hstep⟩ | ⟨-, hsame, hclock⟩
  · exact hb.step hstep
  · exact hb.later (by rw [hsame]) hclock

-- ============================================================= the snapshot

/-- A redemption of the slot's coins is open and in time. -/
def World.redeemable (w : World) (capId : ID) : Prop :=
  ∃ did r, w.hashi.redemptions.get did = some r ∧ r.capId = capId
    ∧ w.ctx.timestampMs < r.deadlineMs

/-- Nothing adds to the coins of the slot, nor takes its cap away, while a
redemption of them is open. -/
def mintedBeforeOpen (capId : ID) (w : World) : Call → Prop
  | .mintShare id _ _ => id = capId → ¬ w.redeemable capId
  | .slot (.coinMint id value) => id = capId → value ≠ 0 →
      ¬ w.redeemable capId
  | .slot (.treasuryIntoSupply id) => id = capId → ¬ w.redeemable capId
  | _ => True

/-- Every open redemption of the slot counts all the coins there are. -/
def CountedBy (capId : ID) (w : World) : Prop :=
  ∀ did r, w.hashi.redemptions.get did = some r → r.capId = capId →
    w.ctx.timestampMs < r.deadlineMs →
    ∃ cap, w.slots.caps.get capId = some cap
      ∧ cap.totalSupply.toNat ≤ r.outstandingSupply.toNat

/-- A call on the slots alone: coins may only go. -/
theorem CountedBy.slots {capId : ID} {c : Call} (hc : CountedBy capId w)
    (hcond : mintedBeforeOpen capId w c) (hoff : c.onHashi = false)
    (hs : Slots.Step w.slots c w'.slots)
    (hsame : w'.hashi.redemptions = w.hashi.redemptions)
    (hclock : w.ctx.timestampMs ≤ w'.ctx.timestampMs) :
    CountedBy capId w' := by
  intro did r hr hcap htime
  rw [hsame] at hr
  have htime' : w.ctx.timestampMs < r.deadlineMs :=
    Nat.lt_of_le_of_lt hclock htime
  have hopen : w.redeemable capId := ⟨did, r, hr, hcap, htime'⟩
  obtain ⟨cap, hget, hle⟩ := hc did r hr hcap htime'
  generalize w'.slots = s' at hs ⊢
  cases hs with
  | settings | coinSplit | coinJoin | register | bind => exact ⟨cap, hget, hle⟩
  | createCurrency => exact ⟨cap, ObjStore.get_alloc_of_some _ hget, hle⟩
  | @coinMint id value cap₀ cap' hid hok =>
      by_cases heq : id = capId
      · subst heq
        rw [hid] at hget
        cases hget
        have hzero : value = 0 := by
          by_contra hne
          exact hcond rfl hne hopen
        have hmint := coinMint_ok hok
        rw [hzero, show (0 : U64).toNat = 0 from rfl] at hmint
        exact ⟨cap', ObjStore.get_put_self _ hid, by omega⟩
      · exact ⟨cap, (ObjStore.get_put_ne _ (Ne.symm heq)).trans hget, hle⟩
  | @coinBurn id kid coin cap₀ cap' hid hcoin hof hok =>
      by_cases heq : id = capId
      · rw [heq] at hid
        rw [hid] at hget
        cases hget
        have hburn := coinBurn_ok hok
        rw [heq]
        exact ⟨cap', ObjStore.get_put_self _ hid, by omega⟩
      · exact ⟨cap, (ObjStore.get_put_ne _ (Ne.symm heq)).trans hget, hle⟩
  | treasuryIntoSupply hid =>
      refine ⟨cap, ?_, hle⟩
      rw [ObjStore.get_erase_ne fun heq => hcond heq.symm hopen]
      exact hget
  | mintShare hid hround hbind hok =>
      refine ⟨cap, ?_, hle⟩
      rw [ObjStore.get_put_ne _ fun heq => hcond heq.symm hopen]
      exact hget
  | redeem => cases hoff

/-- A redemption burns as many coins as it stops counting, and no other
redemption of the slot counts fewer for it. -/
theorem CountedBy.redeem {capId id did kid : ID} {r : Redemption}
    {cap : TreasuryCap} {coin : Coin} {out : Redeemed}
    (hc : CountedBy capId w) (hr : w.hashi.redemptions.get did = some r)
    (hcap : w.slots.caps.get id = some cap) (hrcap : r.capId = id)
    (hok : RedeemedOk r cap coin.value w.ctx out)
    {burns : ObjStore BurnEntry} {paidOut : Nat} :
    CountedBy capId { w with
      slots := { w.slots with
        caps := w.slots.caps.put id out.cap
        coins := w.slots.coins.erase kid
        burns }
      hashi := { w.hashi with
        redemptions := w.hashi.redemptions.put did out.redemption
        paidOut } } := by
  have hburn := coinBurn_ok hok.burn_ok
  have hout := hok.outstanding_eq
  intro did' r' hr' hcap' htime'
  rcases ObjStore.get_put_eq_some hr' with ⟨rfl, rfl, -⟩ | ⟨-, hr'⟩
  · have hid : id = capId := by
      rw [← hrcap, ← hok.cap_eq]
      exact hcap'
    subst hid
    obtain ⟨cap₀, hget, hle⟩ := hc did' r hr hrcap hok.in_time
    rw [hcap] at hget
    cases hget
    exact ⟨out.cap, ObjStore.get_put_self _ hcap, by omega⟩
  · obtain ⟨cap₀, hget, hle⟩ := hc did' r' hr' hcap' htime'
    by_cases hid : id = capId
    · subst hid
      rw [hcap] at hget
      cases hget
      exact ⟨out.cap, ObjStore.get_put_self _ hcap, by omega⟩
    · exact ⟨cap₀, (ObjStore.get_put_ne _ (Ne.symm hid)).trans hget, hle⟩

theorem CountedBy.step {capId : ID} {c : Call} (hc : CountedBy capId w)
    (hs : World.HashiStep w c w') : CountedBy capId w' := by
  cases hs with
  | initializeConfig | config | mark | confirm | record | credit
  | transferCoin | receive | collect | openBatch | claim | recycleBatch =>
      exact hc
  | @openRedemption id hid rid cap rh r out hcap hhist hr hok =>
      intro did r' hr' hcap' htime'
      rcases ObjStore.get_alloc_eq_some hr' with ⟨-, rfl⟩ | hr'
      · rw [hok.cap_eq] at hcap'
        subst hcap'
        refine ⟨cap, hcap, ?_⟩
        rw [hok.outstanding_eq]
      · exact hc did r' hr' hcap' htime'
  | redeem hr hcap hcoin hrcap hkcap hok => exact hc.redeem hr hcap hrcap hok
  | @recycleRedemption did r r' vault hr hok =>
      obtain ⟨-, -, -, rfl⟩ := recycleExpiredRedemption_ok hok
      intro did' r' hr' hcap' htime'
      rcases ObjStore.get_put_eq_some hr' with ⟨rfl, rfl, -⟩ | ⟨-, hr'⟩
      · exact hc did' r hr hcap' htime'
      · exact hc did' r' hr' hcap' htime'

/-- A call off the hBTC side. -/
theorem CountedBy.off {capId : ID} {c : Call} (hc : CountedBy capId w)
    (hcond : mintedBeforeOpen capId w c) (hs : w.exec H c = .ok w')
    (hoff : c.onHashi = false) (hsame : w'.hashi = w.hashi)
    (hclock : w.ctx.timestampMs ≤ w'.ctx.timestampMs) :
    CountedBy capId w' := by
  rcases World.exec_slots hs with ⟨-, hslots⟩ | ⟨-, hslots⟩
  · exact hc.slots hcond hoff hslots (by rw [hsame]) hclock
  · intro did r hr hcap htime
    rw [hsame] at hr
    rw [hslots]
    exact hc did r hr hcap (Nat.lt_of_le_of_lt hclock htime)

-- ================================================================ solvency

/-- In every run that adds no coin to a slot while a redemption of it is
open, an open redemption counts every coin of the slot, and each of them
can be redeemed in time for the floor of its share. -/
theorem redemption_solvent {publisher : Address} {capId : ID}
    (h : Machine.ReachVia (contract H publisher) (mintedBeforeOpen capId) w)
    {did : ID} {r : Redemption}
    (hr : w.hashi.redemptions.get did = some r) (hrcap : r.capId = capId)
    (htime : w.ctx.timestampMs < r.deadlineMs) :
    w.slots.heldUnits capId ≤ r.outstandingSupply.toNat
      ∧ ∀ kid coin, w.slots.coins.get kid = some coin →
        coin.capId = capId → 0 < coin.value.toNat →
        ∃ w', w.exec H (.redeem did capId kid) = .ok w'
          ∧ w'.hashi.paidOut = w.hashi.paidOut
            + coin.value.toNat * r.totalSats.toNat
              / r.supplyAtOpen.toNat := by
  have hb := redemptionBooks_of_reach h.reach
  have hcoins := (slotBooks_of_reach h.reach).1
  have hcounted : CountedBy capId w := by
    refine Machine.ReachVia.invariant (I := CountedBy capId) ?_ ?_ h
    · intro did r hr
      cases hr
    · intro w c w' hc hcond hs
      rcases World.exec_hashi hs with ⟨-, hstep⟩ | ⟨hoff, hsame, hclock⟩
      · exact hc.step hstep
      · exact hc.off hcond hs hoff hsame hclock
  obtain ⟨cap, hcap, hle⟩ := hcounted did r hr hrcap htime
  have hsupply := hcoins.supply_eq capId cap hcap
  refine ⟨by omega, fun kid coin hcoin hkcap hpos => ?_⟩
  have hvalue := ObjStore.le_sum hcoin fun c =>
    if c.capId = capId then c.value.toNat else 0
  simp only [if_pos hkcap] at hvalue
  unfold Slots.heldUnits at hsupply
  have hcount : coin.value.toNat ≤ r.outstandingSupply.toNat := by omega
  exact hb.exec_redeem hr hrcap htime hcap hcoin hkcap hpos hcount (by omega)

/-- A minted share, its round's block confirmed for 1000 sats, and the
redemption opened; miner 2 has made its objects for the same round. -/
def openedRedemption : List Call :=
  .hashiAdmin (.initializeConfig (leBytes 32 0)) :: mintedShare ++
  [.mining (.openRoundAccumulatorFromClaim 0),
   .recordBlockFound 0 0 (leBytes 32 1) 0 1000,
   .beginTx 2 0 0,
   .mining (.registerMiner []),
   .mining (.createRoundStats 0 0),
   .mining (.createShareDedup 0),
   .beginTx 0 0 5000,
   .mining (.finalizeRound 0),
   .hashiAdmin (.registerWithHashi 0),
   .hashiAdmin (.markHashiApproved 0),
   .hashi (.hashiCredit 1000),
   .hashiAdmin (.markHashiConfirmed 0 0),
   .hashi (.claimAccumulatedHbtc 1000),
   .openRedemption 0 0 0]

/-- Whatever mints does so before there is any redemption. -/
def mintsFirst (w : World) : Call → Bool
  | .mintShare .. | .slot (.coinMint ..) | .slot (.treasuryIntoSupply _) =>
      decide (w.hashi.redemptions.next = 0)
  | _ => true

theorem mintedBeforeOpen_of_mintsFirst (capId : ID) (w : World) (c : Call)
    (h : mintsFirst w c = true) : mintedBeforeOpen capId w c := by
  have hnone : w.hashi.redemptions.next = 0 → ¬ w.redeemable capId := by
    rintro hnext ⟨did, r, hr, -⟩
    have := ObjStore.lt_next hr
    omega
  cases c with
  | mintShare => exact fun _ => hnone (of_decide_eq_true h)
  | slot c =>
      cases c with
      | coinMint => exact fun _ _ => hnone (of_decide_eq_true h)
      | treasuryIntoSupply => exact fun _ => hnone (of_decide_eq_true h)
      | _ => trivial
  | _ => trivial

/-- Redemption 0 and coin 0 of slot 0, the coin worth a payout in time. -/
def holdsRedeemable (w : World) : Bool :=
  match w.hashi.redemptions.get 0, w.slots.coins.get 0 with
  | some r, some coin => decide (r.capId = 0
      ∧ w.ctx.timestampMs < r.deadlineMs ∧ coin.capId = 0
      ∧ 0 < coin.value.toNat
      ∧ coin.value.toNat * r.totalSats.toNat / r.supplyAtOpen.toNat = 990)
  | _, _ => false

theorem of_holdsRedeemable {w : World} (h : holdsRedeemable w = true) :
    ∃ r coin, w.hashi.redemptions.get 0 = some r
      ∧ w.slots.coins.get 0 = some coin ∧ r.capId = 0
      ∧ w.ctx.timestampMs < r.deadlineMs ∧ coin.capId = 0
      ∧ 0 < coin.value.toNat
      ∧ coin.value.toNat * r.totalSats.toNat / r.supplyAtOpen.toNat
        = 990 := by
  unfold holdsRedeemable at h
  split at h
  case h_1 r coin hr hcoin =>
    exact ⟨r, coin, hr, hcoin, of_decide_eq_true h⟩
  case h_2 => cases h

/-- The miner of the minted share can redeem its coins for 990 sats. -/
theorem redemption_solvent_openedRedemption :
    ∃ w, Machine.ReachVia (contract sha256 0) (mintedBeforeOpen 0) w
      ∧ ∃ w', w.exec sha256 (.redeem 0 0 0) = .ok w'
        ∧ w'.hashi.paidOut = w.hashi.paidOut + 990 := by
  have hrun : (contract sha256 0).endsFrom mintsFirst holdsRedeemable
      openedRedemption (World.init 0) = true := by
    decide +kernel
  obtain ⟨w, hw, hcheck⟩ := Machine.reachVia_of_endsFrom
    (mintedBeforeOpen_of_mintsFirst 0) .init hrun
  obtain ⟨r, coin, hr, hcoin, hrcap, htime, hkcap, hpos, hshare⟩ :=
    of_holdsRedeemable hcheck
  obtain ⟨w', hexec, hpaid⟩ :=
    (redemption_solvent hw hr hrcap htime).2 0 coin hcoin hkcap hpos
  exact ⟨w, hw, w', hexec, by rw [hpaid, hshare]⟩

/-- Miner 2 submits a share on the same template after the opening, mints
it and redeems the coins. -/
def lateMint : List Call := openedRedemption ++
  [.beginTx 2 0 6000,
   .mining (.submitShare 0 ⟨1, 1, 1⟩ solution125552),
   .mintShare 0 0 1,
   .redeem 0 0 2]

/-- The coins of the first miner, in time, can no longer be redeemed. -/
theorem late_mint_strands_holder :
    ∃ w, Machine.Reach (contract sha256 0) w
      ∧ ∃ r coin, w.hashi.redemptions.get 0 = some r ∧ r.capId = 0
        ∧ w.ctx.timestampMs < r.deadlineMs
        ∧ w.slots.coins.get 0 = some coin ∧ coin.capId = 0
        ∧ 0 < coin.value.toNat
        ∧ ¬ ∃ w', w.exec sha256 (.redeem 0 0 0) = .ok w' := by
  have hrun : (contract sha256 0).endsIn lateMint (fun w =>
      holdsRedeemable w
        && (w.exec sha256 (.redeem 0 0 0)).toOption.isNone) = true := by
    decide +kernel
  obtain ⟨w, hw, hcheck⟩ := Machine.reach_of_endsIn hrun
  rw [Bool.and_eq_true] at hcheck
  obtain ⟨r, coin, hr, hcoin, hrcap, htime, hkcap, hpos, -⟩ :=
    of_holdsRedeemable hcheck.1
  refine ⟨w, hw, r, coin, hr, hrcap, htime, hcoin, hkcap, hpos, ?_⟩
  rintro ⟨w', hexec⟩
  have habort := hcheck.2
  rw [toOption_eq_some.mpr hexec] at habort
  cases habort

end M1n3Protocol
