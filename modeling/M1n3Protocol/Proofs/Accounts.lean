/-
The accounts of a redemption: what it counts, what it holds and what it
has paid, for every split of the coins into burns and across the
deadline.

# The log

A redemption keeps the units still outstanding, not the units burned.
`burnLog` takes those down beside the run, so that the two can be
compared.

# One redemption a slot

`openRedemption` locks the deposit record, not the round. A round with a
second record, made with a second config, can have a second redemption of
the same coins, and what is burned into one leaves the other counting
coins that are gone. `redeemsAlone` asks that coins are burned only where
the slot has one redemption; under it, and with no coins added after the
opening, the redemption counts the supply exactly.
-/
import M1n3Protocol.Proofs.Redemption

namespace M1n3Protocol

open Checked

-- ================================================================ the log

/-- The units burned into each redemption, taken down call by call. -/
def burnLog (w : World) (c : Call) (_ : World) (log : ID → Nat) :
    ID → Nat :=
  match c with
  | .redeem did _ kid =>
      match w.slots.coins.get kid with
      | some coin => fun d =>
          if d = did then log d + coin.value.toNat else log d
      | none => log
  | _ => log

def burnLogged (H : HashFn) (publisher : Address) :
    Machine Abort (World × (ID → Nat)) Call :=
  (contract H publisher).withGhost (fun _ => 0) burnLog

theorem burnLog_of_off {w w' : World} {c : Call} (hoff : c.onHashi = false)
    (log : ID → Nat) : burnLog w c w' log = log := by
  cases c with
  | redeem => cases hoff
  | _ => rfl

-- ========================================================== the conditions

/-- No share is minted on the slot once a redemption of it has been
opened. -/
def mintsBeforeOpen (capId : ID) (w : World) : Call → Prop
  | .mintShare id _ _ => id = capId → ∀ did r,
      w.hashi.redemptions.get did = some r → r.capId ≠ capId
  | _ => True

/-- Coins of the slot are burned only where it has one redemption. -/
def redeemsAlone (capId : ID) (w : World) : Call → Prop
  | .redeem did id _ => id = capId → ∀ d r,
      w.hashi.redemptions.get d = some r → r.capId = capId → d = did
  | _ => True

/-- What is asked of every call: the supply of the slot moves by mints of
shares, before the opening, and by redemptions, after it. -/
structure SoldThenRedeemed (capId : ID) (w : World) (c : Call) : Prop where
  supplied : suppliedByWork capId w c
  minted : mintsBeforeOpen capId w c
  alone : redeemsAlone capId w c

-- =============================================================== the books

structure AccountBooks (capId : ID) (p : World × (ID → Nat)) : Prop where
  burned : ∀ did r, p.1.hashi.redemptions.get did = some r →
    r.outstandingSupply.toNat + p.2 did = r.supplyAtOpen.toNat
  unopened : ∀ did, p.1.hashi.redemptions.get did = none → p.2 did = 0
  swept : p.1.hashi.redemptions.All fun r =>
    r.isExpired = true → r.balance = 0
  supply : ∀ did r, p.1.hashi.redemptions.get did = some r →
    r.capId = capId → ∃ cap, p.1.slots.caps.get capId = some cap
      ∧ cap.totalSupply.toNat = r.outstandingSupply.toNat

theorem AccountBooks.init (capId : ID) (publisher : Address) :
    AccountBooks capId (World.init publisher, fun _ => 0) where
  burned _ _ h := by cases h
  unopened _ _ := rfl
  swept := .empty
  supply _ _ h := by cases h

variable {H : HashFn} {w w' : World} {capId : ID} {log : ID → Nat}

/-- Steps that leave the redemptions, the caps and the log alone. -/
theorem AccountBooks.of_frame (hb : AccountBooks capId (w, log))
    (hred : w'.hashi.redemptions = w.hashi.redemptions)
    (hcaps : ∀ cap, w.slots.caps.get capId = some cap →
      (∃ did r, w.hashi.redemptions.get did = some r ∧ r.capId = capId) →
      ∃ cap', w'.slots.caps.get capId = some cap'
        ∧ cap'.totalSupply.toNat = cap.totalSupply.toNat) :
    AccountBooks capId (w', log) := by
  constructor
  · dsimp only
    rw [hred]
    exact hb.burned
  · dsimp only
    rw [hred]
    exact hb.unopened
  · dsimp only
    rw [hred]
    exact hb.swept
  · intro did r hr hcap
    dsimp only at hr ⊢
    rw [hred] at hr
    obtain ⟨cap, hget, hsupply⟩ := hb.supply did r hr hcap
    obtain ⟨cap', hget', hsame⟩ := hcaps cap hget ⟨did, r, hr, hcap⟩
    exact ⟨cap', hget', hsame.trans hsupply⟩

/-- Off the hBTC side the supply of a slot that has a redemption stays
where it is. -/
theorem supply_kept {c : Call} {s' : Slots} {cap : TreasuryCap}
    (hcond : SoldThenRedeemed capId w c)
    (hopen : ∃ did r, w.hashi.redemptions.get did = some r ∧ r.capId = capId)
    (hoff : c.onHashi = false) (hs : Slots.Step w.slots c s')
    (hget : w.slots.caps.get capId = some cap) :
    ∃ cap', s'.caps.get capId = some cap'
      ∧ cap'.totalSupply.toNat = cap.totalSupply.toNat := by
  have hzero : (0 : U64).toNat = 0 := rfl
  cases hs with
  | settings | coinSplit | coinJoin | register | bind =>
      exact ⟨cap, hget, rfl⟩
  | createCurrency => exact ⟨cap, ObjStore.get_alloc_of_some _ hget, rfl⟩
  | @coinMint id value cap₀ cap' hid hok =>
      by_cases heq : id = capId
      · have hmint := coinMint_ok hok
        have hvalue : value = 0 := hcond.supplied heq
        subst heq
        rw [hid] at hget
        cases hget
        rw [hvalue, hzero] at hmint
        exact ⟨cap', ObjStore.get_put_self _ hid, hmint⟩
      · exact ⟨cap, (ObjStore.get_put_ne _ (Ne.symm heq)).trans hget, rfl⟩
  | @coinBurn id kid coin cap₀ cap' hid hcoin hof hok =>
      by_cases heq : id = capId
      · have hburn := coinBurn_ok hok
        have hvalue : coin.value = 0 := hcond.supplied heq coin hcoin
        rw [heq] at hid ⊢
        rw [hid] at hget
        cases hget
        rw [hvalue, hzero] at hburn
        exact ⟨cap', ObjStore.get_put_self _ hid, hburn⟩
      · exact ⟨cap, (ObjStore.get_put_ne _ (Ne.symm heq)).trans hget, rfl⟩
  | @treasuryIntoSupply id cap₀ hid =>
      have hne : id ≠ capId := hcond.supplied
      exact ⟨cap, (ObjStore.get_erase_ne hne.symm).trans hget, rfl⟩
  | @mintShare id rid sid cap₀ cap' b roundId difficulty mu fu hid =>
      obtain ⟨did, r, hr, hcap⟩ := hopen
      have hne : id ≠ capId := fun heq => hcond.minted heq did r hr hcap
      exact ⟨cap, (ObjStore.get_put_ne _ hne.symm).trans hget, rfl⟩
  | redeem => cases hoff

/-- An opening starts the count at the supply there is. -/
theorem AccountBooks.openRedemption (hb : AccountBooks capId (w, log))
    {id rid : ID} {cap : TreasuryCap} {rh : RoundHistory} {r : RecordObject}
    {out : RedemptionOpened} {records : ObjStore RecordObject}
    (hcap : w.slots.caps.get id = some cap)
    (hok : OpenedRedemption w.slots.registry id cap w.hashi.vault rh
      r.record rid out) :
    AccountBooks capId ({ w with hashi := { w.hashi with
      vault := out.vault
      records
      redemptions := w.hashi.redemptions.alloc out.redemption } }, log) := by
  have hnew : log w.hashi.redemptions.next = 0 :=
    hb.unopened _ (ObjStore.get_next _)
  constructor
  · intro did q hq
    rcases ObjStore.get_alloc_eq_some hq with ⟨rfl, rfl⟩ | hq
    · dsimp only
      rw [hnew, hok.outstanding_eq, hok.supply_eq]
      rfl
    · exact hb.burned did q hq
  · intro did hq
    apply hb.unopened did
    dsimp only at hq ⊢
    rw [ObjStore.get_alloc] at hq
    split at hq
    case isTrue => cases hq
    case isFalse => exact hq
  · refine hb.swept.alloc fun hexp => ?_
    rw [hok.expired_eq] at hexp
    cases hexp
  · intro did q hq hqcap
    rcases ObjStore.get_alloc_eq_some hq with ⟨-, rfl⟩ | hq
    · rw [hok.cap_eq] at hqcap
      subst hqcap
      exact ⟨cap, hcap, by rw [hok.outstanding_eq]⟩
    · exact hb.supply did q hq hqcap

/-- A burn leaves the supply, the outstanding units and the log in step,
for the one redemption there is. -/
theorem AccountBooks.redeem (hb : AccountBooks capId (w, log))
    {did id kid : ID} {r : Redemption} {cap : TreasuryCap} {coin : Coin}
    {out : Redeemed} {burns : ObjStore BurnEntry} {paidOut : Nat}
    (halone : redeemsAlone capId w (.redeem did id kid))
    (hr : w.hashi.redemptions.get did = some r)
    (hcap : w.slots.caps.get id = some cap)
    (hcoin : w.slots.coins.get kid = some coin) (hrcap : r.capId = id)
    (hok : RedeemedOk r cap coin.value w.ctx out) :
    AccountBooks capId ({ w with
      slots := { w.slots with
        caps := w.slots.caps.put id out.cap
        coins := w.slots.coins.erase kid
        burns }
      hashi := { w.hashi with
        redemptions := w.hashi.redemptions.put did out.redemption
        paidOut } }, burnLog w (.redeem did id kid) w' log) := by
  have hout := hok.outstanding_eq
  have hburn := coinBurn_ok hok.burn_ok
  have hlog : burnLog w (.redeem did id kid) w' log = fun d =>
      if d = did then log d + coin.value.toNat else log d := by
    unfold burnLog
    dsimp only
    rw [hcoin]
  rw [hlog]
  constructor
  · intro d q hq
    dsimp only
    rcases ObjStore.get_put_eq_some hq with ⟨rfl, rfl, -⟩ | ⟨hne, hq⟩
    · have hold := hb.burned d r hr
      dsimp only at hold
      rw [if_pos rfl, hok.supply_eq]
      omega
    · rw [if_neg hne]
      exact hb.burned d q hq
  · intro d hq
    have hold := ObjStore.get_put_eq_none.mp hq
    have hne : d ≠ did := by
      rintro rfl
      rw [hr] at hold
      cases hold
    dsimp only
    rw [if_neg hne]
    exact hb.unopened d hold
  · refine hb.swept.put fun hexp => ?_
    rw [hok.live_eq] at hexp
    cases hexp
  · intro d q hq hqcap
    rcases ObjStore.get_put_eq_some hq with ⟨rfl, rfl, -⟩ | ⟨hne, hq⟩
    · have hid : id = capId := by
        rw [← hrcap, ← hok.cap_eq]
        exact hqcap
      subst hid
      obtain ⟨cap₀, hget, hsupply⟩ := hb.supply d r hr hrcap
      dsimp only at hget
      rw [hcap] at hget
      cases hget
      exact ⟨out.cap, ObjStore.get_put_self _ hcap, by omega⟩
    · have hid : id ≠ capId := fun heq => hne (halone heq d q hq hqcap)
      obtain ⟨cap₀, hget, hsupply⟩ := hb.supply d q hq hqcap
      exact ⟨cap₀, (ObjStore.get_put_ne _ hid.symm).trans hget, hsupply⟩

theorem AccountBooks.step {c : Call} (hb : AccountBooks capId (w, log))
    (hcond : SoldThenRedeemed capId w c) (hs : World.HashiStep w c w') :
    AccountBooks capId (w', burnLog w c w' log) := by
  cases hs with
  | initializeConfig | config | mark | confirm | record | credit
  | transferCoin | receive | collect | openBatch | claim | recycleBatch =>
      exact hb.of_frame rfl fun cap hget _ => ⟨cap, hget, rfl⟩
  | openRedemption hcap hhist hget hok => exact hb.openRedemption hcap hok
  | redeem hr hcap hcoin hrcap hkcap hok =>
      exact hb.redeem hcond.alone hr hcap hcoin hrcap hok
  | @recycleRedemption did r r' vault hr hok =>
      obtain ⟨-, -, -, rfl⟩ := recycleExpiredRedemption_ok hok
      constructor
      · intro d q hq
        rcases ObjStore.get_put_eq_some hq with ⟨rfl, rfl, -⟩ | ⟨-, hq⟩
        · exact hb.burned d r hr
        · exact hb.burned d q hq
      · intro d hq
        exact hb.unopened d (ObjStore.get_put_eq_none.mp hq)
      · exact hb.swept.put fun _ => rfl
      · intro d q hq hqcap
        rcases ObjStore.get_put_eq_some hq with ⟨rfl, rfl, -⟩ | ⟨-, hq⟩
        · exact hb.supply d r hr hqcap
        · exact hb.supply d q hq hqcap

theorem accountBooks_of_reach {publisher : Address}
    (h : Machine.ReachVia (burnLogged H publisher)
      (fun p c => SoldThenRedeemed capId p.1 c) (w, log)) :
    AccountBooks capId (w, log) := by
  refine Machine.ReachVia.withGhost_invariant
    (I := fun w log => AccountBooks capId (w, log))
    (AccountBooks.init capId publisher) ?_ h
  intro w c w' log _ hb hcond hexec
  rcases World.exec_hashi hexec with ⟨-, hstep⟩ | ⟨hoff, hsame, -⟩
  · exact hb.step hcond hstep
  · rw [burnLog_of_off hoff]
    refine hb.of_frame (by rw [hsame]) fun cap hget hopen => ?_
    rcases World.exec_slots hexec with ⟨-, hslots⟩ | ⟨-, hslots⟩
    · exact supply_kept hcond hopen hoff hslots hget
    · exact ⟨cap, by rw [hslots, hget], rfl⟩

-- ============================================================= the accounts

/-- A swept redemption stays as it is. -/
theorem World.HashiStep.swept_stays {c : Call}
    (hs : World.HashiStep w c w') {did : ID} {r : Redemption}
    (hr : w.hashi.redemptions.get did = some r) (hexp : r.isExpired = true) :
    w'.hashi.redemptions.get did = some r := by
  cases hs with
  | openRedemption => exact ObjStore.get_alloc_of_some _ hr
  | @redeem did' capId kid r' cap coin out hr' hcap hcoin hrcap hkcap hok =>
      have hne : did ≠ did' := by
        rintro rfl
        rw [hr] at hr'
        cases hr'
        rw [hok.live] at hexp
        cases hexp
      exact (ObjStore.get_put_ne _ hne).trans hr
  | @recycleRedemption did' r' r'' vault hr' hok =>
      obtain ⟨hlive, -⟩ := recycleExpiredRedemption_ok hok
      have hne : did ≠ did' := by
        rintro rfl
        rw [hr] at hr'
        cases hr'
        rw [hlive] at hexp
        cases hexp
      exact (ObjStore.get_put_ne _ hne).trans hr
  | initializeConfig | config | mark | confirm | record | credit
  | transferCoin | receive | collect | openBatch | claim | recycleBatch =>
      exact hr

/-- However the run goes on, nothing more is paid from it. -/
theorem swept_for_good {publisher : Address} {did : ID} {r : Redemption}
    (h : Machine.Reach ((contract H publisher).startAt w) w')
    (hr : w.hashi.redemptions.get did = some r) (hexp : r.isExpired = true) :
    w'.hashi.redemptions.get did = some r := by
  refine Machine.ReachVia.invariant
    (I := fun w' => w'.hashi.redemptions.get did = some r) hr ?_ h
  intro w₁ c w₂ hr₁ _ hs
  rcases World.exec_hashi hs with ⟨-, hstep⟩ | ⟨-, hsame, -⟩
  · exact hstep.swept_stays hr₁ hexp
  · rw [hsame]
    exact hr₁

/-- The sweep returns to the vault what was put in and not paid out. -/
theorem recycle_returns {did : ID} {r : Redemption}
    (hb : RedemptionBooks w) (hr : w.hashi.redemptions.get did = some r)
    (hs : w.exec H (.hashi (.recycleExpiredRedemption did)) = .ok w') :
    w'.hashi.vault.hbtc.toNat + r.paidSats.toNat
        = w.hashi.vault.hbtc.toNat + r.totalSats.toNat
      ∧ ∃ r', w'.hashi.redemptions.get did = some r' ∧ r'.isExpired = true
        ∧ r'.balance = 0 ∧ r'.paidSats = r.paidSats := by
  simp only [World.exec, Hashi.exec, bind_eq_ok, load_eq_ok, pure_eq_ok] at hs
  obtain ⟨h', ⟨q, hq, ⟨q', vault⟩, hok, rfl⟩, rfl⟩ := hs
  rw [hr] at hq
  cases hq
  obtain ⟨hlive, -, hsweep, rfl⟩ := recycleExpiredRedemption_ok hok
  obtain ⟨hvault, -⟩ := sweepToVault_ok hsweep
  have hheld := hb.held did r hr hlive
  refine ⟨?_, _, ObjStore.get_put_self _ hr, rfl, rfl, rfl⟩
  show vault.hbtc.toNat + _ = _
  omega

/-- In every run that adds no coin to a slot after a redemption of it was
opened, and burns coins of it only where it has the one redemption: the
redemption counts the units not yet burned, which are the supply; it
holds its total less what it paid until it is swept; what it paid stays
within the floor of the burned share; every coin can be redeemed in time;
and the sweep returns exactly the rest, for good. -/
theorem redemption_accounting {publisher : Address}
    (h : Machine.ReachVia (burnLogged H publisher)
      (fun p c => SoldThenRedeemed capId p.1 c) (w, log))
    {did : ID} {r : Redemption}
    (hr : w.hashi.redemptions.get did = some r) (hrcap : r.capId = capId) :
    r.outstandingSupply.toNat + log did = r.supplyAtOpen.toNat
      ∧ (∃ cap, w.slots.caps.get capId = some cap
          ∧ cap.totalSupply.toNat = r.outstandingSupply.toNat)
      ∧ (r.isExpired = false →
          r.balance.toNat + r.paidSats.toNat = r.totalSats.toNat)
      ∧ r.paidSats.toNat
          ≤ log did * r.totalSats.toNat / r.supplyAtOpen.toNat
      ∧ log did * r.totalSats.toNat / r.supplyAtOpen.toNat
          ≤ r.totalSats.toNat
      ∧ (w.ctx.timestampMs < r.deadlineMs → ∀ kid coin,
          w.slots.coins.get kid = some coin → coin.capId = capId →
          0 < coin.value.toNat →
          ∃ w', w.exec H (.redeem did capId kid) = .ok w'
            ∧ w'.hashi.paidOut = w.hashi.paidOut
              + coin.value.toNat * r.totalSats.toNat
                / r.supplyAtOpen.toNat)
      ∧ (∀ w', w.exec H (.hashi (.recycleExpiredRedemption did)) = .ok w' →
          w'.hashi.vault.hbtc.toNat + r.paidSats.toNat
              = w.hashi.vault.hbtc.toNat + r.totalSats.toNat
            ∧ ∃ r', w'.hashi.redemptions.get did = some r'
              ∧ r'.isExpired = true ∧ r'.balance = 0
              ∧ r'.paidSats = r.paidSats)
      ∧ (r.isExpired = true → r.balance = 0
          ∧ ∀ w', Machine.Reach ((contract H publisher).startAt w) w' →
            w'.hashi.redemptions.get did = some r) := by
  have hreach : Machine.Reach (contract H publisher) w :=
    (Machine.ReachVia.of_withGhost h).reach
  have hb := redemptionBooks_of_reach hreach
  have ha := accountBooks_of_reach h
  have hburned : r.outstandingSupply.toNat + log did
      = r.supplyAtOpen.toNat := ha.burned did r hr
  have hsame : r.burned = log did := by
    unfold Redemption.burned
    omega
  have hpaid : r.paidSats.toNat
      ≤ ProRata.share r.burned r.totalSats.toNat r.supplyAtOpen.toNat :=
    hb.paid_le did r hr
  rw [hsame] at hpaid
  obtain ⟨cap, hcap, hsupply⟩ := ha.supply did r hr hrcap
  dsimp only at hcap
  refine ⟨hburned, ⟨cap, hcap, hsupply⟩, hb.held did r hr, hpaid,
    ProRata.share_le (by omega) _, fun htime kid coin hcoin hkcap hpos => ?_,
    fun w' hs => recycle_returns hb hr hs,
    fun hexp => ⟨ha.swept did r hr hexp, fun w' hw' =>
      swept_for_good hw' hr hexp⟩⟩
  -- A coin of the slot is part of its supply.
  have hheld := (slotBooks_of_reach hreach).1.supply_eq capId cap hcap
  have hvalue := ObjStore.le_sum hcoin fun c =>
    if c.capId = capId then c.value.toNat else 0
  simp only [if_pos hkcap] at hvalue
  unfold Slots.heldUnits at hheld
  exact hb.exec_redeem hr hrcap htime hcap hcoin hkcap hpos (by omega)
    (by omega)

-- ================================================================ runs

/-- No call of the framework's on a cap, no mint after the first opening,
and burns into redemption 0 while it is the only one. -/
def soldThenRedeemed (w : World) (c : Call) : Bool :=
  noDirectSupply c && mintsFirst w c && match c with
    | .redeem did _ _ => decide (did = 0 ∧ w.hashi.redemptions.next ≤ 1)
    | _ => true

theorem mintsBeforeOpen_of_mintsFirst (capId : ID) (w : World) (c : Call)
    (h : mintsFirst w c = true) : mintsBeforeOpen capId w c := by
  cases c with
  | mintShare =>
      intro _ did r hr
      have hnext : w.hashi.redemptions.next = 0 := of_decide_eq_true h
      have := ObjStore.lt_next hr
      omega
  | _ => trivial

theorem of_soldThenRedeemed (capId : ID) (w : World) (c : Call)
    (h : soldThenRedeemed w c = true) : SoldThenRedeemed capId w c := by
  unfold soldThenRedeemed at h
  rw [Bool.and_eq_true, Bool.and_eq_true] at h
  obtain ⟨⟨hsupply, hmints⟩, hredeem⟩ := h
  refine ⟨suppliedByWork_of_noDirectSupply capId w c hsupply,
    mintsBeforeOpen_of_mintsFirst capId w c hmints, ?_⟩
  cases c with
  | redeem did id kid =>
      intro _ d r hr _
      obtain ⟨hdid, hnext⟩ : did = 0 ∧ w.hashi.redemptions.next ≤ 1 :=
        of_decide_eq_true hredeem
      rw [hdid]
      exact Nat.lt_one_iff.mp (Nat.lt_of_lt_of_le (ObjStore.lt_next hr) hnext)
  | _ => trivial

/-- The miner of the opened redemption redeems its coins: what is left
outstanding is the fee recipient's, and the supply. -/
theorem redemption_accounting_redeemed :
    ∃ w log, Machine.ReachVia (burnLogged sha256 0)
        (fun p c => SoldThenRedeemed 0 p.1 c) (w, log)
      ∧ ∃ r, w.hashi.redemptions.get 0 = some r ∧ 0 < log 0
        ∧ r.outstandingSupply.toNat + log 0 = r.supplyAtOpen.toNat
        ∧ ∃ cap, w.slots.caps.get 0 = some cap
          ∧ cap.totalSupply.toNat = r.outstandingSupply.toNat := by
  have hrun : (burnLogged sha256 0).endsFrom
      (fun p c => soldThenRedeemed p.1 c)
      (fun p => decide (0 < p.2 0) && (p.1.hashi.redemptions.get 0).any
        fun r => decide (r.capId = 0))
      (openedRedemption ++ [.redeem 0 0 0]) (World.init 0, fun _ => 0)
        = true := by
    decide +kernel
  obtain ⟨⟨w, log⟩, hw, hcheck⟩ := Machine.reachVia_of_endsFrom
    (fun p c h => of_soldThenRedeemed 0 p.1 c h) .init hrun
  rw [Bool.and_eq_true, decide_eq_true_eq] at hcheck
  obtain ⟨r, hr, hrcap⟩ := (Option.any_eq_true ..).mp hcheck.2
  obtain ⟨hburned, hsupply, -⟩ :=
    redemption_accounting hw hr (of_decide_eq_true hrcap)
  exact ⟨w, log, hw, r, hr, hcheck.1, hburned, hsupply⟩

/-- The round's block recorded with two configs, and two redemptions of
its slot opened on the two records; then coins burned into the second. -/
def openedTwice : List Call :=
  .hashiAdmin (.initializeConfig (leBytes 32 0)) ::
  .hashiAdmin (.initializeConfig (leBytes 32 0)) :: mintedShare ++
  [.mining (.openRoundAccumulatorFromClaim 0),
   .recordBlockFound 0 0 (leBytes 32 1) 0 1000,
   .recordBlockFound 1 0 (leBytes 32 1) 0 1000,
   .beginTx 0 0 5000,
   .mining (.finalizeRound 0),
   .hashiAdmin (.registerWithHashi 0),
   .hashiAdmin (.registerWithHashi 1),
   .hashiAdmin (.markHashiApproved 0),
   .hashiAdmin (.markHashiApproved 1),
   .hashi (.hashiCredit 2000),
   .hashiAdmin (.markHashiConfirmed 0 0),
   .hashiAdmin (.markHashiConfirmed 1 1),
   .hashi (.claimAccumulatedHbtc 2000),
   .openRedemption 0 0 0,
   .openRedemption 0 0 1,
   .redeem 1 0 0]

/-- The first redemption goes on counting the coins burned into the
second. -/
theorem redemption_outlives_supply :
    ∃ w, Machine.ReachVia (contract sha256 0)
        (fun w c => suppliedByWork 0 w c ∧ mintsBeforeOpen 0 w c) w
      ∧ ∃ r cap, w.hashi.redemptions.get 0 = some r ∧ r.capId = 0
        ∧ w.slots.caps.get 0 = some cap
        ∧ r.outstandingSupply ≠ cap.totalSupply := by
  have hrun : (contract sha256 0).endsFrom
      (fun w c => noDirectSupply c && mintsFirst w c)
      (fun w => (w.hashi.redemptions.get 0).any fun r =>
        (w.slots.caps.get 0).any fun cap => decide (r.capId = 0
          ∧ r.outstandingSupply ≠ cap.totalSupply))
      openedTwice (World.init 0) = true := by
    decide +kernel
  have hcond : ∀ w c, (noDirectSupply c && mintsFirst w c) = true →
      suppliedByWork 0 w c ∧ mintsBeforeOpen 0 w c := by
    intro w c h
    rw [Bool.and_eq_true] at h
    exact ⟨suppliedByWork_of_noDirectSupply 0 w c h.1,
      mintsBeforeOpen_of_mintsFirst 0 w c h.2⟩
  obtain ⟨w, hw, hcheck⟩ := Machine.reachVia_of_endsFrom hcond .init hrun
  obtain ⟨r, hr, hcheck⟩ := (Option.any_eq_true ..).mp hcheck
  obtain ⟨cap, hcap, hcheck⟩ := (Option.any_eq_true ..).mp hcheck
  obtain ⟨hrcap, hne⟩ := of_decide_eq_true hcheck
  exact ⟨w, hw, r, cap, hr, hrcap, hcap, hne⟩

end M1n3Protocol
