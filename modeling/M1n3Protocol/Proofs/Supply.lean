/-
What backs the coins of a slot: a cap's supply is what its coins hold,
and where nobody mints or burns on the cap directly, what `mint_share`
issued on it less what `redeem` burned.

# The invariants

`CoinBooks` follows the coins of every cap through the framework's calls.
`BindingBooks` follows the registry: a cap id is registered once, waits
in the queue once, and is bound to one round for good, so the mints on a
bound cap are the mints of its round. `BackedBy` is the books of one cap
against the two logs, and the only one that asks something of the calls.
-/
import M1n3Protocol.Chain.SlotStep
import M1n3Protocol.Proofs.Rounds

namespace M1n3Protocol

open Checked

/-- The units the live coins of a cap hold. -/
def Slots.heldUnits (s : Slots) (capId : ID) : Nat :=
  s.coins.sum fun c => if c.capId = capId then c.value.toNat else 0

/-- The bundles of a minted share. -/
def MintEntry.units (m : MintEntry) : Nat := m.difficulty.toNat / 10_000

/-- The bundles of the shares minted on a cap. -/
def Slots.mintedOn (s : Slots) (capId : ID) : Nat :=
  s.mints.sum fun m => if m.capId = capId then m.units else 0

/-- The bundles of the shares of round `r` minted. -/
def Slots.mintedIn (s : Slots) (r : U64) : Nat :=
  s.mints.sum fun m => if m.roundId = r then m.units else 0

/-- The units burned by redemptions on a cap. -/
def Slots.burnedOn (s : Slots) (capId : ID) : Nat :=
  s.burns.sum fun b => if b.capId = capId then b.units.toNat else 0

variable {H : HashFn} {s s' : Slots}

-- ================================================================== coins

structure CoinBooks (s : Slots) : Prop where
  coins_old : s.coins.All fun c => c.capId < s.caps.next
  mints_old : s.mints.All fun m => m.capId < s.caps.next
  burns_old : s.burns.All fun b => b.capId < s.caps.next
  supply_eq : ∀ id cap, s.caps.get id = some cap →
    cap.totalSupply.toNat = s.heldUnits id

theorem CoinBooks.init (publisher : Address) :
    CoinBooks (Slots.init publisher) where
  coins_old := .empty
  mints_old := .empty
  burns_old := .empty
  supply_eq _ _ h := by cases h

/-- A new currency has no coins yet. -/
theorem CoinBooks.createCurrency (hb : CoinBooks s) :
    CoinBooks { s with caps := s.caps.alloc ⟨0⟩ } where
  coins_old := hb.coins_old.imp fun _ h => Nat.lt_succ_of_lt h
  mints_old := hb.mints_old.imp fun _ h => Nat.lt_succ_of_lt h
  burns_old := hb.burns_old.imp fun _ h => Nat.lt_succ_of_lt h
  supply_eq id cap hi := by
    rcases ObjStore.get_alloc_eq_some hi with ⟨rfl, rfl⟩ | hi
    · refine (ObjStore.sum_eq_zero fun i c hc => if_neg ?_).symm
      exact Nat.ne_of_lt (hb.coins_old i c hc)
    · exact hb.supply_eq id cap hi

/-- Minting `v` units on a cap, by any call that adds coins worth them. -/
theorem CoinBooks.mint (hb : CoinBooks s) {id : ID} {v : U64}
    {cap cap' : TreasuryCap} {coins : ObjStore Coin}
    {mints : ObjStore MintEntry} (hcap : s.caps.get id = some cap)
    (hok : coinMint cap v = .ok cap')
    (hcoins : coins.All fun c => c.capId < s.caps.next)
    (hmints : mints.All fun m => m.capId < s.caps.next)
    (hsum : ∀ i, (coins.sum fun c => if c.capId = i then c.value.toNat else 0)
      = s.heldUnits i + if id = i then v.toNat else 0) :
    CoinBooks { s with caps := s.caps.put id cap', coins, mints } where
  coins_old := hcoins
  mints_old := hmints
  burns_old := hb.burns_old
  supply_eq i c hi := by
    show _ = coins.sum _
    rw [hsum]
    rcases ObjStore.get_put_eq_some hi with ⟨rfl, rfl, -⟩ | ⟨hne, hi⟩
    · rw [if_pos rfl, coinMint_ok hok, hb.supply_eq i cap hcap]
    · rw [if_neg (Ne.symm hne), hb.supply_eq i c hi]
      rfl

/-- Burning a coin on its cap. -/
theorem CoinBooks.burn (hb : CoinBooks s) {id kid : ID} {coin : Coin}
    {cap cap' : TreasuryCap} {burns : ObjStore BurnEntry}
    (hcap : s.caps.get id = some cap) (hcoin : s.coins.get kid = some coin)
    (hof : coin.capId = id) (hok : coinBurn cap coin.value = .ok cap')
    (hburns : burns.All fun b => b.capId < s.caps.next) :
    CoinBooks { s with
      caps := s.caps.put id cap', coins := s.coins.erase kid, burns } where
  coins_old := hb.coins_old.erase
  mints_old := hb.mints_old
  burns_old := hburns
  supply_eq i c hi := by
    have hsum := ObjStore.sum_erase hcoin fun c =>
      if c.capId = i then c.value.toNat else 0
    show _ = (s.coins.erase kid).sum _
    rcases ObjStore.get_put_eq_some hi with ⟨rfl, rfl, -⟩ | ⟨hne, hi⟩
    · have hburn := coinBurn_ok hok
      have hsupply := hb.supply_eq i cap hcap
      simp only [if_pos hof] at hsum
      unfold Slots.heldUnits at hsupply
      omega
    · have hsupply := hb.supply_eq i c hi
      have hother : coin.capId ≠ i := by
        rw [hof]
        exact Ne.symm hne
      simp only [if_neg hother] at hsum
      unfold Slots.heldUnits at hsupply
      omega

/-- Coins change hands or shape, on the same cap and in all worth the
same. -/
theorem CoinBooks.reshape (hb : CoinBooks s) {coins : ObjStore Coin}
    (hcoins : coins.All fun c => c.capId < s.caps.next)
    (hsum : ∀ i, (coins.sum fun c => if c.capId = i then c.value.toNat else 0)
      = s.heldUnits i) : CoinBooks { s with coins } :=
  { hb with
    coins_old := hcoins
    supply_eq := fun i c hi => (hb.supply_eq i c hi).trans (hsum i).symm }

/-- The coins of a mint are worth the units minted. -/
theorem sum_mintedCoins (coins : ObjStore Coin) (capId i : ID)
    (minerUnits feeUnits : U64) :
    ((mintedCoins coins capId minerUnits feeUnits).sum fun c =>
        if c.capId = i then c.value.toNat else 0)
      = (coins.sum fun c => if c.capId = i then c.value.toNat else 0)
        + if capId = i then minerUnits.toNat + feeUnits.toNat else 0 := by
  unfold mintedCoins
  split
  case isTrue =>
    rw [ObjStore.sum_alloc, ObjStore.sum_alloc]
    by_cases hi : capId = i
    · simp only [if_pos hi]
      omega
    · simp only [if_neg hi]
  case isFalse hz =>
    have hzero : feeUnits.toNat = 0 := by
      rw [BitVec.lt_def] at hz
      exact Nat.eq_zero_of_not_pos hz
    rw [ObjStore.sum_alloc, hzero]
    rfl

theorem mintedCoins_all {coins : ObjStore Coin} {capId : ID}
    {minerUnits feeUnits : U64} {P : Coin → Prop} (h : coins.All P)
    (hnew : ∀ v, P ⟨capId, v⟩) :
    (mintedCoins coins capId minerUnits feeUnits).All P := by
  unfold mintedCoins
  split
  case isTrue => exact (h.alloc (hnew _)).alloc (hnew _)
  case isFalse => exact h.alloc (hnew _)

theorem toNat_div_bundleFactor (d : U64) :
    (d / Const.bundleFactor).toNat = d.toNat / 10_000 := by
  rw [BitVec.toNat_udiv]
  rfl

theorem CoinBooks.step {c : Call} (hb : CoinBooks s)
    (hs : Slots.Step s c s') : CoinBooks s' := by
  cases hs with
  | settings | register | bind => exact { hb with }
  | createCurrency => exact hb.createCurrency
  | @coinMint id value cap cap' hcap hok =>
      refine hb.mint hcap hok (hb.coins_old.alloc (ObjStore.lt_next hcap))
        hb.mints_old fun i => ?_
      rw [ObjStore.sum_alloc]
      rfl
  | coinBurn hcap hcoin hof hok =>
      exact hb.burn hcap hcoin hof hok hb.burns_old
  | treasuryIntoSupply hcap =>
      exact { hb with
        supply_eq := fun i c hi =>
          hb.supply_eq i c (ObjStore.get_erase_eq_some hi).2 }
  | @coinSplit kid coin amount rest hcoin hrest =>
      have hold : coin.capId < s.caps.next := hb.coins_old kid coin hcoin
      refine hb.reshape (ObjStore.All.alloc (hb.coins_old.put ?_) ?_)
        fun i => ?_
      · exact hold
      · exact hold
      have hput := ObjStore.sum_put hcoin { coin with value := rest } fun c =>
        if c.capId = i then c.value.toNat else 0
      rw [ObjStore.sum_alloc]
      unfold Slots.heldUnits
      dsimp only at hput ⊢
      by_cases hi : coin.capId = i
      · simp only [if_pos hi] at hput ⊢
        omega
      · simp only [if_neg hi] at hput ⊢
        omega
  | @coinJoin kid other coin c value hne hcoin hother hof hvalue =>
      refine hb.reshape (ObjStore.All.erase (hb.coins_old.put ?_))
        fun i => ?_
      · exact hb.coins_old kid coin hcoin
      have hput := ObjStore.sum_put hcoin { coin with value } fun c =>
        if c.capId = i then c.value.toNat else 0
      have herase := ObjStore.sum_erase
        (s := s.coins.put kid { coin with value })
        (by rw [ObjStore.get_put_ne _ (Ne.symm hne)]; exact hother) fun c =>
        if c.capId = i then c.value.toNat else 0
      unfold Slots.heldUnits
      dsimp only at hput herase ⊢
      rw [hof] at herase
      by_cases hi : coin.capId = i
      · simp only [if_pos hi] at hput herase ⊢
        omega
      · simp only [if_neg hi] at hput herase ⊢
        omega
  | @mintShare capId rid sid cap cap' b roundId difficulty mu fu hcap hround
      hbind hok hunits =>
      have hold := ObjStore.lt_next hcap
      refine hb.mint hcap hok (mintedCoins_all hb.coins_old fun _ => hold)
        (hb.mints_old.alloc hold) fun i => ?_
      rw [sum_mintedCoins, hunits, toNat_div_bundleFactor]
      rfl
  | redeem hcap hcoin hof hok =>
      exact hb.burn hcap hcoin hof hok
        (hb.burns_old.alloc (ObjStore.lt_next hcap))

-- =============================================================== bindings

structure BindingBooks (s : Slots) : Prop where
  queued_registered : ∀ slot ∈ s.registry.availableSlots,
    slot.capId ∈ s.registry.registeredCaps
  queued_once : (s.registry.availableSlots.map AvailableSlot.capId).Nodup
  bound_registered : ∀ r b, s.registry.rounds r = some b →
    b.capId ∈ s.registry.registeredCaps
  bound_unqueued : ∀ r b, s.registry.rounds r = some b →
    b.capId ∉ s.registry.availableSlots.map AvailableSlot.capId
  bound_once : ∀ r r' b b', s.registry.rounds r = some b →
    s.registry.rounds r' = some b' → b.capId = b'.capId → r = r'
  minted_bound : s.mints.All fun m =>
    ∃ b, s.registry.rounds m.roundId = some b ∧ b.capId = m.capId

theorem BindingBooks.init (publisher : Address) :
    BindingBooks (Slots.init publisher) where
  queued_registered _ h := by cases h
  queued_once := List.nodup_nil
  bound_registered _ _ h := by cases h
  bound_unqueued _ _ h := by cases h
  bound_once _ _ _ _ h := by cases h
  minted_bound := .empty

theorem BindingBooks.register (hb : BindingBooks s) {id : ID} {label : Bytes}
    {registry : HashShareRegistry}
    (hok : registerSlot s.registry id label = .ok registry) :
    BindingBooks { s with registry } := by
  obtain ⟨hnew, hcaps, hslots, hrounds, -⟩ := registerSlot_ok hok
  have hmap : registry.availableSlots.map AvailableSlot.capId
      = s.registry.availableSlots.map AvailableSlot.capId ++ [id] := by
    rw [hslots, List.map_append]
    rfl
  constructor
  · intro slot hslot
    show slot.capId ∈ registry.registeredCaps
    replace hslot : slot ∈ registry.availableSlots := hslot
    rw [hslots, List.mem_append, List.mem_singleton] at hslot
    rw [hcaps]
    rcases hslot with hslot | rfl
    · exact List.mem_cons_of_mem _ (hb.queued_registered slot hslot)
    · exact List.mem_cons_self ..
  · show (registry.availableSlots.map AvailableSlot.capId).Nodup
    rw [hmap]
    refine List.nodup_append.mpr ⟨hb.queued_once, List.nodup_singleton _, ?_⟩
    intro c hc c' hc' heq
    obtain ⟨slot, hslot, rfl⟩ := List.mem_map.mp hc
    rw [List.mem_singleton.mp hc'] at heq
    exact hnew (heq ▸ hb.queued_registered slot hslot)
  · intro r b hr
    show b.capId ∈ registry.registeredCaps
    rw [hcaps]
    exact List.mem_cons_of_mem _ (hb.bound_registered r b (hrounds ▸ hr))
  · intro r b hr
    show b.capId ∉ registry.availableSlots.map AvailableSlot.capId
    replace hr : s.registry.rounds r = some b := hrounds ▸ hr
    rw [hmap, List.mem_append, List.mem_singleton]
    rintro (hq | rfl)
    · exact hb.bound_unqueued r b hr hq
    · exact hnew (hb.bound_registered r b hr)
  · intro r r' b b' hr hr'
    exact hb.bound_once r r' b b' (hrounds ▸ hr) (hrounds ▸ hr')
  · intro i m hi
    show ∃ b, registry.rounds m.roundId = some b ∧ _
    rw [hrounds]
    exact hb.minted_bound i m hi

/-- Binding an unbound round moves the head of the queue to it. -/
theorem BindingBooks.bind (hb : BindingBooks s) {roundId : U64}
    {registry : HashShareRegistry} {b : RoundBinding}
    (hok : bindSlotToRound s.registry roundId = .ok (registry, b)) :
    BindingBooks { s with registry } := by
  rcases bindSlotToRound_ok hok with ⟨-, rfl⟩
    | ⟨hnone, slot, rest, hslots, rfl, hrest, hcaps, hrounds, -⟩
  · exact { hb with }
  · have hqueue := hb.queued_once
    rw [hslots, List.map_cons, List.nodup_cons] at hqueue
    have hhead : slot ∈ s.registry.availableSlots := by
      rw [hslots]
      exact List.mem_cons_self ..
    -- A binding after the call is the new one or was there before.
    have hback : ∀ r b, registry.rounds r = some b →
        (r = roundId ∧ b.capId = slot.capId)
          ∨ s.registry.rounds r = some b := by
      intro r b hr
      rw [hrounds] at hr
      by_cases hrr : r = roundId
      · simp only [if_pos hrr] at hr
        cases hr
        exact .inl ⟨hrr, rfl⟩
      · simp only [if_neg hrr] at hr
        exact .inr hr
    have hapart : ∀ r b, s.registry.rounds r = some b →
        b.capId ≠ slot.capId := by
      intro r b hr heq
      apply hb.bound_unqueued r b hr
      rw [heq]
      exact List.mem_map_of_mem hhead
    constructor
    · intro slot' hslot'
      show slot'.capId ∈ registry.registeredCaps
      rw [hcaps]
      apply hb.queued_registered slot'
      rw [hslots]
      exact List.mem_cons_of_mem _ (hrest ▸ hslot')
    · show (registry.availableSlots.map AvailableSlot.capId).Nodup
      rw [hrest]
      exact hqueue.2
    · intro r b hr
      show b.capId ∈ registry.registeredCaps
      rw [hcaps]
      rcases hback r b hr with ⟨-, hcap⟩ | hr
      · rw [hcap]
        exact hb.queued_registered slot hhead
      · exact hb.bound_registered r b hr
    · intro r b hr
      show b.capId ∉ registry.availableSlots.map AvailableSlot.capId
      rw [hrest]
      rcases hback r b hr with ⟨-, hcap⟩ | hr
      · rw [hcap]
        exact hqueue.1
      · intro hq
        apply hb.bound_unqueued r b hr
        rw [hslots, List.map_cons]
        exact List.mem_cons_of_mem _ hq
    · intro r r' b b' hr hr' heq
      rcases hback r b hr with ⟨hrr, hcap⟩ | hr
      · rcases hback r' b' hr' with ⟨hrr', -⟩ | hr'
        · rw [hrr, hrr']
        · exact absurd (heq.symm.trans hcap) (hapart r' b' hr')
      · rcases hback r' b' hr' with ⟨-, hcap⟩ | hr'
        · exact absurd (heq.trans hcap) (hapart r b hr)
        · exact hb.bound_once r r' b b' hr hr' heq
    · intro i m hi
      obtain ⟨b, hr, hcap⟩ := hb.minted_bound i m hi
      refine ⟨b, ?_, hcap⟩
      have hne : m.roundId ≠ roundId := by
        intro heq
        rw [heq, hnone] at hr
        cases hr
      show registry.rounds m.roundId = some b
      rw [hrounds]
      simp only [if_neg hne]
      exact hr

theorem BindingBooks.step {c : Call} (hb : BindingBooks s)
    (hs : Slots.Step s c s') : BindingBooks s' := by
  cases hs with
  | settings hslots hcaps hrounds =>
      constructor
      · rw [hslots, hcaps]
        exact hb.queued_registered
      · rw [hslots]
        exact hb.queued_once
      · rw [hrounds, hcaps]
        exact hb.bound_registered
      · rw [hrounds, hslots]
        exact hb.bound_unqueued
      · rw [hrounds]
        exact hb.bound_once
      · rw [hrounds]
        exact hb.minted_bound
  | register hok => exact hb.register hok
  | bind hok => exact hb.bind hok
  | mintShare hcap hround hbind =>
      exact { hb with minted_bound := hb.minted_bound.alloc ⟨_, hround, hbind⟩ }
  | createCurrency | coinMint | coinBurn | treasuryIntoSupply | coinSplit
  | coinJoin | redeem => exact { hb with }

/-- The mints on a bound cap are the mints of its round. -/
theorem BindingBooks.mintedOn_eq (hb : BindingBooks s) {r : U64}
    {b : RoundBinding} (hr : s.registry.rounds r = some b) :
    s.mintedOn b.capId = s.mintedIn r := by
  refine ObjStore.sum_congr fun i m hi => ?_
  obtain ⟨b', hr', hcap⟩ := hb.minted_bound i m hi
  by_cases hround : m.roundId = r
  · rw [hround, hr] at hr'
    cases hr'
    rw [if_pos hround, if_pos hcap.symm]
  · have hne : m.capId ≠ b.capId := by
      intro heq
      exact hround (hb.bound_once _ _ b' b hr' hr (hcap.trans heq))
    rw [if_neg hround, if_neg hne]

theorem slotBooks_of_reach {publisher : Address} {w : World}
    (h : Machine.Reach (contract H publisher) w) :
    CoinBooks w.slots ∧ BindingBooks w.slots := by
  refine Machine.ReachVia.invariant
    (I := fun w => CoinBooks w.slots ∧ BindingBooks w.slots)
    ⟨.init publisher, .init publisher⟩ ?_ h
  rintro w c w' ⟨hcoins, hbind⟩ - hs
  rcases World.exec_slots hs with ⟨-, hstep⟩ | ⟨-, hsame⟩
  · exact ⟨hcoins.step hstep, hbind.step hstep⟩
  · rw [hsame]
    exact ⟨hcoins, hbind⟩

-- ================================================================ backing

/-- The cap is minted on only for shares, burned on only by redemptions,
and stays a cap: what the framework lets anyone do to a shared one is not
done to `capId`. -/
def suppliedByWork (capId : ID) (w : World) : Call → Prop
  | .slot (.coinMint id value) => id = capId → value = 0
  | .slot (.coinBurn id kid) => id = capId →
      ∀ coin, w.slots.coins.get kid = some coin → coin.value = 0
  | .slot (.treasuryIntoSupply id) => id ≠ capId
  | _ => True

/-- The supply of a cap is what was minted on it less what was burned. -/
def BackedBy (capId : ID) (s : Slots) : Prop :=
  ∀ cap, s.caps.get capId = some cap →
    cap.totalSupply.toNat + s.burnedOn capId = s.mintedOn capId

theorem BackedBy.step {capId : ID} {w : World} {c : Call}
    (hback : BackedBy capId w.slots) (hb : CoinBooks w.slots)
    (hcond : suppliedByWork capId w c) (hs : Slots.Step w.slots c s') :
    BackedBy capId s' := by
  have hzero : (0 : U64).toNat = 0 := rfl
  intro k hk
  cases hs with
  | settings | coinSplit | coinJoin | register | bind => exact hback k hk
  | createCurrency =>
      rcases ObjStore.get_alloc_eq_some hk with ⟨rfl, rfl⟩ | hk
      · have hburned : w.slots.burnedOn w.slots.caps.next = 0 :=
          ObjStore.sum_eq_zero fun i e he =>
            if_neg (Nat.ne_of_lt (hb.burns_old i e he))
        have hminted : w.slots.mintedOn w.slots.caps.next = 0 :=
          ObjStore.sum_eq_zero fun i e he =>
            if_neg (Nat.ne_of_lt (hb.mints_old i e he))
        show 0 + w.slots.burnedOn w.slots.caps.next
          = w.slots.mintedOn w.slots.caps.next
        rw [hburned, hminted]
      · exact hback k hk
  | @coinMint id value cap cap' hcap hok =>
      rcases ObjStore.get_put_eq_some hk with ⟨rfl, rfl, -⟩ | ⟨-, hk⟩
      · have hv : value = 0 := hcond rfl
        have hmint := coinMint_ok hok
        rw [hv, hzero, Nat.add_zero] at hmint
        rw [hmint]
        exact hback cap hcap
      · exact hback k hk
  | @coinBurn id kid coin cap cap' hcap hcoin hof hok =>
      rcases ObjStore.get_put_eq_some hk with ⟨hid, rfl, -⟩ | ⟨-, hk⟩
      · have hv : coin.value = 0 := hcond hid.symm coin hcoin
        have hburn := coinBurn_ok hok
        rw [hv, hzero, Nat.add_zero] at hburn
        rw [hburn]
        exact hback cap (hid ▸ hcap)
      · exact hback k hk
  | treasuryIntoSupply => exact hback k (ObjStore.get_erase_eq_some hk).2
  | @mintShare id rid sid cap cap' b roundId difficulty mu fu hcap hround
      hbind hok =>
      show _ + w.slots.burnedOn capId = (w.slots.mints.alloc _).sum _
      rw [ObjStore.sum_alloc]
      rcases ObjStore.get_put_eq_some hk with ⟨rfl, rfl, -⟩ | ⟨hne, hk⟩
      · have hmint := coinMint_ok hok
        rw [toNat_div_bundleFactor] at hmint
        have hold := hback cap hcap
        unfold Slots.mintedOn at hold
        simp only [if_true]
        show _ = _ + difficulty.toNat / 10_000
        omega
      · simp only [if_neg (Ne.symm hne), Nat.add_zero]
        exact hback k hk
  | @redeem did id kid cap cap' coin hcap hcoin hof hok =>
      show _ + (w.slots.burns.alloc _).sum _ = w.slots.mintedOn capId
      rw [ObjStore.sum_alloc]
      rcases ObjStore.get_put_eq_some hk with ⟨rfl, rfl, -⟩ | ⟨hne, hk⟩
      · have hburn := coinBurn_ok hok
        have hold := hback cap hcap
        unfold Slots.burnedOn at hold
        simp only [if_true]
        omega
      · simp only [if_neg (Ne.symm hne), Nat.add_zero]
        exact hback k hk

/-- A miner's share, minted in the transaction that submitted it. -/
def mintedShare : List Call :=
  [.slot .createCurrency,
   .slot (.registerSlot 0 []),
   .slot (.bindSlotToRound 0),
   .admin (.registerTemplate block125552),
   .beginTx 1 0 0,
   .mining (.registerMiner []),
   .mining (.createRoundStats 0 0),
   .mining (.createShareDedup 0),
   .mining (.submitShare 0 ⟨0, 0, 0⟩ solution125552),
   .mintShare 0 0 0]

/-- None of the framework's calls on a cap. -/
def noDirectSupply : Call → Bool
  | .slot (.coinMint ..) | .slot (.coinBurn ..)
  | .slot (.treasuryIntoSupply _) => false
  | _ => true

theorem suppliedByWork_of_noDirectSupply (capId : ID) (w : World) (c : Call)
    (h : noDirectSupply c = true) : suppliedByWork capId w c := by
  cases c with
  | slot c =>
      cases c with
      | coinMint | coinBurn | treasuryIntoSupply => cases h
      | _ => trivial
  | _ => trivial

/-- A bound slot, and someone who calls `coin::mint` on its shared cap. -/
def mintedForNothing : List Call :=
  [.slot .createCurrency,
   .slot (.registerSlot 0 []),
   .slot (.bindSlotToRound 0),
   .beginTx 7 0 0,
   .slot (.coinMint 0 1_000)]

end M1n3Protocol
