/-
The price peg over batches: where it stays put, and where it feeds on
itself.

# What the scan takes for the market

The scan of the book does not leave out the miner's own ask. Where some
other ask is as low, this does not show: the price is a function of the
others' orders alone, and these do not change. So every batch that starts
from such a book sets the same price (`peg_stable`).

# Where it does not

An own ask below all others is the best ask of the next batch, which
undercuts it (`pegged_lt_of_bestAsk`), and so does the batch after.
-/
import M1n3Protocol.Client.PegLoop
import M1n3Protocol.Proofs.LiveOrders

namespace M1n3Protocol

open Checked

/-- The book without the miner's own asks. -/
def Market.rest (m : Market) (address : Address) :
    MarketRef → Option StandingOrder
  | .buy id => m.get (.buy id)
  | .sell id => (m.get (.sell id)).filter fun o => decide (o.owner ≠ address)

theorem Market.rest_sell_eq_some {m : Market} {address : Address} {id : ID}
    {o : StandingOrder} :
    m.rest address (.sell id) = some o
      ↔ m.get (.sell id) = some o ∧ o.owner ≠ address := by
  simp only [Market.rest, Option.filter_eq_some_iff, decide_eq_true_eq]

namespace Client

-- =============================================================== the books

/-- The prices at which a book has bids, and asks, that hold anything. -/
def bidPrices (book : MarketRef → Option StandingOrder) : Set Nat :=
  { p | ∃ id o, book (.buy id) = some o ∧ 0 < o.escrow
    ∧ o.pricePerUnitMist.toNat = p }

def askPrices (book : MarketRef → Option StandingOrder) : Set Nat :=
  { p | ∃ id o, book (.sell id) = some o ∧ 0 < o.escrow
    ∧ o.pricePerUnitMist.toNat = p }

/-- The best price of a side, or none where it is empty. -/
def IsBest (best : Set Nat → Nat → Prop) (prices : Set Nat) :
    Option U64 → Prop
  | none => prices = ∅
  | some p => best prices p.toNat

theorem IsBest.unique {best : Set Nat → Nat → Prop} {prices : Set Nat}
    {top top' : Option U64}
    (hmem : ∀ p, best prices p → p ∈ prices)
    (huniq : ∀ p q, best prices p → best prices q → p = q)
    (h : IsBest best prices top) (h' : IsBest best prices top') :
    top = top' := by
  cases top with
  | none =>
      cases top' with
      | none => rfl
      | some q =>
          have hq := hmem _ h'
          rw [show prices = ∅ from h] at hq
          exact hq.elim
  | some p =>
      cases top' with
      | none =>
          have hp := hmem _ h
          rw [show prices = ∅ from h'] at hp
          exact hp.elim
      | some q => exact congrArg some (BitVec.eq_of_toNat_eq (huniq _ _ h h'))

/-- A node that shows the market as it is: each order under the type of
its side, and as the miner's own only those that are. -/
structure Rpc.ShowsBook (rpc : Rpc) (m : Market) (c : MarketClient)
    (hsType : Text) : Prop where
  truthful : rpc.Truthful m (c.buyOrderType hsType) (c.sellOrderType hsType)
  buys : ∀ s ∈ c.bids rpc m hsType, ∃ id, s.ref = .buy id
  sells : ∀ s ∈ c.asks rpc m hsType, ∃ id, s.ref = .sell id
  own : ∀ s ∈ c.ownAsks rpc m hsType, s.order.owner = c.address

-- ============================================================= the condition

/-- Whether the price goes by the best bid, or the best ask. At an offset
of -100% and below it goes by neither. -/
def AutoSellPegConfig.readsBid (cfg : AutoSellPegConfig) : Bool :=
  cfg.anchor.readsBid && decide (-10_000 < cfg.offsetBps.toInt)

def AutoSellPegConfig.readsAsk (cfg : AutoSellPegConfig) : Bool :=
  cfg.anchor.readsAsk && decide (-10_000 < cfg.offsetBps.toInt)

/-- As far as the price goes by them, the page has the best of the others'
orders, and no ask of the miner's own is below all of the others'. -/
structure PegSteady (c : MarketClient) (rpc : Rpc) (m : Market)
    (hsType : Text) (cfg : AutoSellPegConfig) : Prop where
  bid : cfg.readsBid → ∀ p ∈ bidPrices (m.rest c.address),
    ∃ s ∈ (c.bids rpc m hsType).filter Shown.holds, p ≤ s.price.toNat
  ask : cfg.readsAsk → ∀ p ∈ askPrices (m.rest c.address),
    ∃ s ∈ (c.asks rpc m hsType).filter Shown.holds, s.price.toNat ≤ p
  own : cfg.readsAsk → ∀ s ∈ (c.asks rpc m hsType).filter Shown.holds,
    s.order.owner = c.address →
      ∃ p ∈ askPrices (m.rest c.address), p ≤ s.price.toNat

/-- Only the miner's own orders change, and the node shows the market as it
is. -/
def MarketClient.onlyOwnOrder (c : MarketClient) (m : Market) :
    PegInput → Prop
  | .batch rpc _ => ∀ hsType, c.hashshareType = some hsType →
      rpc.ShowsBook m c hsType
  | .market call => ∀ m' sent, m.exec call = .ok (m', sent) →
      m'.rest c.address = m.rest c.address

def MarketClient.pegSteady (c : MarketClient) (m : Market) :
    PegInput → Prop
  | .batch rpc _ => ∀ hsType cfg, c.hashshareType = some hsType →
      c.autoSellPeg = some cfg → PegSteady c rpc m hsType cfg
  | .market _ => True

-- =============================================================== the price

/-- A price goes by no more than it reads. -/
theorem pegged_congr {cfg : AutoSellPegConfig} {bid bid' ask ask' : Option U64}
    (hbid : cfg.readsBid → bid = bid') (hask : cfg.readsAsk → ask = ask') :
    cfg.pegged (bid, ask) = cfg.pegged (bid', ask') := by
  unfold AutoSellPegConfig.pegged
  by_cases hoffset : -10_000 < cfg.offsetBps.toInt
  · have hb : cfg.anchor.readsBid → bid = bid' := fun h =>
      hbid (by simp [AutoSellPegConfig.readsBid, h, hoffset])
    have ha : cfg.anchor.readsAsk → ask = ask' := fun h =>
      hask (by simp [AutoSellPegConfig.readsAsk, h, hoffset])
    congr 1
    cases hanchor : cfg.anchor with
    | mid => rw [hb (by rw [hanchor]; rfl), ha (by rw [hanchor]; rfl)]
    | bestBid =>
        rw [hb (by rw [hanchor]; rfl)]
        cases bid' <;> rfl
    | bestAsk =>
        rw [ha (by rw [hanchor]; rfl)]
        cases ask' <;> rfl
  · -- nothing is left of any price
    have hnone : ∀ anchor, applyBps anchor cfg.offsetBps = 0 := by
      intro anchor
      unfold applyBps
      split
      · rfl
      · exact if_pos (by omega)
    rw [hnone, hnone]

/-- A bid shown is a bid of the book. -/
theorem mem_bidPrices {c : MarketClient} {rpc : Rpc} {m : Market}
    {hsType : Text} (hshow : rpc.ShowsBook m c hsType) {s : Shown}
    (hs : s ∈ (c.bids rpc m hsType).filter Shown.holds) :
    s.price.toNat ∈ bidPrices (m.rest c.address) := by
  obtain ⟨hmem, hholds⟩ := mem_of_holds hs
  obtain ⟨id, href⟩ := hshow.buys s hmem
  have hget := (hshow.truthful.buy.of_mem hmem).1
  rw [href] at hget
  exact ⟨id, s.order, hget, hholds, rfl⟩

/-- An ask of another miner's that is shown is one of the others' book. -/
theorem mem_askPrices {c : MarketClient} {rpc : Rpc} {m : Market}
    {hsType : Text} (hshow : rpc.ShowsBook m c hsType) {s : Shown}
    (hs : s ∈ (c.asks rpc m hsType).filter Shown.holds)
    (hother : s.order.owner ≠ c.address) :
    s.price.toNat ∈ askPrices (m.rest c.address) := by
  obtain ⟨hmem, hholds⟩ := mem_of_holds hs
  obtain ⟨id, href⟩ := hshow.sells s hmem
  have hget := (hshow.truthful.sell.of_mem hmem).1
  rw [href] at hget
  exact ⟨id, s.order, Market.rest_sell_eq_some.mpr ⟨hget, hother⟩, hholds,
    rfl⟩

theorem scanned_bid {c : MarketClient} {rpc : Rpc} {m : Market}
    {hsType : Text} {cfg : AutoSellPegConfig}
    (hshow : rpc.ShowsBook m c hsType)
    (hsteady : PegSteady c rpc m hsType cfg) (hreads : cfg.readsBid) :
    IsBest IsGreatest (bidPrices (m.rest c.address))
      (c.scanOrderbookTop rpc (c.buyOrderType hsType)
        (c.sellOrderType hsType)).1 := by
  unfold MarketClient.scanOrderbookTop
  rw [topBid_eq hshow.truthful.buy]
  cases hmax : ((c.bids rpc m hsType).filter Shown.holds).argmax
      fun s => s.price.toNat with
  | none =>
      have hnil := List.argmax_eq_none.mp hmax
      refine Set.eq_empty_iff_forall_notMem.mpr fun p hp => ?_
      obtain ⟨s, hs, -⟩ := hsteady.bid hreads p hp
      rw [hnil] at hs
      cases hs
  | some top =>
      refine ⟨mem_bidPrices hshow (List.argmax_mem hmax), fun p hp => ?_⟩
      obtain ⟨s, hs, hle⟩ := hsteady.bid hreads p hp
      exact hle.trans (List.le_of_mem_argmax
        (f := fun s : Shown => s.price.toNat) hs hmax)

/-- Where no own ask is below the others', the best ask scanned is theirs. -/
theorem scanned_ask {c : MarketClient} {rpc : Rpc} {m : Market}
    {hsType : Text} {cfg : AutoSellPegConfig}
    (hshow : rpc.ShowsBook m c hsType)
    (hsteady : PegSteady c rpc m hsType cfg) (hreads : cfg.readsAsk) :
    IsBest IsLeast (askPrices (m.rest c.address))
      (c.scanOrderbookTop rpc (c.buyOrderType hsType)
        (c.sellOrderType hsType)).2 := by
  unfold MarketClient.scanOrderbookTop
  rw [topAsk_eq hshow.truthful.sell]
  cases hmin : ((c.asks rpc m hsType).filter Shown.holds).argmin
      fun s => s.price.toNat with
  | none =>
      have hnil := List.argmin_eq_none.mp hmin
      refine Set.eq_empty_iff_forall_notMem.mpr fun p hp => ?_
      obtain ⟨s, hs, -⟩ := hsteady.ask hreads p hp
      rw [hnil] at hs
      cases hs
  | some top =>
      have hlow : ∀ p ∈ askPrices (m.rest c.address), top.price.toNat ≤ p := by
        intro p hp
        obtain ⟨s, hs, hle⟩ := hsteady.ask hreads p hp
        exact (List.le_of_mem_argmin
          (f := fun s : Shown => s.price.toNat) hs hmin).trans hle
      have hin : top.price.toNat ∈ askPrices (m.rest c.address) := by
        by_cases hown : top.order.owner = c.address
        · obtain ⟨p, hp, hle⟩ :=
            hsteady.own hreads top (List.argmin_mem hmin) hown
          rwa [le_antisymm (hlow p hp) hle]
        · exact mem_askPrices hshow (List.argmin_mem hmin) hown
      exact ⟨hin, hlow⟩

-- ================================================================= a batch

/-- A transaction on an order of the miner's own leaves the others' book. -/
theorem rest_eq_of_one {m m' : Market} {id : ID} {address : Address}
    {before after : Option StandingOrder}
    (h : OneOrder m m' (.sell id) before after)
    (hbefore : ∀ o, before = some o → o.owner = address)
    (hafter : ∀ o, after = some o → o.owner = address) :
    m'.rest address = m.rest address := by
  have hnone : ∀ {x : Option StandingOrder},
      (∀ o, x = some o → o.owner = address) →
      (x.filter fun o => decide (o.owner ≠ address)) = none := by
    intro x hx
    cases x with
    | none => rfl
    | some o => simp [hx o rfl]
  funext ref
  by_cases href : ref = .sell id
  · subst href
    simp only [Market.rest, h.before_eq, h.after_eq]
    rw [hnone hafter, hnone hbefore]
  · have hsame := h.others ref href
    cases ref with
    | buy i => exact hsame
    | sell i =>
        simp only [Market.rest]
        rw [hsame]

theorem PeggedSell.place_sets {price expires units : U64}
    {address : Address} {m m' : Market}
    (h : (PeggedSell.place price expires).send address units m = .ok m') :
    (PeggedSell.place price expires).priceIn m m' = some price
      ∧ m'.rest address = m.rest address := by
  obtain ⟨o, hone, howner, hprice⟩ := PeggedSell.send_place h
  constructor
  · rw [PeggedSell.priceIn, hone.after_eq, Option.map_some, hprice]
  · apply rest_eq_of_one hone
    · intro _ hbefore
      cases hbefore
    · rintro _ ⟨⟩
      exact howner

theorem PeggedSell.topUp_sets {ref : MarketRef} {version units : U64}
    {newPrice : Option U64} {address : Address} {m m' : Market}
    {o : StandingOrder}
    (h : (PeggedSell.topUp ref version newPrice).send address units m
      = .ok m')
    (hget : m.get ref = some o) (hmine : o.owner = address) :
    (PeggedSell.topUp ref version newPrice).priceIn m m'
        = some (newPrice.getD o.pricePerUnitMist)
      ∧ m'.rest address = m.rest address := by
  obtain ⟨id, o₁, o', rfl, hone, howner, hprice⟩ := PeggedSell.send_topUp h
  obtain rfl : o = o₁ := Option.some.inj (hget.symm.trans hone.before_eq)
  constructor
  · rw [PeggedSell.priceIn, hone.after_eq, Option.map_some, hprice]
  · apply rest_eq_of_one hone
    · rintro _ ⟨⟩
      exact hmine
    · rintro _ ⟨⟩
      exact howner.trans hmine

variable {c : MarketClient} {rpc : Rpc} {m m' : Market} {coins : List U64}
  {hsType : Text} {cfg : AutoSellPegConfig}

/-- What a batch does: it sets the price it is pegged to, if there is one,
and changes no order but the miner's own. -/
structure BatchDone (c : MarketClient) (rpc : Rpc) (m m' : Market)
    (coins : List U64) (hsType : Text) (cfg : AutoSellPegConfig) : Prop where
  price : c.priceSet rpc coins m m'
    = cfg.target (c.dynamicFloorMist.getD 0)
        (cfg.pegged (c.scanOrderbookTop rpc (c.buyOrderType hsType)
          (c.sellOrderType hsType)))
  rest : m'.rest c.address = m.rest c.address

theorem batch_done (hshow : rpc.ShowsBook m c hsType)
    (hpeg : c.autoSellPeg = some cfg) (hhs : c.hashshareType = some hsType)
    (hcoins : walletUnits coins ≠ 0)
    (hstep : c.pegStep m (.batch rpc coins) = .ok m') :
    BatchDone c rpc m m' coins hsType cfg := by
  have hsell : c.autoSellPegged rpc coins = _ :=
    c.autoSellPegged_eq hpeg hhs hcoins
  have hfind := findMyActiveSellOrder_eq (c := c) hshow.truthful.sell
  simp only [MarketClient.pegStep] at hstep
  generalize htarget : cfg.target (c.dynamicFloorMist.getD 0)
    (cfg.pegged (c.scanOrderbookTop rpc (c.buyOrderType hsType)
      (c.sellOrderType hsType))) = target at hsell
  cases target with
  | none =>
      rw [Option.map_none] at hsell
      rw [hsell] at hstep
      cases hstep
      refine ⟨?_, rfl⟩
      rw [htarget, MarketClient.priceSet, hsell]
      rfl
  | some price =>
      rw [Option.map_some] at hsell
      cases hhead : ((c.ownAsks rpc m hsType).filter Shown.holds).head? with
      | none =>
          rw [hhead, Option.map_none] at hfind
          rw [hfind] at hsell
          rw [hsell] at hstep
          obtain ⟨hprice, hrest⟩ := PeggedSell.place_sets hstep
          refine ⟨?_, hrest⟩
          rw [htarget, MarketClient.priceSet, hsell, Option.bind_some, hprice]
      | some s =>
          rw [hhead, Option.map_some] at hfind
          rw [hfind] at hsell
          rw [hsell] at hstep
          have hmem := (mem_of_holds (List.mem_of_head? hhead)).1
          obtain ⟨hprice, hrest⟩ := PeggedSell.topUp_sets hstep
            (hshow.truthful.sell.of_mem hmem).1 (hshow.own s hmem)
          refine ⟨?_, hrest⟩
          rw [htarget, MarketClient.priceSet, hsell, Option.bind_some, hprice]
          -- an order at the price already is left there
          by_cases hat : s.order.pricePerUnitMist = price
          · simp [Shown.mine, hat]
          · simp [Shown.mine, hat]

/-- Without a peg, a coin type or units to sell nothing is sent. -/
theorem autoSellPegged_of_off (h : c.autoSellPeg = none
      ∨ c.hashshareType = none ∨ walletUnits coins = 0) :
    c.autoSellPegged rpc coins = none := by
  simp only [MarketClient.autoSellPegged, Option.bind_eq_bind]
  cases hpeg : c.autoSellPeg with
  | none => rfl
  | some cfg =>
      cases hhs : c.hashshareType with
      | none => rfl
      | some hsType =>
          rcases h with h | h | h
          · rw [hpeg] at h
            cases h
          · rw [hhs] at h
            cases h
          · simp only [Option.bind_some, if_pos h]

-- ================================================================ all batches

/-- The price the others' book pegs to. -/
def PeggedTo (c : MarketClient) (cfg : AutoSellPegConfig)
    (book : MarketRef → Option StandingOrder) (price : Option U64) : Prop :=
  ∃ bid ask, (cfg.readsBid → IsBest IsGreatest (bidPrices book) bid)
    ∧ (cfg.readsAsk → IsBest IsLeast (askPrices book) ask)
    ∧ price = cfg.target (c.dynamicFloorMist.getD 0) (cfg.pegged (bid, ask))

theorem PeggedTo.unique {book : MarketRef → Option StandingOrder}
    {price price' : Option U64} (h : PeggedTo c cfg book price)
    (h' : PeggedTo c cfg book price') : price = price' := by
  obtain ⟨bid, ask, hbid, hask, rfl⟩ := h
  obtain ⟨bid', ask', hbid', hask', rfl⟩ := h'
  have hbids : cfg.readsBid → bid = bid' := fun hreads =>
    IsBest.unique (fun _ h => h.1) (fun _ _ h h' => h.unique h')
      (hbid hreads) (hbid' hreads)
  have hasks : cfg.readsAsk → ask = ask' := fun hreads =>
    IsBest.unique (fun _ h => h.1) (fun _ _ h h' => h.unique h')
      (hask hreads) (hask' hreads)
  rw [pegged_congr hbids hasks]

/-- The others' book as it was, and every price set the one it pegs to. -/
structure PegBooks (c : MarketClient) (book m : Market)
    (prices : List (Option U64)) : Prop where
  rest : m.rest c.address = book.rest c.address
  off : c.autoSellPeg = none ∨ c.hashshareType = none →
    ∀ p ∈ prices, p = none
  pegged : ∀ cfg hsType, c.autoSellPeg = some cfg →
    c.hashshareType = some hsType →
    ∀ p ∈ prices, PeggedTo c cfg (book.rest c.address) p

theorem PegBooks.batch {book : Market} {prices : List (Option U64)}
    (hb : PegBooks c book m prices) (hcoins : walletUnits coins ≠ 0)
    (hown : c.onlyOwnOrder m (.batch rpc coins))
    (hsteady : c.pegSteady m (.batch rpc coins))
    (hstep : c.pegStep m (.batch rpc coins) = .ok m') :
    PegBooks c book m' (c.priceSet rpc coins m m' :: prices) := by
  by_cases hoff : c.autoSellPeg = none ∨ c.hashshareType = none
  · have hnone : c.autoSellPegged rpc coins = none :=
      autoSellPegged_of_off (hoff.imp_right .inl)
    simp only [MarketClient.pegStep, hnone] at hstep
    cases hstep
    refine ⟨hb.rest, fun _ => ?_, fun cfg hsType hpeg hhs => ?_⟩
    · intro p hp
      rcases List.mem_cons.mp hp with rfl | hp
      · rw [MarketClient.priceSet, hnone]
        rfl
      · exact hb.off hoff p hp
    · rcases hoff with h | h
      · rw [h] at hpeg
        cases hpeg
      · rw [h] at hhs
        cases hhs
  · refine ⟨?_, fun h => absurd h hoff, fun cfg hsType hpeg hhs => ?_⟩
    · obtain ⟨cfg, hpeg⟩ :=
        Option.ne_none_iff_exists'.mp fun h => hoff (.inl h)
      obtain ⟨hsType, hhs⟩ :=
        Option.ne_none_iff_exists'.mp fun h => hoff (.inr h)
      have hdone := batch_done (hown hsType hhs) hpeg hhs hcoins hstep
      rw [hdone.rest, hb.rest]
    · have hshow := hown hsType hhs
      have hcond := hsteady hsType cfg hhs hpeg
      have hdone := batch_done hshow hpeg hhs hcoins hstep
      intro p hp
      rcases List.mem_cons.mp hp with rfl | hp
      · rw [← hb.rest]
        exact ⟨_, _, fun h => scanned_bid hshow hcond h,
          fun h => scanned_ask hshow hcond h, hdone.price⟩
      · exact hb.pegged cfg hsType hpeg hhs p hp

/-- Batch after batch, from any book, with any anchor and offset: where
only the miner's own orders change, and each batch finds the best of the
others' orders and no ask of the miner's own below theirs, all batches set
the same price. -/
theorem peg_stable {book : Market} {s : Market × List (Option U64)}
    (h : Machine.ReachVia (c.peggingLogged book)
      (fun s input => c.onlyOwnOrder s.1 input ∧ c.pegSteady s.1 input) s) :
    ∀ p ∈ s.2, ∀ q ∈ s.2, p = q := by
  have hb : PegBooks c book s.1 s.2 := by
    refine Machine.ReachVia.withGhost_invariant
      (I := fun m prices => PegBooks c book m prices) ?_ ?_ h
    · exact ⟨rfl, fun _ p hp => absurd hp List.not_mem_nil,
        fun _ _ _ _ p hp => absurd hp List.not_mem_nil⟩
    · rintro m input m' prices - hb ⟨hown, hsteady⟩ hstep
      have hstep : c.pegStep m input = .ok m' := hstep
      cases input with
      | batch rpc coins =>
          dsimp only
          split
          case isTrue hzero =>
            have hnone : c.autoSellPegged rpc coins = none :=
              autoSellPegged_of_off (.inr (.inr hzero))
            simp only [MarketClient.pegStep, hnone] at hstep
            cases hstep
            exact hb
          case isFalse hcoins => exact hb.batch hcoins hown hsteady hstep
      | market call =>
          cases hexec : m.exec call with
          | error e =>
              simp only [MarketClient.pegStep, hexec] at hstep
              cases hstep
          | ok r =>
              obtain ⟨m₁, sent⟩ := r
              simp only [MarketClient.pegStep, hexec] at hstep
              cases hstep
              refine ⟨?_, hb.off, hb.pegged⟩
              rw [← hb.rest]
              exact hown m₁ sent hexec
  intro p hp q hq
  by_cases hoff : c.autoSellPeg = none ∨ c.hashshareType = none
  · rw [hb.off hoff p hp, hb.off hoff q hq]
  · obtain ⟨cfg, hpeg⟩ := Option.ne_none_iff_exists'.mp fun h => hoff (.inl h)
    obtain ⟨hsType, hhs⟩ :=
      Option.ne_none_iff_exists'.mp fun h => hoff (.inr h)
    exact (hb.pegged cfg hsType hpeg hhs p hp).unique
      (hb.pegged cfg hsType hpeg hhs q hq)

-- ===================================================== an ask of its own below

/-- An offset at or below the anchor. -/
theorem applyBps_le {anchor : U64} {bps : BitVec 32} (h : bps.toInt ≤ 0) :
    applyBps anchor bps ≤ anchor := by
  unfold applyBps
  dsimp only
  split
  case isTrue => exact BitVec.le_def.mpr (Nat.zero_le _)
  case isFalse =>
    split
    case isTrue => exact BitVec.le_def.mpr (Nat.zero_le _)
    case isFalse hnum =>
      have hfactor : (10_000 + bps.toInt).toNat ≤ 10_000 := by omega
      have hprod : anchor.toNat * (10_000 + bps.toInt).toNat
          ≤ anchor.toNat * 10_000 := Nat.mul_le_mul_left _ hfactor
      have hscaled : min (anchor.toNat * (10_000 + bps.toInt).toNat)
          (2 ^ 128 - 1) / 10_000 ≤ anchor.toNat := by
        refine Nat.div_le_of_le_mul ((Nat.min_le_left _ _).trans ?_)
        rwa [Nat.mul_comm 10_000]
      have hlt := anchor.isLt
      rw [if_neg (by omega), BitVec.le_def, BitVec.toNat_ofNat,
        Nat.mod_eq_of_lt (by omega)]
      exact hscaled

/-- Whatever ask is the best, the price pegged to it is below. -/
theorem pegged_lt_of_bestAsk {cfg : AutoSellPegConfig} {bid : Option U64}
    {ask : U64} (hanchor : cfg.anchor = .bestAsk)
    (hoffset : cfg.offsetBps.toInt ≤ 0) (hask : 0 < ask) :
    cfg.pegged (bid, some ask) < ask := by
  have hprice : cfg.anchor.price bid (some ask) = saturatingSub ask 1 := by
    rw [hanchor]
    cases bid <;> rfl
  have hle : applyBps (saturatingSub ask 1) cfg.offsetBps
      ≤ saturatingSub ask 1 := applyBps_le hoffset
  have hone : (1 : U64) ≤ ask := by bv_omega
  have hsub : saturatingSub ask 1 = ask - 1 := if_pos hone
  unfold AutoSellPegConfig.pegged
  dsimp only
  rw [hprice]
  rw [hsub] at hle ⊢
  bv_omega

/-- So a batch pegged to the best ask sets a price below it, also where
that ask is the miner's own. -/
theorem priceSet_lt_topAsk (hshow : rpc.ShowsBook m c hsType)
    (hpeg : c.autoSellPeg = some cfg) (hhs : c.hashshareType = some hsType)
    (hcoins : walletUnits coins ≠ 0) (hanchor : cfg.anchor = .bestAsk)
    (hoffset : cfg.offsetBps.toInt ≤ 0) {top : OrderRead}
    (htop : c.topAsk rpc (c.sellOrderType hsType) = some top)
    (hpegged : 0 < cfg.pegged (c.scanOrderbookTop rpc
      (c.buyOrderType hsType) (c.sellOrderType hsType)))
    (hstep : c.pegStep m (.batch rpc coins) = .ok m') :
    ∃ price, c.priceSet rpc coins m m' = some price ∧ price < top.price := by
  have hprice := (batch_done hshow hpeg hhs hcoins hstep).price
  rw [AutoSellPegConfig.target, if_pos hpegged] at hprice
  refine ⟨_, hprice, ?_⟩
  have hscan : c.scanOrderbookTop rpc (c.buyOrderType hsType)
      (c.sellOrderType hsType)
        = ((c.topBid rpc (c.buyOrderType hsType)).map OrderRead.price,
          some top.price) := by
    rw [MarketClient.scanOrderbookTop, htop, Option.map_some]
  rw [hscan] at hpegged ⊢
  by_cases hzero : top.price = 0
  · have hnone : ∀ bid : Option U64, cfg.pegged (bid, some 0) = 0 := by
      intro bid
      unfold AutoSellPegConfig.pegged
      rw [hanchor]
      cases bid <;> rfl
    rw [hzero, hnone] at hpegged
    exact absurd hpegged (by decide)
  · exact pegged_lt_of_bestAsk hanchor hoffset (by bv_omega)

-- ============================================================ against a node

/-- A miner with a peg. -/
def pegger (anchor : PegAnchor) (offsetBps : BitVec 32) : MarketClient :=
  { seller with autoSellPeg := some ⟨anchor, offsetBps, 0, 0⟩ }

/-- A node that shows the market as it is: a bid and an ask of another
miner's, and an ask of the pegger's once it is placed. -/
def pegNode (m : Market) : Rpc :=
  { sellerNode m with
    objectId := fun text =>
      if text = "0xb0".toList then some (.buy 0)
      else if text = "0xa0".toList then some (.sell 0)
      else if text = "0xa1".toList then some (.sell 1)
      else none
    queryEvents := fun type =>
      if type = "0x51::hash_share_market::BuyOrderPlaced".toList then
        [placedEvent "0xb0" "0x1"]
      else [placedEvent "0xa1" "0x2", placedEvent "0xa0" "0x1"] }

/-- Whether a node is truthful its objects decide. -/
theorem Rpc.Truthful.of_getObject {rpc rpc' : Rpc} {m : Market}
    {buyType sellType : Text} (h : rpc.Truthful m buyType sellType)
    (hobjects : rpc'.getObject = rpc.getObject) :
    rpc'.Truthful m buyType sellType := by
  constructor
  · intro ref data hdata
    rw [hobjects] at hdata
    exact h.buy ref data hdata
  · intro ref data hdata
    rw [hobjects] at hdata
    exact h.sell ref data hdata

variable {anchor : PegAnchor} {offsetBps : BitVec 32}

def peggerType : Text := "0x51::hs_000::HS_000".toList

-- The pegs aside, a pegger is the seller.

theorem pegger_buyOrderType :
    (pegger anchor offsetBps).buyOrderType = seller.buyOrderType := by
  unfold MarketClient.buyOrderType MarketClient.orderType
  rfl

theorem pegger_sellOrderType :
    (pegger anchor offsetBps).sellOrderType = seller.sellOrderType := by
  unfold MarketClient.sellOrderType MarketClient.orderType
  rfl

theorem pegger_bids (anchor : PegAnchor) (offsetBps : BitVec 32) (rpc : Rpc)
    (m : Market) (hsType : Text) :
    (pegger anchor offsetBps).bids rpc m hsType
      = seller.bids rpc m hsType := by
  unfold MarketClient.bids MarketClient.buyOrdersPlaced MarketClient.placed
  rw [pegger_buyOrderType]
  rfl

theorem pegger_asks (rpc : Rpc) (m : Market) (hsType : Text) :
    (pegger anchor offsetBps).asks rpc m hsType
      = seller.asks rpc m hsType := by
  unfold MarketClient.asks MarketClient.sellOrdersPlaced MarketClient.placed
  rw [pegger_sellOrderType]
  rfl

theorem pegger_ownAsks (rpc : Rpc) (m : Market) (hsType : Text) :
    (pegger anchor offsetBps).ownAsks rpc m hsType
      = seller.ownAsks rpc m hsType := by
  unfold MarketClient.ownAsks MarketClient.sellOrdersPlaced
    MarketClient.placed
  rw [pegger_sellOrderType]
  rfl

/-- What the node shows under the pegger's address is the pegger's. -/
def ownShown (m : Market) : Bool :=
  decide (∀ s ∈ seller.ownAsks (pegNode m) m peggerType,
    s.order.owner = 2)

theorem pegNode_showsBook (anchor : PegAnchor) (offsetBps : BitVec 32)
    {m : Market} (hown : ownShown m = true) :
    (pegNode m).ShowsBook m (pegger anchor offsetBps) peggerType := by
  have hsides : sellerBuys ≠ sellerSells := by decide +kernel
  constructor
  case truthful =>
    rw [pegger_buyOrderType, pegger_sellOrderType]
    exact (sellerNode_truthful m).of_getObject rfl
  case own =>
    rw [pegger_ownAsks]
    exact of_decide_eq_true hown
  case buys =>
    intro s hs
    rw [pegger_bids] at hs
    obtain ⟨⟨ref, data⟩, hmem, hmap⟩ := List.mem_filterMap.mp hs
    obtain ⟨order, -, rfl⟩ := Option.map_eq_some_iff.mp hmap
    obtain ⟨hdata, htype⟩ := Rpc.of_mem_orders hmem
    cases ref with
    | buy id => exact ⟨id, rfl⟩
    | sell id =>
        obtain ⟨o, -, hobject⟩ := Option.map_eq_some_iff.mp hdata
        have hobject : orderObject sellerSells "inventory" o = data := hobject
        rw [← hobject] at htype
        exact absurd (Option.some.inj htype).symm hsides
  case sells =>
    intro s hs
    rw [pegger_asks] at hs
    obtain ⟨⟨ref, data⟩, hmem, hmap⟩ := List.mem_filterMap.mp hs
    obtain ⟨order, -, rfl⟩ := Option.map_eq_some_iff.mp hmap
    obtain ⟨hdata, htype⟩ := Rpc.of_mem_orders hmem
    cases ref with
    | sell id => exact ⟨id, rfl⟩
    | buy id =>
        obtain ⟨o, -, hobject⟩ := Option.map_eq_some_iff.mp hdata
        have hobject : orderObject sellerBuys "payment" o = data := hobject
        rw [← hobject] at htype
        exact absurd (Option.some.inj htype) hsides

/-- A bid and an ask of one miner's, and the next one's transaction. -/
def oneEach (bid ask : U64) : List MarketCall :=
  [.beginTx 1 0 0, .placeBuyOrder bid 0 100000, .placeSellOrder ask 0 5,
   .beginTx 2 0 0]

/-- The pegger's batches against the node. -/
def peggerBatches (anchor : PegAnchor) (offsetBps : BitVec 32) (m : Market) :
    Machine Abort (Market × List (Option U64)) (List U64) :=
  ((pegger anchor offsetBps).peggingLogged m).withInputs
    fun s coins => .batch (pegNode s.1) coins

/-- Of the book's orders one bid is shown that is the highest, and one ask
that is the lowest and not the pegger's. -/
def steadyBook (m : Market) : Bool :=
  ownShown m && decide (m.buyOrders.next ≤ 1 ∧ m.sellOrders.next ≤ 2)
    && ((seller.bids (pegNode m) m peggerType).filter
        Shown.holds).any (fun s => (List.range 1).all fun id =>
          (m.get (.buy id)).all fun o => decide (o.pricePerUnitMist ≤ s.price))
    && ((seller.asks (pegNode m) m peggerType).filter
        Shown.holds).any fun s => s.order.owner ≠ 2
          && (List.range 2).all fun id =>
            (m.get (.sell id)).all fun o => decide (s.price ≤ o.pricePerUnitMist)

theorem get_buy_lt {m : Market} {id : ID} {o : StandingOrder}
    (h : m.get (.buy id) = some o) : id < m.buyOrders.next := by
  obtain ⟨b, hb, -⟩ := Market.get_buy.mp h
  exact ObjStore.lt_next hb

theorem get_sell_lt {m : Market} {id : ID} {o : StandingOrder}
    (h : m.get (.sell id) = some o) : id < m.sellOrders.next := by
  obtain ⟨b, hb, -⟩ := Market.get_sell.mp h
  exact ObjStore.lt_next hb

theorem ownShown_of_steadyBook {m : Market} (h : steadyBook m = true) :
    ownShown m = true := by
  simp only [steadyBook, Bool.and_eq_true] at h
  exact h.1.1.1

theorem pegSteady_of_steadyBook {m : Market} {cfg : AutoSellPegConfig}
    (h : steadyBook m = true) :
    PegSteady (pegger anchor offsetBps) (pegNode m) m peggerType cfg := by
  simp only [steadyBook, Bool.and_eq_true, List.any_eq_true,
    List.all_eq_true, List.mem_range, decide_eq_true_eq] at h
  obtain ⟨⟨⟨hown, hbuys, hsells⟩, b, hb, hhigh⟩, a, ha, hother, hlow⟩ := h
  have hshow := pegNode_showsBook anchor offsetBps hown
  have hall : ∀ id o, m.get (.sell id) = some o →
      a.price.toNat ≤ o.pricePerUnitMist.toNat := by
    intro id o hget
    have hle := hlow id (Nat.lt_of_lt_of_le (get_sell_lt hget) hsells)
    rw [hget] at hle
    exact BitVec.le_def.mp (of_decide_eq_true hle)
  constructor
  case bid =>
    rintro - p ⟨id, o, hget, -, rfl⟩
    rw [← pegger_bids anchor offsetBps] at hb
    refine ⟨b, hb, ?_⟩
    have hget : m.get (.buy id) = some o := hget
    have hle := hhigh id (Nat.lt_of_lt_of_le (get_buy_lt hget) hbuys)
    rw [hget] at hle
    exact BitVec.le_def.mp (of_decide_eq_true hle)
  case ask =>
    rintro - p ⟨id, o, hget, -, rfl⟩
    exact ⟨a, ha, hall id o (Market.rest_sell_eq_some.mp hget).1⟩
  case own =>
    rintro - s hs -
    refine ⟨_, mem_askPrices hshow ha hother, ?_⟩
    obtain ⟨hmem, -⟩ := mem_of_holds hs
    obtain ⟨id, href⟩ := hshow.sells s hmem
    have hget := (hshow.truthful.sell.of_mem hmem).1
    rw [href] at hget
    exact hall id s.order hget

/-- A run of batches against the node is a run. -/
theorem reach_of_batches {m : Market} {batches : List (List U64)}
    {okb check : Market × List (Option U64) → Bool}
    (ok : Market → PegInput → Prop)
    (hok : ∀ s coins, okb s = true → ok s.1 (.batch (pegNode s.1) coins))
    (hrun : (peggerBatches anchor offsetBps m).endsFrom (fun s _ => okb s)
      check batches (m, []) = true) :
    ∃ s, Machine.ReachVia ((pegger anchor offsetBps).peggingLogged m)
        (fun s input => ok s.1 input) s
      ∧ check s = true := by
  obtain ⟨s, hs, hcheck⟩ :=
    Machine.reachVia_of_endsFrom (fun s coins h => hok s coins h) .init hrun
  exact ⟨s, hs.of_withInputs, hcheck⟩

/-- 1% above the middle of 1000 and 1010 is above both, batch after
batch. -/
theorem peg_stable_aboveMid :
    ∃ (book : Market) (s : Market × List (Option U64)),
      Machine.Reach (market 0) book
      ∧ s.2 = [some 1015, some 1015, some 1015]
      ∧ ∀ p ∈ s.2, ∀ q ∈ s.2, p = q := by
  have hrun : (market 0).endsIn (oneEach 1000 1010) (fun m =>
      (peggerBatches .mid 100 m).endsFrom (fun s _ => steadyBook s.1)
        (fun s => decide (s.2 = [some 1015, some 1015, some 1015]))
        [[3], [2, 1], [7]] (m, [])) = true := by
    decide +kernel
  obtain ⟨m, hm, hbatches⟩ := Machine.reach_of_endsIn hrun
  have hok : ∀ (s : Market × List (Option U64)) (coins : List U64),
      steadyBook s.1 = true →
      (pegger .mid 100).onlyOwnOrder s.1 (.batch (pegNode s.1) coins)
        ∧ (pegger .mid 100).pegSteady s.1 (.batch (pegNode s.1) coins) := by
    intro s coins hsteady
    constructor
    · rintro hsType ⟨⟩
      exact pegNode_showsBook .mid 100 (ownShown_of_steadyBook hsteady)
    · rintro hsType cfg ⟨⟩ ⟨⟩
      exact pegSteady_of_steadyBook hsteady
  obtain ⟨s, hs, hprices⟩ := reach_of_batches
    (fun m input => (pegger .mid 100).onlyOwnOrder m input
      ∧ (pegger .mid 100).pegSteady m input) hok hbatches
  exact ⟨m, s, hm, of_decide_eq_true hprices, peg_stable hs⟩

/-- Pegged to the best ask, an ask that is placed below another's 20 is
the best ask of the next batch, and of the next. -/
theorem peg_drifts :
    ∃ (book : Market) (s : Market × List (Option U64)),
      Machine.Reach (market 0) book
      ∧ Machine.ReachVia ((pegger .bestAsk 0).peggingLogged book)
          (fun s input => (pegger .bestAsk 0).onlyOwnOrder s.1 input) s
      ∧ s.2 = [some 17, some 18, some 19]
      ∧ ¬ ∀ p ∈ s.2, ∀ q ∈ s.2, p = q := by
  have hrun : (market 0).endsIn (oneEach 10 20) (fun m =>
      (peggerBatches .bestAsk 0 m).endsFrom (fun s _ => ownShown s.1)
        (fun s => decide (s.2 = [some 17, some 18, some 19]))
        [[3], [2, 1], [7]] (m, [])) = true := by
    decide +kernel
  obtain ⟨m, hm, hbatches⟩ := Machine.reach_of_endsIn hrun
  have hok : ∀ (s : Market × List (Option U64)) (coins : List U64),
      ownShown s.1 = true →
      (pegger .bestAsk 0).onlyOwnOrder s.1 (.batch (pegNode s.1) coins) := by
    rintro s coins hown hsType ⟨⟩
    exact pegNode_showsBook .bestAsk 0 hown
  obtain ⟨s, hs, hprices⟩ := reach_of_batches
    (pegger .bestAsk 0).onlyOwnOrder hok hbatches
  have hprices := of_decide_eq_true hprices
  refine ⟨m, s, hm, hs, hprices, fun hsame => ?_⟩
  rw [hprices] at hsame
  have hequal := hsame _ List.mem_cons_self _
    (List.mem_cons_of_mem _ List.mem_cons_self)
  exact absurd hequal (by decide)

end Client

end M1n3Protocol
