/-
Batch after batch of `auto_sell_pegged`: each reads the book as a node
shows it, and its transaction changes the book that the next one reads.

# The machine

It starts from any book. A step is a batch, with what the node says at
that moment and the coins in the wallet, or anything else that happens on
the market. A batch that sends nothing leaves the book as it is; one whose
transaction aborts is no step.

# The log

The price at which the miner's order stands once its batch is through, or
none for a batch that had something to sell and no price for it.
-/
import M1n3Protocol.Client.OrderBook

namespace M1n3Protocol.Client

open Checked ObjStore

inductive PegInput
  | batch (rpc : Rpc) (coins : List U64)
  | market (call : MarketCall)

/-- The calls of the transaction. Only a sell order can be topped up as
one. -/
def PeggedSell.calls (units : U64) : PeggedSell → Option (List MarketCall)
  | .topUp (.sell id) _ newPrice =>
      some (.topUpSellOrder id units
        :: (newPrice.map (MarketCall.updateSellOrderPrice id)).toList)
  | .topUp (.buy _) _ _ => none
  | .place price expires => some [.placeSellOrder price expires units]

/-- Call after call, all or nothing. -/
def runCalls (m : Market) (calls : List MarketCall) : Except Abort Market :=
  calls.foldlM (fun m call => (m.exec call).map Prod.fst) m

/-- The miner's transaction. -/
def PeggedSell.send (sell : PeggedSell) (address : Address) (units : U64)
    (m : Market) : Except Abort Market := do
  let calls ← fetch (sell.calls units) .noSuchObject
  runCalls m
    (.beginTx address m.ctx.epoch m.ctx.timestampMs :: calls)

def MarketClient.pegStep (c : MarketClient) (m : Market) :
    PegInput → Except Abort Market
  | .batch rpc coins =>
      match c.autoSellPegged rpc coins with
      | none => .ok m
      | some sell => sell.send c.address (walletUnits coins) m
  | .market call => (m.exec call).map Prod.fst

def MarketClient.pegging (c : MarketClient) (book : Market) :
    Machine Abort Market PegInput where
  init := book
  step := c.pegStep

/-- The price of the order a transaction topped up or placed. -/
def PeggedSell.priceIn (sell : PeggedSell) (m m' : Market) : Option U64 :=
  match sell with
  | .topUp ref _ _ => (m'.get ref).map StandingOrder.pricePerUnitMist
  | .place _ _ =>
      (m'.get (.sell m.sellOrders.next)).map StandingOrder.pricePerUnitMist

/-- The price a batch set. -/
def MarketClient.priceSet (c : MarketClient) (rpc : Rpc) (coins : List U64)
    (m m' : Market) : Option U64 :=
  (c.autoSellPegged rpc coins).bind fun sell => sell.priceIn m m'

/-- The batches, beside the prices set by those that had units to sell,
the last first. -/
def MarketClient.peggingLogged (c : MarketClient) (book : Market) :
    Machine Abort (Market × List (Option U64)) PegInput :=
  (c.pegging book).withGhost [] fun m input m' prices =>
    match input with
    | .batch rpc coins =>
        if walletUnits coins = 0 then prices
        else c.priceSet rpc coins m m' :: prices
    | .market _ => prices

-- ============================================================ what is sent

/-- What a batch sends, by the price it is pegged to. -/
theorem MarketClient.autoSellPegged_eq {c : MarketClient} {rpc : Rpc}
    {coins : List U64} {cfg : AutoSellPegConfig} {hsType : Text}
    (hpeg : c.autoSellPeg = some cfg) (hhs : c.hashshareType = some hsType)
    (hcoins : walletUnits coins ≠ 0) :
    c.autoSellPegged rpc coins
      = (cfg.target (c.dynamicFloorMist.getD 0)
          (cfg.pegged (c.scanOrderbookTop rpc (c.buyOrderType hsType)
            (c.sellOrderType hsType)))).map fun target =>
          match c.findMyActiveSellOrder rpc (c.sellOrderType hsType) with
          | some mine => .topUp mine.orderId mine.initialSharedVersion
              (if mine.price = target then none else some target)
          | none => .place target cfg.expiresAtMs := by
  simp only [MarketClient.autoSellPegged, Option.bind_eq_bind, hpeg, hhs,
    Option.bind_some, if_neg hcoins]
  cases cfg.target (c.dynamicFloorMist.getD 0)
      (cfg.pegged (c.scanOrderbookTop rpc (c.buyOrderType hsType)
        (c.sellOrderType hsType))) with
  | none => rfl
  | some target =>
      rw [Option.bind_some, Option.map_some]
      cases c.findMyActiveSellOrder rpc (c.sellOrderType hsType) with
      | none => rfl
      | some mine => rfl

theorem runCalls_cons {m m' : Market} {call : MarketCall}
    {calls : List MarketCall} :
    runCalls m (call :: calls) = .ok m'
      ↔ ∃ m₁ sent, m.exec call = .ok (m₁, sent)
        ∧ runCalls m₁ calls = .ok m' := by
  unfold runCalls
  rw [List.foldlM_cons, bind_eq_ok]
  constructor
  · rintro ⟨m₁, hexec, hrest⟩
    cases hcall : m.exec call with
    | error e =>
        rw [hcall] at hexec
        cases hexec
    | ok r =>
        obtain ⟨m₂, sent⟩ := r
        rw [hcall] at hexec
        cases hexec
        exact ⟨m₂, sent, rfl, hrest⟩
  · rintro ⟨m₁, sent, hexec, hrest⟩
    rw [hexec]
    exact ⟨m₁, rfl, hrest⟩

theorem runCalls_nil {m m' : Market} :
    runCalls m [] = .ok m' ↔ m = m' := by
  unfold runCalls
  rw [List.foldlM_nil, pure_eq_ok]

/-- A call on one order: what it was, what it is, and the rest as before. -/
structure OneOrder (m m' : Market) (ref : MarketRef)
    (before after : Option StandingOrder) : Prop where
  before_eq : m.get ref = before
  after_eq : m'.get ref = after
  others : ∀ r, r ≠ ref → m'.get r = m.get r

theorem OneOrder.trans {m m₁ m₂ : Market} {ref : MarketRef}
    {before middle middle' after : Option StandingOrder}
    (h : OneOrder m m₁ ref before middle)
    (h' : OneOrder m₁ m₂ ref middle' after) :
    OneOrder m m₂ ref before after :=
  ⟨h.before_eq, h'.after_eq,
    fun r hr => (h'.others r hr).trans (h.others r hr)⟩

theorem OneOrder.of_moved {m m' : Market} {ref : MarketRef}
    {mv : MarketMove} (h : m.Moved m' ref mv) :
    OneOrder m m' ref (m.life ref).get? (m'.life ref).get? :=
  ⟨rfl, rfl, fun r hr => congrArg Life.get? (h.others r hr)⟩

theorem exec_beginTx {m m' : Market} {address : Address} {epoch time : U64}
    {sent : List Transfer}
    (h : m.exec (.beginTx address epoch time) = .ok (m', sent)) :
    m' = { m with ctx := ⟨address, epoch, time⟩ } := by
  simp only [Market.exec, bind_eq_ok, pure_eq_ok] at h
  obtain ⟨_, -, heq⟩ := h
  exact (congrArg Prod.fst heq).symm

theorem exec_topUp {m m' : Market} {id : ID} {units : U64}
    {sent : List Transfer}
    (h : m.exec (.topUpSellOrder id units) = .ok (m', sent)) :
    ∃ o escrow, OneOrder m m' (.sell id) (some o)
      (some { o with escrow }) := by
  rcases Market.exec_moves h with ⟨ref, mv, hpost, hmoved⟩ | ⟨hpost, -⟩
  · cases hpost
    have hone := OneOrder.of_moved hmoved
    have hstep := hmoved.step
    generalize m.life (.sell id) = l at hone hstep
    generalize m'.life (.sell id) = l' at hone hstep
    cases hstep with
    | topUp => exact ⟨_, _, hone⟩
  · cases hpost

theorem exec_reprice {m m' : Market} {id : ID} {pricePerUnitMist : U64}
    {sent : List Transfer}
    (h : m.exec (.updateSellOrderPrice id pricePerUnitMist)
      = .ok (m', sent)) :
    ∃ o, OneOrder m m' (.sell id) (some o)
      (some { o with pricePerUnitMist }) := by
  rcases Market.exec_moves h with ⟨ref, mv, hpost, hmoved⟩ | ⟨hpost, -⟩
  · cases hpost
    have hone := OneOrder.of_moved hmoved
    have hstep := hmoved.step
    generalize m.life (.sell id) = l at hone hstep
    generalize m'.life (.sell id) = l' at hone hstep
    cases hstep with
    | reprice => exact ⟨_, hone⟩
  · cases hpost

theorem exec_place {m m' : Market} {price expires units : U64}
    {sent : List Transfer}
    (h : m.exec (.placeSellOrder price expires units) = .ok (m', sent)) :
    OneOrder m m' (.sell m.sellOrders.next) none
      (some (.place price expires units m.ctx)) := by
  rcases Market.exec_moves h with ⟨ref, mv, hpost, hmoved⟩ | ⟨hpost, -⟩
  · cases hpost
    have hone := OneOrder.of_moved hmoved
    have hstep := hmoved.step
    generalize m.life (.sell m.sellOrders.next) = l at hone hstep
    generalize m'.life (.sell m.sellOrders.next) = l' at hone hstep
    cases hstep with
    | place => exact hone
  · cases hpost

/-- The order a transaction topped up is at its new price, if it has
one. -/
theorem PeggedSell.send_topUp {ref : MarketRef} {version units : U64}
    {newPrice : Option U64} {address : Address} {m m' : Market}
    (h : (PeggedSell.topUp ref version newPrice).send address units m
      = .ok m') :
    ∃ id o o', ref = .sell id ∧ OneOrder m m' ref (some o) (some o')
      ∧ o'.owner = o.owner
      ∧ o'.pricePerUnitMist = newPrice.getD o.pricePerUnitMist := by
  simp only [PeggedSell.send, bind_eq_ok, fetch_eq_ok] at h
  obtain ⟨calls, hcalls, hrun⟩ := h
  cases ref with
  | buy id => cases hcalls
  | sell id =>
      obtain rfl := Option.some.inj hcalls
      obtain ⟨m₁, _, hbegin, hrun⟩ := runCalls_cons.mp hrun
      obtain rfl := exec_beginTx hbegin
      obtain ⟨m₂, _, htop, hrun⟩ := runCalls_cons.mp hrun
      obtain ⟨o, escrow, hone⟩ := exec_topUp htop
      cases newPrice with
      | none =>
          obtain rfl := runCalls_nil.mp hrun
          exact ⟨id, o, _, rfl, ⟨hone.before_eq, hone.after_eq, hone.others⟩,
            rfl, rfl⟩
      | some price =>
          obtain ⟨m₃, _, hprice, hrun⟩ := runCalls_cons.mp hrun
          obtain rfl := runCalls_nil.mp hrun
          obtain ⟨o₂, hone₂⟩ := exec_reprice hprice
          have hsame : o₂ = { o with escrow } :=
            Option.some.inj (hone₂.before_eq.symm.trans hone.after_eq)
          subst hsame
          have hboth := hone.trans hone₂
          exact ⟨id, o, _, rfl,
            ⟨hboth.before_eq, hboth.after_eq, hboth.others⟩, rfl, rfl⟩

theorem PeggedSell.send_place {price expires units : U64}
    {address : Address} {m m' : Market}
    (h : (PeggedSell.place price expires).send address units m = .ok m') :
    ∃ o, OneOrder m m' (.sell m.sellOrders.next) none (some o)
      ∧ o.owner = address ∧ o.pricePerUnitMist = price := by
  simp only [PeggedSell.send, bind_eq_ok, fetch_eq_ok] at h
  obtain ⟨calls, hcalls, hrun⟩ := h
  obtain rfl := Option.some.inj hcalls
  obtain ⟨m₁, _, hbegin, hrun⟩ := runCalls_cons.mp hrun
  obtain rfl := exec_beginTx hbegin
  obtain ⟨m₂, _, hplace, hrun⟩ := runCalls_cons.mp hrun
  obtain rfl := runCalls_nil.mp hrun
  have hone := exec_place hplace
  exact ⟨_, ⟨hone.before_eq, hone.after_eq, hone.others⟩, rfl, rfl⟩

end M1n3Protocol.Client
