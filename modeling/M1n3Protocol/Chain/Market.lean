/-
The HashShare market: its orders and fee pools, every call on them as one
machine, and the orders' journal.

# One market

The machine is the market of one `Coin<T>` in one `QuoteT`: the type
system keeps the orders and fee pools of other pairs apart. It reads
nothing of the rest of the contract, and the coins handed to it can be
anyone's, so any amount may come with any call. A step has what it sends
beside the state after it.

# One order, two books

`MarketStep` says what a move makes of an order, on either side: the
side is which of the two coins the order escrows. `marketJournal` reads
the moves off the calls; its fields are the refinement.
-/
import M1n3Protocol.Contract.HashShareMarket
import M1n3Protocol.Lib.Journal

namespace M1n3Protocol

open Checked ObjStore

-- ============================================================== the market

structure Market where
  ctx : TxContext
  feePools : ObjStore MarketFeePool
  buyOrders : ObjStore BuyOrder
  sellOrders : ObjStore SellOrder

def Market.init (sender : Address) : Market where
  ctx := ⟨sender, 0, 0⟩
  feePools := .empty
  buyOrders := .empty
  sellOrders := .empty

inductive MarketCall
  | beginTx (sender : Address) (epoch timestampMs : U64)
  | createFeePool
  | proposeAdmin (feePool : ID) (newAdmin : Address)
  | acceptAdmin (feePool : ID)
  | placeBuyOrder (price expiresEpoch payment : U64)
  | fillBuyOrder (order feePool : ID) (paymentIn : U64)
  | topUpBuyOrder (order : ID) (payment : U64)
  | updateBuyOrderPrice (order : ID) (newPrice : U64)
  | cancelBuyOrder (order : ID)
  | cleanupExpiredBuyOrder (order : ID)
  | placeSellOrder (price expiresEpoch inventory : U64)
  | fillSellOrder (order feePool : ID) (payment unitsToBuy : U64)
  | topUpSellOrder (order : ID) (moreInventory : U64)
  | updateSellOrderPrice (order : ID) (newPrice : U64)
  | cancelSellOrder (order : ID)
  | cleanupExpiredSellOrder (order : ID)

def Market.exec (m : Market) :
    MarketCall → Except Abort (Market × List Transfer)
  | .beginTx sender epoch timestampMs => do
      require (m.ctx.epoch ≤ epoch ∧ m.ctx.timestampMs ≤ timestampMs)
        .clockBackwards
      return ({ m with ctx := ⟨sender, epoch, timestampMs⟩ }, [])
  | .createFeePool =>
      pure ({ m with
        feePools := m.feePools.alloc (M1n3Protocol.createFeePool m.ctx) }, [])
  | .proposeAdmin id newAdmin => do
      let pool ← load m.feePools id
      let pool ← M1n3Protocol.proposeAdmin pool newAdmin m.ctx
      return ({ m with feePools := m.feePools.put id pool }, [])
  | .acceptAdmin id => do
      let pool ← load m.feePools id
      let pool ← M1n3Protocol.acceptAdmin pool m.ctx
      return ({ m with feePools := m.feePools.put id pool }, [])
  | .placeBuyOrder price expiresEpoch payment => do
      let order ← M1n3Protocol.placeBuyOrder price expiresEpoch payment m.ctx
      return ({ m with buyOrders := m.buyOrders.alloc order }, [])
  | .fillBuyOrder id poolId paymentIn => do
      let order ← load m.buyOrders id
      let pool ← load m.feePools poolId
      let (order, sent) ←
        M1n3Protocol.fillBuyOrder order pool paymentIn m.ctx
      return ({ m with buyOrders := m.buyOrders.put id order }, sent)
  | .topUpBuyOrder id payment => do
      let order ← load m.buyOrders id
      let order ← M1n3Protocol.topUpBuyOrder order payment
      return ({ m with buyOrders := m.buyOrders.put id order }, [])
  | .updateBuyOrderPrice id newPrice => do
      let order ← load m.buyOrders id
      let order ← M1n3Protocol.updateBuyOrderPrice order newPrice m.ctx
      return ({ m with buyOrders := m.buyOrders.put id order }, [])
  | .cancelBuyOrder id => do
      let order ← load m.buyOrders id
      let sent ← M1n3Protocol.cancelBuyOrder order m.ctx
      return ({ m with buyOrders := m.buyOrders.erase id }, sent)
  | .cleanupExpiredBuyOrder id => do
      let order ← load m.buyOrders id
      let sent ← M1n3Protocol.cleanupExpiredBuyOrder order m.ctx
      return ({ m with buyOrders := m.buyOrders.erase id }, sent)
  | .placeSellOrder price expiresEpoch inventory => do
      let order ←
        M1n3Protocol.placeSellOrder price expiresEpoch inventory m.ctx
      return ({ m with sellOrders := m.sellOrders.alloc order }, [])
  | .fillSellOrder id poolId payment unitsToBuy => do
      let order ← load m.sellOrders id
      let pool ← load m.feePools poolId
      let (order, sent) ←
        M1n3Protocol.fillSellOrder order pool payment unitsToBuy m.ctx
      return ({ m with sellOrders := m.sellOrders.put id order }, sent)
  | .topUpSellOrder id moreInventory => do
      let order ← load m.sellOrders id
      let order ← M1n3Protocol.topUpSellOrder order moreInventory
      return ({ m with sellOrders := m.sellOrders.put id order }, [])
  | .updateSellOrderPrice id newPrice => do
      let order ← load m.sellOrders id
      let order ← M1n3Protocol.updateSellOrderPrice order newPrice m.ctx
      return ({ m with sellOrders := m.sellOrders.put id order }, [])
  | .cancelSellOrder id => do
      let order ← load m.sellOrders id
      let sent ← M1n3Protocol.cancelSellOrder order m.ctx
      return ({ m with sellOrders := m.sellOrders.erase id }, sent)
  | .cleanupExpiredSellOrder id => do
      let order ← load m.sellOrders id
      let sent ← M1n3Protocol.cleanupExpiredSellOrder order m.ctx
      return ({ m with sellOrders := m.sellOrders.erase id }, sent)

/-- The market from its first transaction on. -/
def market (sender : Address) : Machine Abort Market MarketCall where
  init := .init sender
  step m c := (m.exec c).map Prod.fst

-- =============================================================== the orders

inductive MarketRef
  | buy (id : ID)
  | sell (id : ID)
  deriving DecidableEq, Repr

/-- The coin an order of this side escrows. -/
def MarketRef.escrowed : MarketRef → Asset
  | .buy _ => .quote
  | .sell _ => .hashShare

/-- The coin a taker hands in. -/
def MarketRef.given : MarketRef → Asset
  | .buy _ => .hashShare
  | .sell _ => .quote

def Market.life (m : Market) : MarketRef → Life StandingOrder
  | .buy id => (m.buyOrders.life id).map BuyOrder.toStandingOrder
  | .sell id => (m.sellOrders.life id).map SellOrder.toStandingOrder

/-- The order, while it is live. -/
def Market.get (m : Market) (ref : MarketRef) : Option StandingOrder :=
  (m.life ref).get?

-- =============================================================== the moves

/-- `filled` has the order before and after, who filled it, the fee pool's
admin of that moment, the taker's coin, and everything the call sent. -/
inductive MarketMove
  | placed (order : StandingOrder)
  | toppedUp (more : U64)
  | repriced (price : U64)
  | filled (order after : StandingOrder) (taker admin : Address)
      (epoch given : U64) (sent : List Transfer)
  | cancelled (sender : Address) (sent : List Transfer)
  | cleanedUp (epoch : U64) (sent : List Transfer)
  deriving DecidableEq, Repr

/-- A trade on a standing order: at its price, out of its escrow, each
side's coin going where the source sends it. -/
structure Fill.OnOrder (f : Fill) (ref : MarketRef)
    (order after : StandingOrder) (given : U64) (sent : List Transfer) :
    Prop where
  priced : f.PricedAt order.pricePerUnitMist
  kept : after = { order with escrow := after.escrow }
  escrow_eq : order.escrow.toNat = after.escrow.toNat + match ref with
    | .buy _ => f.gross.toNat
    | .sell _ => f.units.toNat
  given_eq : given.toNat = match ref with
    | .buy _ => f.units.toNat
    | .sell _ => f.gross.toNat + f.excess.toNat
  sent_eq : sent = match ref with
    | .buy _ => f.sentByBuy order.owner
    | .sell _ => f.sentBySell order.owner

inductive MarketStep (ref : MarketRef) :
    Life StandingOrder → MarketMove → Life StandingOrder → Prop
  | place {o : StandingOrder} (hprice : 0 < o.pricePerUnitMist) :
      MarketStep ref .unborn (.placed o) (.live o)
  | topUp {o : StandingOrder} {more escrow : U64}
      (hescrow : escrow.toNat = o.escrow.toNat + more.toNat) :
      MarketStep ref (.live o) (.toppedUp more) (.live { o with escrow })
  | reprice {o : StandingOrder} {pricePerUnitMist : U64}
      (hprice : 0 < pricePerUnitMist) :
      MarketStep ref (.live o) (.repriced pricePerUnitMist)
        (.live { o with pricePerUnitMist })
  | fill {o o' : StandingOrder} {f : Fill} {epoch given : U64}
      {sent : List Transfer} (hfill : f.OnOrder ref o o' given sent)
      (hepoch : ∀ expires, o.expiresEpoch = some expires → epoch < expires) :
      MarketStep ref (.live o)
        (.filled o o' f.taker f.admin epoch given sent) (.live o')
  | cancel {o : StandingOrder} :
      MarketStep ref (.live o)
        (.cancelled o.owner (o.refund ref.escrowed)) .gone
  | cleanUp {o : StandingOrder} {epoch expires : U64}
      (hexpires : o.expiresEpoch = some expires) (hepoch : expires ≤ epoch) :
      MarketStep ref (.live o)
        (.cleanedUp epoch (o.refund ref.escrowed)) .gone

/-- What the call sends, if it succeeds. -/
def Market.sentBy (m : Market) (c : MarketCall) : List Transfer :=
  match m.exec c with
  | .ok (_, sent) => sent
  | .error _ => []

def MarketCall.post (m : Market) (c : MarketCall) (m' : Market) :
    Option (MarketRef × MarketMove) :=
  match c with
  | .placeBuyOrder price expiresEpoch payment =>
      some (.buy m.buyOrders.next,
        .placed (.place price expiresEpoch payment m.ctx))
  | .fillBuyOrder id pool paymentIn => do
      let o ← m.get (.buy id)
      let o' ← m'.get (.buy id)
      let pool ← m.feePools.get pool
      return (.buy id, .filled o o' m.ctx.sender pool.admin m.ctx.epoch
        paymentIn (m.sentBy c))
  | .topUpBuyOrder id payment => some (.buy id, .toppedUp payment)
  | .updateBuyOrderPrice id newPrice => some (.buy id, .repriced newPrice)
  | .cancelBuyOrder id =>
      some (.buy id, .cancelled m.ctx.sender (m.sentBy c))
  | .cleanupExpiredBuyOrder id =>
      some (.buy id, .cleanedUp m.ctx.epoch (m.sentBy c))
  | .placeSellOrder price expiresEpoch inventory =>
      some (.sell m.sellOrders.next,
        .placed (.place price expiresEpoch inventory m.ctx))
  | .fillSellOrder id pool payment _ => do
      let o ← m.get (.sell id)
      let o' ← m'.get (.sell id)
      let pool ← m.feePools.get pool
      return (.sell id, .filled o o' m.ctx.sender pool.admin m.ctx.epoch
        payment (m.sentBy c))
  | .topUpSellOrder id more => some (.sell id, .toppedUp more)
  | .updateSellOrderPrice id newPrice => some (.sell id, .repriced newPrice)
  | .cancelSellOrder id =>
      some (.sell id, .cancelled m.ctx.sender (m.sentBy c))
  | .cleanupExpiredSellOrder id =>
      some (.sell id, .cleanedUp m.ctx.epoch (m.sentBy c))
  | .beginTx .. | .createFeePool | .proposeAdmin .. | .acceptAdmin _ => none

-- ====================================================== the calls on them

/-- One order took a step, and no other did anything. -/
structure Market.Moved (m m' : Market) (ref : MarketRef) (mv : MarketMove) :
    Prop where
  step : MarketStep ref (m.life ref) mv (m'.life ref)
  others : ∀ r, r ≠ ref → m'.life r = m.life r

section
variable {m m' : Market} {id : ID} {mv : MarketMove}

theorem Market.Moved.buy {s : ObjStore BuyOrder} {l l' : Life BuyOrder}
    (hturns : m.buyOrders.Turns id l l' s)
    (hstep : MarketStep (.buy id) (l.map BuyOrder.toStandingOrder) mv
      (l'.map BuyOrder.toStandingOrder)) :
    m.Moved { m with buyOrders := s } (.buy id) mv := by
  obtain ⟨rfl, rfl, hne⟩ := hturns
  refine ⟨hstep, fun r hr => ?_⟩
  cases r with
  | buy i => exact congrArg (Life.map _) (hne i fun heq => hr (heq ▸ rfl))
  | sell i => rfl

theorem Market.Moved.sell {s : ObjStore SellOrder} {l l' : Life SellOrder}
    (hturns : m.sellOrders.Turns id l l' s)
    (hstep : MarketStep (.sell id) (l.map SellOrder.toStandingOrder) mv
      (l'.map SellOrder.toStandingOrder)) :
    m.Moved { m with sellOrders := s } (.sell id) mv := by
  obtain ⟨rfl, rfl, hne⟩ := hturns
  refine ⟨hstep, fun r hr => ?_⟩
  cases r with
  | buy i => rfl
  | sell i => exact congrArg (Life.map _) (hne i fun heq => hr (heq ▸ rfl))

theorem Market.get_buy {o : StandingOrder} :
    m.get (.buy id) = some o
      ↔ ∃ b, m.buyOrders.get id = some b ∧ b.toStandingOrder = o := by
  simp [Market.get, Market.life, get?_map]

theorem Market.get_sell {o : StandingOrder} :
    m.get (.sell id) = some o
      ↔ ∃ b, m.sellOrders.get id = some b ∧ b.toStandingOrder = o := by
  simp [Market.get, Market.life, get?_map]

end

section
variable {feePool : MarketFeePool} {ctx : TxContext} {sent : List Transfer}

theorem fillBuyOrder_onOrder {b b' : BuyOrder} {paymentIn : U64} (id : ID)
    (h : fillBuyOrder b feePool paymentIn ctx = .ok (b', sent)) :
    ∃ f : Fill, f.taker = ctx.sender ∧ f.admin = feePool.admin
      ∧ f.OnOrder (.buy id) b.toStandingOrder b'.toStandingOrder paymentIn
        sent
      ∧ ∀ expires, b.expiresEpoch = some expires → ctx.epoch < expires := by
  obtain ⟨f, escrow, htaker, hadmin, hunits, -, hpriced, hescrow, horder,
    hsent, hopen⟩ := fillBuyOrder_ok h
  refine ⟨f, htaker, hadmin, ?_, StandingOrder.checkFillable_eq_ok.mp hopen⟩
  rw [horder]
  exact {
    priced := hpriced
    kept := rfl
    escrow_eq := hescrow.symm
    given_eq := congrArg BitVec.toNat hunits.symm
    sent_eq := hsent }

theorem fillSellOrder_onOrder {b b' : SellOrder} {payment unitsToBuy : U64}
    (id : ID)
    (h : fillSellOrder b feePool payment unitsToBuy ctx = .ok (b', sent)) :
    ∃ f : Fill, f.taker = ctx.sender ∧ f.admin = feePool.admin
      ∧ f.OnOrder (.sell id) b.toStandingOrder b'.toStandingOrder payment
        sent
      ∧ ∀ expires, b.expiresEpoch = some expires → ctx.epoch < expires := by
  obtain ⟨f, escrow, htaker, hadmin, -, hpayment, hpriced, hescrow, horder,
    hsent, hopen⟩ := fillSellOrder_ok h
  refine ⟨f, htaker, hadmin, ?_, StandingOrder.checkFillable_eq_ok.mp hopen⟩
  rw [horder]
  exact {
    priced := hpriced
    kept := rfl
    escrow_eq := hescrow.symm
    given_eq := hpayment.symm
    sent_eq := hsent }

end

theorem fillBuyOrder_moves {m m' : Market} {id pool : ID} {paymentIn : U64}
    {sent : List Transfer}
    (h : m.exec (.fillBuyOrder id pool paymentIn) = .ok (m', sent)) :
    ∃ ref mv, (MarketCall.fillBuyOrder id pool paymentIn).post m m'
      = some (ref, mv) ∧ m.Moved m' ref mv := by
  have hsent := h
  simp only [Market.exec, bind_eq_ok, load_eq_ok, pure_eq_ok] at h
  obtain ⟨b, hb, p, hp, ⟨b', out⟩, hfill, heq⟩ := h
  cases heq
  obtain ⟨f, htaker, hadmin, hon, hopen⟩ :=
    fillBuyOrder_onOrder id hfill
  have hbefore := Market.get_buy.mpr ⟨b, hb, rfl⟩
  have hafter := Market.get_buy
    (m := { m with buyOrders := m.buyOrders.put id b' }).mpr
    ⟨b', get_put_self b' hb, rfl⟩
  refine ⟨.buy id, .filled b.toStandingOrder b'.toStandingOrder
      f.taker f.admin m.ctx.epoch paymentIn out, ?_,
    .buy (turns_put _ hb) (.fill hon hopen)⟩
  simp [MarketCall.post, hbefore, hafter, hp, Market.sentBy, hsent,
    htaker, hadmin]

theorem fillSellOrder_moves {m m' : Market} {id pool : ID}
    {payment unitsToBuy : U64} {sent : List Transfer}
    (h : m.exec (.fillSellOrder id pool payment unitsToBuy) = .ok (m', sent)) :
    ∃ ref mv, (MarketCall.fillSellOrder id pool payment unitsToBuy).post m m'
      = some (ref, mv) ∧ m.Moved m' ref mv := by
  have hsent := h
  simp only [Market.exec, bind_eq_ok, load_eq_ok, pure_eq_ok] at h
  obtain ⟨b, hb, p, hp, ⟨b', out⟩, hfill, heq⟩ := h
  cases heq
  obtain ⟨f, htaker, hadmin, hon, hopen⟩ :=
    fillSellOrder_onOrder id hfill
  have hbefore := Market.get_sell.mpr ⟨b, hb, rfl⟩
  have hafter := Market.get_sell
    (m := { m with sellOrders := m.sellOrders.put id b' }).mpr
    ⟨b', get_put_self b' hb, rfl⟩
  refine ⟨.sell id, .filled b.toStandingOrder b'.toStandingOrder
      f.taker f.admin m.ctx.epoch payment out, ?_,
    .sell (turns_put _ hb) (.fill hon hopen)⟩
  simp [MarketCall.post, hbefore, hafter, hp, Market.sentBy, hsent,
    htaker, hadmin]

/-- A call is one move of one order, or touches none. -/
theorem Market.exec_moves {m m' : Market} {c : MarketCall}
    {sent : List Transfer} (h : m.exec c = .ok (m', sent)) :
    (∃ ref mv, c.post m m' = some (ref, mv) ∧ m.Moved m' ref mv)
      ∨ (c.post m m' = none ∧ m'.life = m.life) := by
  cases c with
  | beginTx sender epoch timestampMs =>
      simp only [Market.exec, bind_eq_ok, pure_eq_ok] at h
      obtain ⟨_, -, heq⟩ := h
      cases heq
      exact .inr ⟨rfl, rfl⟩
  | createFeePool =>
      simp only [Market.exec, pure_eq_ok] at h
      cases h
      exact .inr ⟨rfl, rfl⟩
  | proposeAdmin id newAdmin =>
      simp only [Market.exec, bind_eq_ok, pure_eq_ok] at h
      obtain ⟨_, -, _, -, heq⟩ := h
      cases heq
      exact .inr ⟨rfl, rfl⟩
  | acceptAdmin id =>
      simp only [Market.exec, bind_eq_ok, pure_eq_ok] at h
      obtain ⟨_, -, _, -, heq⟩ := h
      cases heq
      exact .inr ⟨rfl, rfl⟩
  | placeBuyOrder price expiresEpoch payment =>
      simp only [Market.exec, M1n3Protocol.placeBuyOrder, bind_eq_ok,
        require_eq_ok, pure_eq_ok] at h
      obtain ⟨order, ⟨-, hprice, rfl⟩, heq⟩ := h
      cases heq
      exact .inl ⟨_, _, rfl, .buy (turns_alloc ..) (.place hprice)⟩
  | fillBuyOrder id pool paymentIn => exact .inl (fillBuyOrder_moves h)
  | topUpBuyOrder id more =>
      simp only [Market.exec, M1n3Protocol.topUpBuyOrder, bind_eq_ok,
        load_eq_ok, pure_eq_ok] at h
      obtain ⟨b, hb, b', ⟨o, htop, rfl⟩, heq⟩ := h
      cases heq
      obtain ⟨escrow, hescrow, rfl⟩ := StandingOrder.topUp_ok htop
      exact .inl ⟨_, _, rfl, .buy (turns_put _ hb) (.topUp hescrow)⟩
  | updateBuyOrderPrice id newPrice =>
      simp only [Market.exec, M1n3Protocol.updateBuyOrderPrice, bind_eq_ok,
        load_eq_ok, pure_eq_ok] at h
      obtain ⟨b, hb, b', ⟨o, hupdate, rfl⟩, heq⟩ := h
      cases heq
      obtain ⟨-, hprice, rfl⟩ := StandingOrder.updatePrice_ok hupdate
      exact .inl ⟨_, _, rfl, .buy (turns_put _ hb) (.reprice hprice)⟩
  | cancelBuyOrder id =>
      have hsent := h
      simp only [Market.exec, bind_eq_ok, load_eq_ok, pure_eq_ok] at h
      obtain ⟨b, hb, out, hcancel, heq⟩ := h
      cases heq
      obtain ⟨howner, rfl⟩ := StandingOrder.cancel_ok hcancel
      refine .inl ⟨.buy id, .cancelled b.owner (b.refund .quote), ?_,
        .buy (turns_erase hb) .cancel⟩
      simp [MarketCall.post, Market.sentBy, hsent, howner]
  | cleanupExpiredBuyOrder id =>
      have hsent := h
      simp only [Market.exec, bind_eq_ok, load_eq_ok, pure_eq_ok] at h
      obtain ⟨b, hb, out, hclean, heq⟩ := h
      cases heq
      obtain ⟨⟨expires, hexp, hle⟩, rfl⟩ :=
        StandingOrder.cleanupExpired_eq_ok.mp hclean
      refine .inl ⟨.buy id, .cleanedUp m.ctx.epoch (b.refund .quote), ?_,
        .buy (turns_erase hb) (.cleanUp hexp hle)⟩
      simp [MarketCall.post, Market.sentBy, hsent]
  | placeSellOrder price expiresEpoch inventory =>
      simp only [Market.exec, M1n3Protocol.placeSellOrder, bind_eq_ok,
        require_eq_ok, pure_eq_ok] at h
      obtain ⟨order, ⟨-, hprice, -, -, rfl⟩, heq⟩ := h
      cases heq
      exact .inl ⟨_, _, rfl, .sell (turns_alloc ..) (.place hprice)⟩
  | fillSellOrder id pool payment unitsToBuy => exact .inl (fillSellOrder_moves h)
  | topUpSellOrder id more =>
      simp only [Market.exec, M1n3Protocol.topUpSellOrder, bind_eq_ok,
        load_eq_ok, pure_eq_ok] at h
      obtain ⟨b, hb, b', ⟨o, htop, rfl⟩, heq⟩ := h
      cases heq
      obtain ⟨escrow, hescrow, rfl⟩ := StandingOrder.topUp_ok htop
      exact .inl ⟨_, _, rfl, .sell (turns_put _ hb) (.topUp hescrow)⟩
  | updateSellOrderPrice id newPrice =>
      simp only [Market.exec, M1n3Protocol.updateSellOrderPrice, bind_eq_ok,
        load_eq_ok, pure_eq_ok] at h
      obtain ⟨b, hb, b', ⟨o, hupdate, rfl⟩, heq⟩ := h
      cases heq
      obtain ⟨-, hprice, rfl⟩ := StandingOrder.updatePrice_ok hupdate
      exact .inl ⟨_, _, rfl, .sell (turns_put _ hb) (.reprice hprice)⟩
  | cancelSellOrder id =>
      have hsent := h
      simp only [Market.exec, bind_eq_ok, load_eq_ok, pure_eq_ok] at h
      obtain ⟨b, hb, out, hcancel, heq⟩ := h
      cases heq
      obtain ⟨howner, rfl⟩ := StandingOrder.cancel_ok hcancel
      refine .inl ⟨.sell id, .cancelled b.owner (b.refund .hashShare), ?_,
        .sell (turns_erase hb) .cancel⟩
      simp [MarketCall.post, Market.sentBy, hsent, howner]
  | cleanupExpiredSellOrder id =>
      have hsent := h
      simp only [Market.exec, bind_eq_ok, load_eq_ok, pure_eq_ok] at h
      obtain ⟨b, hb, out, hclean, heq⟩ := h
      cases heq
      obtain ⟨⟨expires, hexp, hle⟩, rfl⟩ :=
        StandingOrder.cleanupExpired_eq_ok.mp hclean
      refine .inl ⟨.sell id, .cleanedUp m.ctx.epoch (b.refund .hashShare), ?_,
        .sell (turns_erase hb) (.cleanUp hexp hle)⟩
      simp [MarketCall.post, Market.sentBy, hsent]

-- =========================================================== the journal

theorem market_step_ok {sender : Address} {m m' : Market} {c : MarketCall} :
    (market sender).step m c = .ok m'
      ↔ ∃ sent, m.exec c = .ok (m', sent) := by
  show (m.exec c).map Prod.fst = .ok m' ↔ _
  cases m.exec c with
  | error e =>
      constructor
      · intro h
        cases h
      · rintro ⟨_, h⟩
        cases h
  | ok r =>
      constructor
      · intro h
        cases h
        exact ⟨r.2, rfl⟩
      · rintro ⟨_, h⟩
        cases h
        rfl

/-- The market's journal: each standing order, and the moves on it. -/
def marketJournal (sender : Address) :
    (market sender).Journal MarketRef MarketMove (Life StandingOrder) where
  view := Market.life
  post m c m' := c.post m m'
  Move := MarketStep
  quiet m c m' hs hpost := by
    obtain ⟨sent, hexec⟩ := market_step_ok.mp hs
    rcases Market.exec_moves hexec with ⟨_, _, hp, -⟩ | ⟨-, h⟩
    · rw [hp] at hpost
      cases hpost
    · exact h
  moved m c m' k mv hs hpost := by
    obtain ⟨sent, hexec⟩ := market_step_ok.mp hs
    rcases Market.exec_moves hexec with ⟨ref, mv', hp, hstep, hother⟩ | ⟨hp, -⟩
    · rw [hp] at hpost
      cases hpost
      exact ⟨hstep, hother⟩
    · rw [hp] at hpost
      cases hpost

end M1n3Protocol
