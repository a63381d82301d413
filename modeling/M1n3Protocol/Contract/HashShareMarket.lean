/-
`hash_share_market.move`: standing bids and asks for a HashShare, quoted
in another coin.

# Two books, one order

A `BuyOrder` escrows the quote coin and a `SellOrder` the HashShares.
Owner, price, escrow and expiry are the same on both, and so are the
calls that only touch these: they are written out twice in the source
and once here, on the `StandingOrder` both carry. The two fills differ
and are given as they are.

# Coins

A coin handed to a call is its amount. What a call sends is a list of
transfers in the source's order; a coin of value zero is sent where the
source sends one.
-/
import M1n3Protocol.Contract.Coin

namespace M1n3Protocol

open Checked

def Const.marketFeeBps : U64 := 200

def Const.marketBpsDenom : U64 := 10_000

-- ============================================================== objects

/-- The two coins of a market: `Coin<T>` and `Coin<QuoteT>`. -/
inductive Asset
  | hashShare
  | quote
  deriving DecidableEq, Repr

/-- A `transfer::public_transfer` of a coin. -/
structure Transfer where
  asset : Asset
  recipient : Address
  amount : U64
  deriving DecidableEq, Repr

/-- Its `balance` is left out: the module starts it at zero and never
touches it again. -/
structure MarketFeePool where
  admin : Address
  pendingAdmin : Option Address

structure StandingOrder where
  owner : Address
  pricePerUnitMist : U64
  escrow : U64
  expiresEpoch : Option U64
  deriving DecidableEq, Repr

/-- The escrow is the `payment`, the owner the `buyer`. -/
structure BuyOrder extends StandingOrder

/-- The escrow is the `inventory`, the owner the `seller`. -/
structure SellOrder extends StandingOrder

-- =========================================================== the fee pool

def createFeePool (ctx : TxContext) : MarketFeePool :=
  { admin := ctx.sender, pendingAdmin := none }

/-- Proposing the zero address clears the proposal. -/
def proposeAdmin (pool : MarketFeePool) (newAdmin : Address)
    (ctx : TxContext) : Except Abort MarketFeePool := do
  require (ctx.sender = pool.admin) (.market .ENotAdmin)
  return { pool with
    pendingAdmin := if newAdmin = 0 then none else some newAdmin }

def acceptAdmin (pool : MarketFeePool) (ctx : TxContext) :
    Except Abort MarketFeePool := do
  let proposed ← fetch pool.pendingAdmin (.market .ENoPendingAdmin)
  require (ctx.sender = proposed) (.market .ENotPendingAdmin)
  return { admin := proposed, pendingAdmin := none }

-- ============================================================ both orders

/-- An `expires_epoch` of 0 is none. -/
def StandingOrder.place (price expiresEpoch escrow : U64) (ctx : TxContext) :
    StandingOrder :=
  { owner := ctx.sender, pricePerUnitMist := price, escrow,
    expiresEpoch := if expiresEpoch = 0 then none else some expiresEpoch }

def StandingOrder.topUp (o : StandingOrder) (more : U64) :
    Except Abort StandingOrder := do
  let escrow ← balanceJoin o.escrow more
  return { o with escrow }

def StandingOrder.updatePrice (o : StandingOrder) (notOwner : MarketError)
    (newPrice : U64) (ctx : TxContext) : Except Abort StandingOrder := do
  require (o.owner = ctx.sender) (.market notOwner)
  require (0 < newPrice) (.market .EPriceTooLow)
  return { o with pricePerUnitMist := newPrice }

/-- The order is deleted; an empty escrow is not sent. -/
def StandingOrder.refund (o : StandingOrder) (asset : Asset) :
    List Transfer :=
  if 0 < o.escrow then [⟨asset, o.owner, o.escrow⟩] else []

def StandingOrder.cancel (o : StandingOrder) (notOwner : MarketError)
    (asset : Asset) (ctx : TxContext) : Except Abort (List Transfer) := do
  require (o.owner = ctx.sender) (.market notOwner)
  return o.refund asset

def StandingOrder.checkFillable (o : StandingOrder) (ctx : TxContext) :
    Except Abort Unit :=
  match o.expiresEpoch with
  | none => pure ()
  | some expires =>
      require (ctx.epoch < expires) (.market .EOrderExpired)

def StandingOrder.cleanupExpired (o : StandingOrder) (asset : Asset)
    (ctx : TxContext) : Except Abort (List Transfer) := do
  let expires ← fetch o.expiresEpoch (.market .ENotExpired)
  require (expires ≤ ctx.epoch) (.market .ENotExpired)
  return o.refund asset

-- ============================================================= buy orders

def placeBuyOrder (price expiresEpoch payment : U64) (ctx : TxContext) :
    Except Abort BuyOrder := do
  require (0 < price) (.market .EPriceTooLow)
  return { toStandingOrder := .place price expiresEpoch payment ctx }

/-- The sender hands in `paymentIn` HashShares and is paid for them. -/
def fillBuyOrder (order : BuyOrder) (feePool : MarketFeePool)
    (paymentIn : U64) (ctx : TxContext) :
    Except Abort (BuyOrder × List Transfer) := do
  order.checkFillable ctx
  let units := paymentIn
  require (0 < units) (.market .EZeroQty)
  let gross ← mulDivDown units order.pricePerUnitMist 1
  require (gross ≤ order.escrow) (.market .EOrderExhausted)
  let fee ← mulDivDown gross Const.marketFeeBps Const.marketBpsDenom
  let escrow ← balanceSplit order.escrow gross
  let quoteOut ← balanceSplit gross fee
  return ({ toStandingOrder := { order.toStandingOrder with escrow } },
    [⟨.hashShare, order.owner, units⟩, ⟨.quote, ctx.sender, quoteOut⟩,
     ⟨.quote, feePool.admin, fee⟩])

def topUpBuyOrder (order : BuyOrder) (payment : U64) :
    Except Abort BuyOrder := do
  let o ← order.topUp payment
  return { toStandingOrder := o }

def updateBuyOrderPrice (order : BuyOrder) (newPrice : U64)
    (ctx : TxContext) : Except Abort BuyOrder := do
  let o ← order.updatePrice .ENotBuyer newPrice ctx
  return { toStandingOrder := o }

def cancelBuyOrder (order : BuyOrder) (ctx : TxContext) :
    Except Abort (List Transfer) :=
  order.cancel .ENotBuyer .quote ctx

def cleanupExpiredBuyOrder (order : BuyOrder) (ctx : TxContext) :
    Except Abort (List Transfer) :=
  order.cleanupExpired .quote ctx

-- ============================================================ sell orders

def placeSellOrder (price expiresEpoch inventory : U64) (ctx : TxContext) :
    Except Abort SellOrder := do
  require (0 < price) (.market .EPriceTooLow)
  require (0 < inventory) (.market .EZeroQty)
  return { toStandingOrder := .place price expiresEpoch inventory ctx }

/-- The sender hands in `payment` and gets the HashShares and what it
overpaid. -/
def fillSellOrder (order : SellOrder) (feePool : MarketFeePool)
    (payment unitsToBuy : U64) (ctx : TxContext) :
    Except Abort (SellOrder × List Transfer) := do
  order.checkFillable ctx
  require (0 < unitsToBuy) (.market .EZeroQty)
  require (unitsToBuy ≤ order.escrow) (.market .EInsufficientHashShares)
  let gross ← mulDivDown unitsToBuy order.pricePerUnitMist 1
  require (gross ≤ payment) (.market .EOrderExhausted)
  let fee ← mulDivDown gross Const.marketFeeBps Const.marketBpsDenom
  let rest ← balanceSplit payment gross
  let toPay ← balanceSplit gross fee
  let escrow ← balanceSplit order.escrow unitsToBuy
  return ({ toStandingOrder := { order.toStandingOrder with escrow } },
    [⟨.hashShare, ctx.sender, unitsToBuy⟩, ⟨.quote, order.owner, toPay⟩,
     ⟨.quote, feePool.admin, fee⟩]
      ++ if 0 < rest then [⟨.quote, ctx.sender, rest⟩] else [])

def updateSellOrderPrice (order : SellOrder) (newPrice : U64)
    (ctx : TxContext) : Except Abort SellOrder := do
  let o ← order.updatePrice .ENotSeller newPrice ctx
  return { toStandingOrder := o }

def topUpSellOrder (order : SellOrder) (moreInventory : U64) :
    Except Abort SellOrder := do
  let o ← order.topUp moreInventory
  return { toStandingOrder := o }

def cancelSellOrder (order : SellOrder) (ctx : TxContext) :
    Except Abort (List Transfer) :=
  order.cancel .ENotSeller .hashShare ctx

def cleanupExpiredSellOrder (order : SellOrder) (ctx : TxContext) :
    Except Abort (List Transfer) :=
  order.cleanupExpired .hashShare ctx

-- ======================================================= what they do

/-- A trade of `units` HashShares: what the maker's side pays or is paid
for them, and what the taker put in beyond it. -/
structure Fill where
  taker : Address
  admin : Address
  units : U64
  gross : U64
  fee : U64
  net : U64
  excess : U64

structure Fill.PricedAt (f : Fill) (price : U64) : Prop where
  units_pos : 0 < f.units.toNat
  gross_eq : f.gross.toNat = f.units.toNat * price.toNat
  fee_eq : f.fee.toNat = f.gross.toNat * 2 / 100
  net_eq : f.net.toNat + f.fee.toNat = f.gross.toNat

/-- What a fill of a buy order sends. -/
def Fill.sentByBuy (f : Fill) (owner : Address) : List Transfer :=
  [⟨.hashShare, owner, f.units⟩, ⟨.quote, f.taker, f.net⟩,
   ⟨.quote, f.admin, f.fee⟩]

/-- What a fill of a sell order sends, the taker's excess last. -/
def Fill.sentBySell (f : Fill) (owner : Address) : List Transfer :=
  [⟨.hashShare, f.taker, f.units⟩, ⟨.quote, owner, f.net⟩,
   ⟨.quote, f.admin, f.fee⟩]
    ++ if 0 < f.excess then [⟨.quote, f.taker, f.excess⟩] else []

theorem marketGross_eq {units price gross : U64}
    (h : mulDivDown units price 1 = .ok gross) :
    gross.toNat = units.toNat * price.toNat := by
  obtain ⟨-, hgross⟩ := mulDivDown_eq_ok.mp h
  have hone : (1 : U64).toNat = 1 := rfl
  rw [hone, Nat.div_one] at hgross
  exact hgross

/-- The fee is 2 percent, rounded down. -/
theorem marketFee_eq {gross fee : U64}
    (h : mulDivDown gross Const.marketFeeBps Const.marketBpsDenom = .ok fee) :
    fee.toNat = gross.toNat * 2 / 100 := by
  obtain ⟨-, hfee⟩ := mulDivDown_eq_ok.mp h
  have hbps : Const.marketFeeBps.toNat = 2 * 100 := rfl
  have hdenom : Const.marketBpsDenom.toNat = 100 * 100 := rfl
  rw [hbps, hdenom, ← Nat.mul_assoc,
    Nat.mul_div_mul_right _ _ (by decide)] at hfee
  exact hfee

theorem fillBuyOrder_ok {order order' : BuyOrder} {feePool : MarketFeePool}
    {paymentIn : U64} {ctx : TxContext} {sent : List Transfer}
    (hok : fillBuyOrder order feePool paymentIn ctx = .ok (order', sent)) :
    ∃ (f : Fill) (escrow : U64),
      f.taker = ctx.sender ∧ f.admin = feePool.admin ∧ f.units = paymentIn
        ∧ f.excess = 0 ∧ f.PricedAt order.pricePerUnitMist
        ∧ escrow.toNat + f.gross.toNat = order.escrow.toNat
        ∧ order'.toStandingOrder = { order.toStandingOrder with escrow }
        ∧ sent = f.sentByBuy order.owner
        ∧ order.checkFillable ctx = .ok () := by
  simp only [fillBuyOrder, bind_eq_ok, require_eq_ok, pure_eq_ok,
    balanceSplit_eq_ok] at hok
  obtain ⟨_, hopen, -, hpos, gross, hgross, -, -, fee, hfee, escrow, hescrow,
    net, hnet, heq⟩ := hok
  injection heq with horder hsent
  subst horder hsent
  have hpriced : Fill.PricedAt
      ⟨ctx.sender, feePool.admin, paymentIn, gross, fee, net, 0⟩
      order.pricePerUnitMist :=
    ⟨BitVec.lt_def.mp hpos, marketGross_eq hgross, marketFee_eq hfee, hnet⟩
  exact ⟨_, escrow, rfl, rfl, rfl, rfl, hpriced, hescrow, rfl, rfl, hopen⟩

theorem fillSellOrder_ok {order order' : SellOrder} {feePool : MarketFeePool}
    {payment unitsToBuy : U64} {ctx : TxContext} {sent : List Transfer}
    (hok : fillSellOrder order feePool payment unitsToBuy ctx
      = .ok (order', sent)) :
    ∃ (f : Fill) (escrow : U64),
      f.taker = ctx.sender ∧ f.admin = feePool.admin ∧ f.units = unitsToBuy
        ∧ f.gross.toNat + f.excess.toNat = payment.toNat
        ∧ f.PricedAt order.pricePerUnitMist
        ∧ escrow.toNat + f.units.toNat = order.escrow.toNat
        ∧ order'.toStandingOrder = { order.toStandingOrder with escrow }
        ∧ sent = f.sentBySell order.owner
        ∧ order.checkFillable ctx = .ok () := by
  simp only [fillSellOrder, bind_eq_ok, require_eq_ok, pure_eq_ok,
    balanceSplit_eq_ok] at hok
  obtain ⟨_, hopen, -, hpos, -, -, gross, hgross, -, -, fee, hfee, rest,
    hrest, net, hnet, escrow, hescrow, heq⟩ := hok
  injection heq with horder hsent
  subst horder hsent
  have hpriced : Fill.PricedAt
      ⟨ctx.sender, feePool.admin, unitsToBuy, gross, fee, net, rest⟩
      order.pricePerUnitMist :=
    ⟨BitVec.lt_def.mp hpos, marketGross_eq hgross, marketFee_eq hfee, hnet⟩
  refine ⟨_, escrow, rfl, rfl, rfl, ?_, hpriced, hescrow, rfl, rfl, hopen⟩
  dsimp only
  omega

/-- A gross amount that fits has its fee, and the fee is part of it. -/
theorem exists_marketFee (gross : U64) :
    ∃ fee net : U64,
      mulDivDown gross Const.marketFeeBps Const.marketBpsDenom = .ok fee
        ∧ net.toNat + fee.toNat = gross.toNat := by
  have hbps : Const.marketFeeBps.toNat = 200 := rfl
  have hdenom : Const.marketBpsDenom.toNat = 10_000 := rfl
  have hmax := gross.isLt
  have hle : gross.toNat * 200 / 10_000 ≤ gross.toNat := by omega
  refine ⟨BitVec.ofNat 64 (gross.toNat * 200 / 10_000),
    BitVec.ofNat 64 (gross.toNat - gross.toNat * 200 / 10_000), ?_, ?_⟩
  · refine mulDivDown_eq_ok.mpr ⟨by decide, ?_⟩
    rw [hbps, hdenom, BitVec.toNat_ofNat, Nat.mod_eq_of_lt (by omega)]
  · rw [BitVec.toNat_ofNat, BitVec.toNat_ofNat,
      Nat.mod_eq_of_lt (by omega), Nat.mod_eq_of_lt (by omega)]
    omega

/-- The gross amount of so many units, where it fits. -/
theorem exists_marketGross (units price : U64)
    (h : units.toNat * price.toNat < 2 ^ 64) :
    ∃ gross : U64, mulDivDown units price 1 = .ok gross
      ∧ gross.toNat = units.toNat * price.toNat := by
  have hgross : (BitVec.ofNat 64 (units.toNat * price.toNat)).toNat
      = units.toNat * price.toNat := by
    rw [BitVec.toNat_ofNat]
    exact Nat.mod_eq_of_lt h
  refine ⟨_, mulDivDown_eq_ok.mpr ⟨by decide, ?_⟩, hgross⟩
  have hone : (1 : U64).toNat = 1 := rfl
  rw [hgross, hone, Nat.div_one]

/-- What of an amount is left, where there is as much. -/
theorem exists_rest (amount part : U64) (h : part.toNat ≤ amount.toNat) :
    ∃ rest : U64, balanceSplit amount part = .ok rest := by
  have hmax := amount.isLt
  refine ⟨BitVec.ofNat 64 (amount.toNat - part.toNat),
    balanceSplit_eq_ok.mpr ?_⟩
  rw [BitVec.toNat_ofNat, Nat.mod_eq_of_lt (by omega)]
  omega

/-- The fills a bid takes. -/
theorem fillBuyOrder_accepts {order : BuyOrder} {feePool : MarketFeePool}
    {paymentIn : U64} {ctx : TxContext} :
    (∃ r, fillBuyOrder order feePool paymentIn ctx = .ok r)
      ↔ order.checkFillable ctx = .ok () ∧ 0 < paymentIn.toNat
        ∧ paymentIn.toNat * order.pricePerUnitMist.toNat
          ≤ order.escrow.toNat := by
  constructor
  · rintro ⟨⟨order', sent⟩, hok⟩
    obtain ⟨f, escrow, -, -, hunits, -, hpriced, hescrow, -, -, hopen⟩ :=
      fillBuyOrder_ok hok
    have hgross := hpriced.gross_eq
    have hpos := hpriced.units_pos
    rw [hunits] at hgross hpos
    exact ⟨hopen, hpos, by omega⟩
  · rintro ⟨hopen, hpos, hle⟩
    have hmax := order.escrow.isLt
    obtain ⟨gross, hmul, hgross⟩ :=
      exists_marketGross paymentIn order.pricePerUnitMist (by omega)
    obtain ⟨fee, net, hfee, hnet⟩ := exists_marketFee gross
    obtain ⟨escrow, hescrow⟩ :=
      exists_rest order.escrow gross (by omega)
    simp only [fillBuyOrder, bind_eq_ok, require_eq_ok, pure_eq_ok]
    exact ⟨_, (), hopen, (), BitVec.lt_def.mpr hpos, gross, hmul, (),
      BitVec.le_def.mpr (by omega), fee, hfee, escrow, hescrow, net,
      balanceSplit_eq_ok.mpr hnet, rfl⟩

/-- The fills an ask takes. -/
theorem fillSellOrder_accepts {order : SellOrder} {feePool : MarketFeePool}
    {payment unitsToBuy : U64} {ctx : TxContext} :
    (∃ r, fillSellOrder order feePool payment unitsToBuy ctx = .ok r)
      ↔ order.checkFillable ctx = .ok () ∧ 0 < unitsToBuy.toNat
        ∧ unitsToBuy.toNat ≤ order.escrow.toNat
        ∧ unitsToBuy.toNat * order.pricePerUnitMist.toNat
          ≤ payment.toNat := by
  constructor
  · rintro ⟨⟨order', sent⟩, hok⟩
    obtain ⟨f, escrow, -, -, hunits, hpaid, hpriced, hescrow, -, -, hopen⟩ :=
      fillSellOrder_ok hok
    have hgross := hpriced.gross_eq
    have hpos := hpriced.units_pos
    rw [hunits] at hgross hpos hescrow
    exact ⟨hopen, hpos, by omega, by omega⟩
  · rintro ⟨hopen, hpos, hin, hle⟩
    have hmax := payment.isLt
    obtain ⟨gross, hmul, hgross⟩ :=
      exists_marketGross unitsToBuy order.pricePerUnitMist (by omega)
    obtain ⟨fee, net, hfee, hnet⟩ := exists_marketFee gross
    obtain ⟨rest, hrest⟩ := exists_rest payment gross (by omega)
    obtain ⟨escrow, hescrow⟩ := exists_rest order.escrow unitsToBuy hin
    simp only [fillSellOrder, bind_eq_ok, require_eq_ok, pure_eq_ok]
    exact ⟨_, (), hopen, (), BitVec.lt_def.mpr hpos, (),
      BitVec.le_def.mpr hin, gross, hmul, (), BitVec.le_def.mpr (by omega),
      fee, hfee, rest, hrest, net, balanceSplit_eq_ok.mpr hnet, escrow,
      hescrow, rfl⟩

theorem StandingOrder.topUp_ok {o o' : StandingOrder} {more : U64}
    (hok : o.topUp more = .ok o') :
    ∃ escrow : U64, escrow.toNat = o.escrow.toNat + more.toNat
      ∧ o' = { o with escrow } := by
  simp only [StandingOrder.topUp, bind_eq_ok, pure_eq_ok, balanceJoin_eq_ok]
    at hok
  obtain ⟨escrow, hescrow, heq⟩ := hok
  exact ⟨escrow, hescrow, heq.symm⟩

theorem StandingOrder.updatePrice_ok {o o' : StandingOrder}
    {notOwner : MarketError} {newPrice : U64} {ctx : TxContext}
    (hok : o.updatePrice notOwner newPrice ctx = .ok o') :
    o.owner = ctx.sender ∧ 0 < newPrice
      ∧ o' = { o with pricePerUnitMist := newPrice } := by
  simp only [StandingOrder.updatePrice, bind_eq_ok, require_eq_ok,
    pure_eq_ok] at hok
  obtain ⟨-, howner, -, hprice, heq⟩ := hok
  exact ⟨howner, hprice, heq.symm⟩

theorem StandingOrder.cancel_ok {o : StandingOrder} {notOwner : MarketError}
    {asset : Asset} {ctx : TxContext} {sent : List Transfer}
    (hok : o.cancel notOwner asset ctx = .ok sent) :
    o.owner = ctx.sender ∧ sent = o.refund asset := by
  simp only [StandingOrder.cancel, bind_eq_ok, require_eq_ok, pure_eq_ok]
    at hok
  obtain ⟨-, howner, heq⟩ := hok
  exact ⟨howner, heq.symm⟩

-- ============================================================== expiry

theorem StandingOrder.checkFillable_eq_ok {o : StandingOrder}
    {ctx : TxContext} :
    o.checkFillable ctx = .ok ()
      ↔ ∀ expires, o.expiresEpoch = some expires → ctx.epoch < expires := by
  unfold StandingOrder.checkFillable
  cases o.expiresEpoch with
  | none => simp
  | some e => simp

theorem StandingOrder.checkFillable_eq_error {o : StandingOrder}
    {ctx : TxContext} {e : Abort} :
    o.checkFillable ctx = .error e
      ↔ e = .market .EOrderExpired
        ∧ ∃ expires, o.expiresEpoch = some expires
          ∧ expires ≤ ctx.epoch := by
  unfold StandingOrder.checkFillable
  cases o.expiresEpoch with
  | none => simp
  | some x =>
      rw [require_eq_error, BitVec.not_lt]
      constructor
      · rintro ⟨hle, rfl⟩
        exact ⟨rfl, x, rfl, hle⟩
      · rintro ⟨rfl, y, ⟨⟩, hle⟩
        exact ⟨hle, rfl⟩

theorem StandingOrder.cleanupExpired_eq_ok {o : StandingOrder}
    {asset : Asset} {ctx : TxContext} {sent : List Transfer} :
    o.cleanupExpired asset ctx = .ok sent
      ↔ (∃ expires, o.expiresEpoch = some expires ∧ expires ≤ ctx.epoch)
        ∧ sent = o.refund asset := by
  simp only [StandingOrder.cleanupExpired, bind_eq_ok, fetch_eq_ok,
    require_eq_ok, pure_eq_ok]
  constructor
  · rintro ⟨expires, hexp, -, hle, rfl⟩
    exact ⟨⟨expires, hexp, hle⟩, rfl⟩
  · rintro ⟨⟨expires, hexp, hle⟩, rfl⟩
    exact ⟨expires, hexp, (), hle, rfl⟩

/-- A fill is refused for expiry by the expiry check alone. -/
theorem fillBuyOrder_expired {order : BuyOrder} {feePool : MarketFeePool}
    {paymentIn : U64} {ctx : TxContext} :
    fillBuyOrder order feePool paymentIn ctx = .error (.market .EOrderExpired)
      ↔ ∃ expires, order.expiresEpoch = some expires
        ∧ expires ≤ ctx.epoch := by
  constructor
  · intro h
    simp only [fillBuyOrder, bind_eq_error, require_eq_error, pure_ne_error,
      and_false, exists_false, or_false] at h
    rcases h with h | ⟨-, -, ⟨-, h⟩ | ⟨-, -, h | ⟨gross, -, ⟨-, h⟩ | ⟨-, -,
      h | ⟨fee, -, h | ⟨escrow, -, h⟩⟩⟩⟩⟩⟩
    · exact (StandingOrder.checkFillable_eq_error.mp h).2
    · cases h
    · cases mulDivDown_eq_error h
    · cases h
    · cases mulDivDown_eq_error h
    · rcases balanceSplit_eq_error h with h | h <;> cases h
    · rcases balanceSplit_eq_error h with h | h <;> cases h
  · intro h
    exact bind_eq_error.mpr
      (.inl (StandingOrder.checkFillable_eq_error.mpr ⟨rfl, h⟩))

theorem fillSellOrder_expired {order : SellOrder} {feePool : MarketFeePool}
    {payment unitsToBuy : U64} {ctx : TxContext} :
    fillSellOrder order feePool payment unitsToBuy ctx
        = .error (.market .EOrderExpired)
      ↔ ∃ expires, order.expiresEpoch = some expires
        ∧ expires ≤ ctx.epoch := by
  constructor
  · intro h
    simp only [fillSellOrder, bind_eq_error, require_eq_error, pure_ne_error,
      and_false, exists_false, or_false] at h
    rcases h with h | ⟨-, -, ⟨-, h⟩ | ⟨-, -, ⟨-, h⟩ | ⟨-, -, h | ⟨gross, -,
      ⟨-, h⟩ | ⟨-, -, h | ⟨fee, -, h | ⟨rest, -, h | ⟨net, -, h⟩⟩⟩⟩⟩⟩⟩⟩
    · exact (StandingOrder.checkFillable_eq_error.mp h).2
    · cases h
    · cases h
    · cases mulDivDown_eq_error h
    · cases h
    · cases mulDivDown_eq_error h
    · rcases balanceSplit_eq_error h with h | h <;> cases h
    · rcases balanceSplit_eq_error h with h | h <;> cases h
    · rcases balanceSplit_eq_error h with h | h <;> cases h
  · intro h
    exact bind_eq_error.mpr
      (.inl (StandingOrder.checkFillable_eq_error.mpr ⟨rfl, h⟩))

end M1n3Protocol
