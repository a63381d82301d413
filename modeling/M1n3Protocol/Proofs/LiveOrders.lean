/-
The client's book against the contract's: which orders it takes for live,
and which can be filled.

# Two tests

The client goes by price and escrow. The contract goes by these and the
expiry, which the client never reads. For a bid it sells to the two differ
by the expiry alone; a bid it pegs a price to may also hold less than the
price of one unit.

# The first of the best

Each of its scans ends with the first of the best orders it takes for
live, so the two agree exactly where those few orders are fillable.
-/
import M1n3Protocol.Client.OrderBook
import M1n3Protocol.Proofs.Market

namespace M1n3Protocol

open Checked

variable {ref : MarketRef} {m : Market} {ctx : TxContext} {o : StandingOrder}

-- ========================================================= what can be filled

/-- As a bid, with so many HashShares. -/
def StandingOrder.BidTakes (o : StandingOrder) (units : U64)
    (ctx : TxContext) : Prop :=
  ∀ feePool, ∃ r, fillBuyOrder ⟨o⟩ feePool units ctx = .ok r

def StandingOrder.BidFillable (o : StandingOrder) (ctx : TxContext) : Prop :=
  ∃ units, o.BidTakes units ctx

/-- As an ask. -/
def StandingOrder.AskFillable (o : StandingOrder) (ctx : TxContext) : Prop :=
  ∃ payment units, ∀ feePool, ∃ r,
    fillSellOrder ⟨o⟩ feePool payment units ctx = .ok r

theorem StandingOrder.checkFillable_iff :
    o.checkFillable ctx = .ok () ↔ ¬ o.Due ctx.epoch := by
  rw [StandingOrder.checkFillable_eq_ok]
  simp only [StandingOrder.Due, not_exists, not_and, BitVec.not_le]

theorem StandingOrder.bidTakes_iff {units : U64} :
    o.BidTakes units ctx ↔ ¬ o.Due ctx.epoch ∧ 0 < units.toNat
      ∧ units.toNat * o.pricePerUnitMist.toNat ≤ o.escrow.toNat := by
  rw [← StandingOrder.checkFillable_iff]
  constructor
  · intro h
    exact fillBuyOrder_accepts.mp (h ⟨0, none⟩)
  · intro h feePool
    exact fillBuyOrder_accepts.mpr h

/-- If a bid takes any units it takes one. -/
theorem StandingOrder.bidFillable_iff :
    o.BidFillable ctx ↔ ¬ o.Due ctx.epoch
      ∧ o.pricePerUnitMist ≤ o.escrow := by
  rw [BitVec.le_def]
  constructor
  · rintro ⟨units, h⟩
    obtain ⟨hdue, hpos, hle⟩ := StandingOrder.bidTakes_iff.mp h
    exact ⟨hdue, Nat.le_trans (Nat.le_mul_of_pos_left _ hpos) hle⟩
  · rintro ⟨hdue, hle⟩
    refine ⟨1, StandingOrder.bidTakes_iff.mpr ⟨hdue, by decide, ?_⟩⟩
    have hone : (1 : U64).toNat = 1 := rfl
    rwa [hone, Nat.one_mul]

/-- If an ask gives any units it gives one for its price. -/
theorem StandingOrder.askFillable_iff :
    o.AskFillable ctx ↔ ¬ o.Due ctx.epoch ∧ 0 < o.escrow := by
  rw [← StandingOrder.checkFillable_iff, BitVec.lt_def]
  constructor
  · rintro ⟨payment, units, h⟩
    obtain ⟨hopen, hpos, hin, -⟩ := fillSellOrder_accepts.mp (h ⟨0, none⟩)
    exact ⟨hopen, Nat.lt_of_lt_of_le hpos hin⟩
  · rintro ⟨hopen, hpos⟩
    refine ⟨o.pricePerUnitMist, 1, fun feePool =>
      fillSellOrder_accepts.mpr ⟨hopen, by decide, hpos, ?_⟩⟩
    have hone : (1 : U64).toNat = 1 := rfl
    rw [hone, Nat.one_mul]

/-- No order of the market stands at a price of zero. -/
theorem Market.price_pos {sender : Address}
    (h : Machine.Reach (market sender) m) (ho : m.get ref = some o) :
    0 < o.pricePerUnitMist := by
  obtain ⟨pages, hpages⟩ := h.withGhost (fun _ => [])
    fun s c s' pages =>
      Machine.Journal.write pages ((marketJournal sender).post s c s')
  have htrace := Machine.Journal.trace (J := marketJournal sender) hpages ref
  refine htrace.preserves
    (P := fun l => ∀ o, l.get? = some o → 0 < o.pricePerUnitMist) ?_ ?_ o ho
  · intro l mv l' hl hstep o' ho'
    cases hstep with
    | place hprice | reprice hprice =>
        cases ho'
        exact hprice
    | @topUp o more escrow hescrow =>
        cases ho'
        exact hl o rfl
    | @fill o after f epoch given sent hfill hepoch =>
        cases ho'
        rw [hfill.kept]
        exact hl o rfl
    | cancel | cleanUp => cases ho'
  · intro o' ho'
    cases ref <;> cases ho'

namespace Client

-- ======================================================== what a node says

/-- A number as a field has it, by its size or the node's version. -/
def Writes (v : Option SuiMoveValue) (n : U64) : Prop :=
  v = some (.string (Nat.toDigits 10 n.toNat))
    ∨ ∃ k : BitVec 32, v = some (.number k) ∧ k.toNat = n.toNat

/-- The object of an order. -/
structure SuiObjectData.Shows (data : SuiObjectData) (escrow : String)
    (o : StandingOrder) : Prop where
  shared : ∃ version, data.initialSharedVersion = some version
  fields : ∃ fields, data.fields = some fields
    ∧ Writes (fields.lookup "price_per_unit_mist".toList) o.pricePerUnitMist
    ∧ Writes (fields.lookup escrow.toList) o.escrow

/-- What the node has under a type are orders of the market, as they
stand. -/
def Rpc.TruthfulOf (rpc : Rpc) (m : Market) (wantType : Text)
    (escrow : String) : Prop :=
  ∀ ref data, rpc.getObject ref = some data → data.type = some wantType →
    ∃ o, m.get ref = some o ∧ data.Shows escrow o

structure Rpc.Truthful (rpc : Rpc) (m : Market) (buyType sellType : Text) :
    Prop where
  buy : rpc.TruthfulOf m buyType "payment"
  sell : rpc.TruthfulOf m sellType "inventory"

theorem Writes.parse {v : Option SuiMoveValue} {n : U64} (h : Writes v n) :
    v.bind parseU64Field = some n := by
  rcases h with rfl | ⟨k, rfl, hk⟩
  · exact Keeper.parseU64_toDigits n
  · refine congrArg some (BitVec.eq_of_toNat_eq ?_)
    have hlt := k.isLt
    rw [BitVec.toNat_setWidth, hk]
    exact Nat.mod_eq_of_lt n.isLt

theorem SuiObjectData.Shows.read {data : SuiObjectData} {escrow : String}
    (h : data.Shows escrow o) :
    readOrderFields escrow data = some (o.pricePerUnitMist, o.escrow) := by
  obtain ⟨fields, hfields, hprice, hescrow⟩ := h.fields
  simp only [readOrderFields, Option.bind_eq_bind, hfields,
    Option.bind_some, hprice.parse, hescrow.parse]
  rfl

-- ============================================================ what is shown

/-- An order the node has shown. -/
structure Shown where
  ref : MarketRef
  data : SuiObjectData
  order : StandingOrder

variable {c : MarketClient} {rpc : Rpc} {wantType : Text} {escrow : String}
  {page : List Keeper.SuiEvent} {β : Type}

/-- The orders of a page. -/
def Rpc.shown (rpc : Rpc) (m : Market) (wantType : Text)
    (page : List Keeper.SuiEvent) : List Shown :=
  (rpc.orders wantType page).filterMap fun (ref, data) =>
    (m.get ref).map fun order => { ref, data, order }

theorem Rpc.of_mem_orders {order : MarketRef × SuiObjectData}
    (h : order ∈ rpc.orders wantType page) :
    rpc.getObject order.1 = some order.2 ∧ order.2.type = some wantType := by
  obtain ⟨ev, -, hev⟩ := List.mem_filterMap.mp h
  simp only [Rpc.orderOf, Option.bind_eq_bind, Option.bind_eq_some_iff]
    at hev
  obtain ⟨hex, -, orderId, -, data, hdata, hif⟩ := hev
  split at hif
  case isTrue htype =>
      obtain rfl := Option.some.inj hif
      exact ⟨hdata, htype⟩
  case isFalse => cases hif

/-- Of a shown order the market has what the client reads. -/
theorem Rpc.TruthfulOf.of_mem (h : rpc.TruthfulOf m wantType escrow)
    {s : Shown} (hs : s ∈ rpc.shown m wantType page) :
    m.get s.ref = some s.order ∧ s.data.Shows escrow s.order := by
  obtain ⟨⟨ref, data⟩, hmem, hmap⟩ := List.mem_filterMap.mp hs
  obtain ⟨order, hget, rfl⟩ := Option.map_eq_some_iff.mp hmap
  obtain ⟨hdata, htype⟩ := Rpc.of_mem_orders hmem
  obtain ⟨o, ho, hshows⟩ := h ref data hdata htype
  rw [hget, Option.some.injEq] at ho
  subst ho
  exact ⟨hget, hshows⟩

/-- Every order of the page is shown. -/
theorem Rpc.TruthfulOf.filterMap (h : rpc.TruthfulOf m wantType escrow)
    (read : MarketRef → SuiObjectData → Option β) :
    (rpc.orders wantType page).filterMap (fun order => read order.1 order.2)
      = (rpc.shown m wantType page).filterMap fun s => read s.ref s.data := by
  rw [Rpc.shown, List.filterMap_filterMap]
  refine List.filterMap_congr fun order hmem => ?_
  obtain ⟨hdata, htype⟩ := Rpc.of_mem_orders hmem
  obtain ⟨o, ho, -⟩ := h order.1 order.2 hdata htype
  dsimp only
  rw [ho]
  rfl

-- ============================================================= the scans

abbrev Shown.price (s : Shown) : U64 := s.order.pricePerUnitMist

def Shown.Higher (s t : Shown) : Prop := t.price.toNat < s.price.toNat

def Shown.Lower (s t : Shown) : Prop := s.price.toNat < t.price.toNat

/-- What the scan of the book takes for live. -/
def Shown.holds (s : Shown) : Bool := 0 < s.order.escrow

/-- What the client sells to: it can pay for one unit, at the floor or
above. -/
def Shown.pays (floor : U64) (s : Shown) : Bool :=
  floor ≤ s.price ∧ s.price ≤ s.order.escrow

/-- An order as each of the scans has it. -/
def Shown.candidate (s : Shown) : Candidate where
  orderId := s.ref
  initialSharedVersion := s.data.initialSharedVersion.getD 0
  price := s.price
  maxUnits := s.order.escrow / s.price

def Shown.orderRead (s : Shown) : OrderRead where
  orderId := s.ref
  price := s.price
  escrow := s.order.escrow

def Shown.mine (s : Shown) : MySellOrder where
  orderId := s.ref
  initialSharedVersion := s.data.initialSharedVersion.getD 0
  price := s.price

theorem candidateOf_eq {s : Shown} {cfg : AutoFillBidConfig}
    (h : s.data.Shows "payment" s.order) (hprice : 0 < s.price) :
    candidateOf cfg s.ref s.data
      = if s.pays cfg.floorPriceMist then some s.candidate else none := by
  obtain ⟨version, hversion⟩ := h.shared
  have hread : readBuyOrderFields s.data = some (s.price, s.order.escrow) :=
    h.read
  have hunits : s.order.escrow / s.price = 0
      ↔ ¬ s.price ≤ s.order.escrow := by
    rw [← BitVec.toNat_inj, BitVec.toNat_udiv, BitVec.le_def]
    exact (Nat.div_eq_zero_iff_lt (BitVec.lt_def.mp hprice)).trans
      Nat.not_le.symm
  have hempty : s.order.escrow = 0 → ¬ s.price ≤ s.order.escrow := by
    intro hzero
    rw [hzero, BitVec.not_le]
    exact hprice
  simp only [candidateOf, Option.bind_eq_bind, hread, hversion,
    Option.bind_some]
  by_cases hfloor : cfg.floorPriceMist ≤ s.price
  · by_cases hone : s.price ≤ s.order.escrow
    · have hpays : s.pays cfg.floorPriceMist = true :=
        decide_eq_true ⟨hfloor, hone⟩
      have hzero : s.order.escrow ≠ 0 := fun h => hempty h hone
      rw [if_pos hpays, if_neg, if_neg (fun h => hunits.mp h hone)]
      · simp only [Shown.candidate, hversion, Option.getD_some]
        rfl
      · rintro (hlt | h)
        · exact BitVec.not_lt.mpr hfloor hlt
        · exact hzero h
    · have hpays : s.pays cfg.floorPriceMist = false :=
        decide_eq_false fun h => hone h.2
      rw [hpays, if_pos (hunits.mpr hone), ite_self]
      rfl
  · have hpays : s.pays cfg.floorPriceMist = false :=
      decide_eq_false fun h => hfloor h.1
    rw [hpays, if_pos (.inl (BitVec.not_le.mp hfloor))]
    rfl

theorem orderRead_eq {s : Shown}
    {fields : SuiObjectData → Option (U64 × U64)}
    (h : fields s.data = some (s.price, s.order.escrow)) :
    orderRead fields s.ref s.data
      = if s.holds then some s.orderRead else none := by
  simp only [Client.orderRead, Option.bind_eq_bind, h, Option.bind_some,
    Shown.holds, decide_eq_true_eq]
  rfl

theorem mySellOrderOf_eq {s : Shown} (h : s.data.Shows "inventory" s.order) :
    mySellOrderOf s.ref s.data
      = if s.holds then some s.mine else none := by
  obtain ⟨version, hversion⟩ := h.shared
  have hread : readSellOrderFields s.data = some (s.price, s.order.escrow) :=
    h.read
  simp only [mySellOrderOf, Option.bind_eq_bind, hversion, hread,
    Option.bind_some, Shown.holds, decide_eq_true_eq, Shown.mine,
    Option.getD_some]
  by_cases hzero : s.order.escrow = 0
  · rw [if_pos hzero, hzero]
    rfl
  · have hpos : 0 < s.order.escrow := by bv_omega
    rw [if_neg hzero, if_pos hpos]
    rfl

/-- The bids and asks the client comes by, and its own asks. -/
def MarketClient.bids (c : MarketClient) (rpc : Rpc) (m : Market)
    (hsType : Text) : List Shown :=
  rpc.shown m (c.buyOrderType hsType) (c.buyOrdersPlaced rpc)

def MarketClient.asks (c : MarketClient) (rpc : Rpc) (m : Market)
    (hsType : Text) : List Shown :=
  rpc.shown m (c.sellOrderType hsType) (c.sellOrdersPlaced rpc)

def MarketClient.ownAsks (c : MarketClient) (rpc : Rpc) (m : Market)
    (hsType : Text) : List Shown :=
  rpc.shown m (c.sellOrderType hsType)
    ((c.sellOrdersPlaced rpc).filter (rpc.isMine c.address))

variable {hsType : Text} {sender : Address}

theorem findBuyOrders_eq {cfg : AutoFillBidConfig}
    (hm : Machine.Reach (market sender) m)
    (htrue : rpc.TruthfulOf m (c.buyOrderType hsType) "payment") :
    c.findBuyOrders rpc (c.buyOrderType hsType) cfg
      = (((c.bids rpc m hsType).filter (Shown.pays cfg.floorPriceMist)).argmax
        fun s => s.price.toNat).map Shown.candidate := by
  unfold MarketClient.findBuyOrders
  rw [htrue.filterMap (candidateOf cfg),
    List.filterMap_eq_map_filter (p := Shown.pays cfg.floorPriceMist)
      (g := Shown.candidate), FirstBest.argmax_map]
  · rfl
  · intro s hs
    obtain ⟨hget, hshows⟩ := htrue.of_mem hs
    exact candidateOf_eq hshows (Market.price_pos hm hget)

theorem topBid_eq
    (htrue : rpc.TruthfulOf m (c.buyOrderType hsType) "payment") :
    c.topBid rpc (c.buyOrderType hsType)
      = (((c.bids rpc m hsType).filter Shown.holds).argmax
        fun s => s.price.toNat).map Shown.orderRead := by
  unfold MarketClient.topBid
  rw [htrue.filterMap (orderRead readBuyOrderFields),
    List.filterMap_eq_map_filter (p := Shown.holds) (g := Shown.orderRead),
    FirstBest.argmax_map]
  · rfl
  · intro s hs
    exact orderRead_eq (htrue.of_mem hs).2.read

theorem topAsk_eq
    (htrue : rpc.TruthfulOf m (c.sellOrderType hsType) "inventory") :
    c.topAsk rpc (c.sellOrderType hsType)
      = (((c.asks rpc m hsType).filter Shown.holds).argmin
        fun s => s.price.toNat).map Shown.orderRead := by
  unfold MarketClient.topAsk
  rw [htrue.filterMap (orderRead readSellOrderFields),
    List.filterMap_eq_map_filter (p := Shown.holds) (g := Shown.orderRead),
    FirstBest.argmin_map]
  · rfl
  · intro s hs
    exact orderRead_eq (htrue.of_mem hs).2.read

theorem findMyActiveSellOrder_eq
    (htrue : rpc.TruthfulOf m (c.sellOrderType hsType) "inventory") :
    c.findMyActiveSellOrder rpc (c.sellOrderType hsType)
      = ((c.ownAsks rpc m hsType).filter Shown.holds).head?.map
        Shown.mine := by
  unfold MarketClient.findMyActiveSellOrder
  dsimp only
  rw [← List.head?_filterMap, htrue.filterMap mySellOrderOf,
    List.filterMap_eq_map_filter (p := Shown.holds) (g := Shown.mine),
    List.head?_map]
  · rfl
  · intro s hs
    exact mySellOrderOf_eq (htrue.of_mem hs).2

-- ============================================================= selling to a bid

/-- The bid the client sells to takes what it sends and is the best of
those it has come by that take anything; and there is one if any at the
floor or above does. -/
structure FillAgrees (c : MarketClient) (rpc : Rpc) (m : Market)
    (ctx : TxContext) (coins : List U64) (hsType : Text)
    (cfg : AutoFillBidConfig) : Prop where
  accepted : ∀ fill, c.autoFillBestBid rpc coins = some fill →
    ∃ s ∈ c.bids rpc m hsType, s.ref = fill.orderId
      ∧ s.order.BidTakes fill.units ctx
      ∧ ∀ t ∈ c.bids rpc m hsType, t.order.BidFillable ctx →
        t.price ≤ s.price
  found : ∀ t ∈ c.bids rpc m hsType, cfg.floorPriceMist ≤ t.price →
    t.order.BidFillable ctx → ∃ fill, c.autoFillBestBid rpc coins = some fill

/-- Of the bids that can pay for one unit at the floor or above, the first
of the highest has not expired. -/
def FillLive (c : MarketClient) (rpc : Rpc) (m : Market) (ctx : TxContext)
    (hsType : Text) (cfg : AutoFillBidConfig) : Prop :=
  ∀ s, FirstBest Shown.Higher
      ((c.bids rpc m hsType).filter (Shown.pays cfg.floorPriceMist)) s →
    ¬ s.order.Due ctx.epoch

variable {coins : List U64} {cfg : AutoFillBidConfig} {feePool : ID}

/-- The units the client sends to a bid. -/
def unitsFor (coins : List U64) (s : Shown) : U64 :=
  if walletUnits coins ≤ s.order.escrow / s.price then walletUnits coins
  else s.order.escrow / s.price

theorem unitsFor_spec {s : Shown} {floor : U64} (hpays : s.pays floor = true)
    (hprice : 0 < s.price) (hcoins : walletUnits coins ≠ 0) :
    0 < (unitsFor coins s).toNat
      ∧ (unitsFor coins s).toNat * s.price.toNat ≤ s.order.escrow.toNat := by
  have hone : s.price.toNat ≤ s.order.escrow.toNat :=
    BitVec.le_def.mp (of_decide_eq_true hpays).2
  have hpos : 0 < s.price.toNat := BitVec.lt_def.mp hprice
  have hmax : 0 < s.order.escrow.toNat / s.price.toNat :=
    Nat.div_pos hone hpos
  have hdiv := Nat.div_mul_le_self s.order.escrow.toNat s.price.toNat
  unfold unitsFor
  split
  case isTrue hle =>
      rw [BitVec.le_def, BitVec.toNat_udiv] at hle
      refine ⟨?_, Nat.le_trans (Nat.mul_le_mul_right _ hle) hdiv⟩
      bv_omega
  case isFalse =>
      rw [BitVec.toNat_udiv]
      exact ⟨hmax, hdiv⟩

theorem autoFillBestBid_eq (hm : Machine.Reach (market sender) m)
    (htrue : rpc.TruthfulOf m (c.buyOrderType hsType) "payment")
    (hhs : c.hashshareType = some hsType) (hcfg : c.autoFillBid = some cfg)
    (hpool : c.marketFeePoolId = some feePool) (hcoins : walletUnits coins ≠ 0) :
    c.autoFillBestBid rpc coins
      = (((c.bids rpc m hsType).filter (Shown.pays cfg.floorPriceMist)).argmax
        fun s => s.price.toNat).map fun s =>
          { s.candidate with feePool, units := unitsFor coins s } := by
  unfold MarketClient.autoFillBestBid
  simp only [Option.bind_eq_bind, hhs, hcfg, hpool, Option.bind_some,
    if_neg hcoins, findBuyOrders_eq hm htrue]
  cases hmax : ((c.bids rpc m hsType).filter
      (Shown.pays cfg.floorPriceMist)).argmax fun s => s.price.toNat with
  | none => rfl
  | some s =>
      obtain ⟨hmem, hpays⟩ := List.mem_filter.mp (List.argmax_mem hmax)
      obtain ⟨hget, -⟩ := htrue.of_mem hmem
      obtain ⟨hunits, -⟩ :=
        unitsFor_spec hpays (Market.price_pos hm hget) hcoins
      have hne : unitsFor coins s ≠ 0 := by bv_omega
      exact if_neg hne

/-- A bid that takes anything can pay for one unit. -/
theorem mem_paying {t : Shown} {l : List Shown} {floor : U64} (ht : t ∈ l)
    (hfloor : floor ≤ t.price) (htake : t.order.BidFillable ctx) :
    t ∈ l.filter (Shown.pays floor) := by
  have hone := (StandingOrder.bidFillable_iff.mp htake).2
  have hpays : t.pays floor = true := decide_eq_true ⟨hfloor, hone⟩
  exact List.mem_filter.mpr ⟨ht, hpays⟩

theorem fillAgrees_iff (hm : Machine.Reach (market sender) m)
    (htrue : rpc.TruthfulOf m (c.buyOrderType hsType) "payment")
    (hhs : c.hashshareType = some hsType) (hcfg : c.autoFillBid = some cfg)
    (hpool : c.marketFeePoolId = some feePool) (hcoins : walletUnits coins ≠ 0) :
    FillAgrees c rpc m ctx coins hsType cfg
      ↔ FillLive c rpc m ctx hsType cfg := by
  have hfill := autoFillBestBid_eq hm htrue hhs hcfg hpool hcoins
  constructor
  · intro h s hs
    have hmax := FirstBest.argmax_iff.mpr hs
    rw [hmax] at hfill
    obtain ⟨t, ht, href, htakes, -⟩ := h.accepted _ hfill
    -- an id is one order's
    have hsmem := (List.mem_filter.mp hs.mem).1
    have hsame := (htrue.of_mem ht).1
    rw [href] at hsame
    have horder : t.order = s.order :=
      Option.some.inj (hsame.symm.trans (htrue.of_mem hsmem).1)
    rw [← horder]
    exact (StandingOrder.bidTakes_iff.mp htakes).1
  · intro h
    constructor
    case accepted =>
      intro fill hsome
      rw [hfill] at hsome
      obtain ⟨s, hmax, rfl⟩ := Option.map_eq_some_iff.mp hsome
      obtain ⟨hmem, hpays⟩ := List.mem_filter.mp (List.argmax_mem hmax)
      obtain ⟨hget, -⟩ := htrue.of_mem hmem
      have hdue := h s (FirstBest.argmax_iff.mp hmax)
      obtain ⟨hunits, hcost⟩ :=
        unitsFor_spec hpays (Market.price_pos hm hget) hcoins
      refine ⟨s, hmem, rfl,
        StandingOrder.bidTakes_iff.mpr ⟨hdue, hunits, hcost⟩, ?_⟩
      intro t ht htake
      by_cases hfloor : cfg.floorPriceMist ≤ t.price
      · have hle : t.price.toNat ≤ s.price.toNat :=
          List.le_of_mem_argmax (f := fun s : Shown => s.price.toNat)
            (mem_paying ht hfloor htake) hmax
        exact BitVec.le_def.mpr hle
      · have hsfloor : cfg.floorPriceMist ≤ s.price :=
          (of_decide_eq_true hpays).1
        bv_omega
    case found =>
      intro t ht hfloor htake
      have hin := mem_paying ht hfloor htake
      cases hmax : ((c.bids rpc m hsType).filter
          (Shown.pays cfg.floorPriceMist)).argmax
            fun s => s.price.toNat with
      | none =>
          rw [List.argmax_eq_none.mp hmax] at hin
          cases hin
      | some s =>
          rw [hmax] at hfill
          exact ⟨_, hfill⟩

-- ============================================================ pegging a price

/-- Whether the anchor goes by the best bid, or the best ask. -/
def PegAnchor.readsBid : PegAnchor → Bool
  | .mid | .bestBid => true
  | .bestAsk => false

def PegAnchor.readsAsk : PegAnchor → Bool
  | .mid | .bestAsk => true
  | .bestBid => false

/-- The bid and the ask a price is pegged to can be filled, and so can the
order the client tops up. -/
structure PegAgrees (c : MarketClient) (rpc : Rpc) (m : Market)
    (ctx : TxContext) (coins : List U64) (hsType : Text)
    (cfg : AutoSellPegConfig) : Prop where
  bid : 0 < cfg.pegged (c.scanOrderbookTop rpc (c.buyOrderType hsType)
      (c.sellOrderType hsType)) → cfg.anchor.readsBid →
    ∀ top, c.topBid rpc (c.buyOrderType hsType) = some top →
      ∃ s ∈ c.bids rpc m hsType, s.ref = top.orderId
        ∧ s.order.BidFillable ctx
  ask : 0 < cfg.pegged (c.scanOrderbookTop rpc (c.buyOrderType hsType)
      (c.sellOrderType hsType)) → cfg.anchor.readsAsk →
    ∀ top, c.topAsk rpc (c.sellOrderType hsType) = some top →
      ∃ s ∈ c.asks rpc m hsType, s.ref = top.orderId
        ∧ s.order.AskFillable ctx
  topUp : ∀ ref version newPrice,
    c.autoSellPegged rpc coins = some (.topUp ref version newPrice) →
      ∃ s ∈ c.ownAsks rpc m hsType, s.ref = ref ∧ s.order.AskFillable ctx

/-- The first of the best, or none where there is none. -/
def IsTop (better : Shown → Shown → Prop) (l : List Shown) :
    Option Shown → Prop
  | none => l = []
  | some s => FirstBest better l s

/-- The first of the highest bids and of the lowest asks that hold
anything, as far as a price is pegged to them, have not expired, and that
bid can pay for one unit; and if a price is found, the first of the
client's own asks that hold anything has not expired. -/
structure PegLive (c : MarketClient) (rpc : Rpc) (m : Market)
    (ctx : TxContext) (hsType : Text) (cfg : AutoSellPegConfig)
    (topBid topAsk : Option Shown) : Prop where
  bid : 0 < cfg.pegged (topBid.map Shown.price, topAsk.map Shown.price) →
    cfg.anchor.readsBid → ∀ s, topBid = some s →
      ¬ s.order.Due ctx.epoch ∧ s.price ≤ s.order.escrow
  ask : 0 < cfg.pegged (topBid.map Shown.price, topAsk.map Shown.price) →
    cfg.anchor.readsAsk → ∀ s, topAsk = some s → ¬ s.order.Due ctx.epoch
  own : (cfg.target (c.dynamicFloorMist.getD 0)
      (cfg.pegged (topBid.map Shown.price, topAsk.map Shown.price))).isSome →
    ∀ s, ((c.ownAsks rpc m hsType).filter Shown.holds).head? = some s →
      ¬ s.order.Due ctx.epoch

theorem isTop_higher {l : List Shown} {top : Option Shown} :
    IsTop Shown.Higher l top ↔ (l.argmax fun s => s.price.toNat) = top := by
  cases top with
  | none =>
      rw [List.argmax_eq_none]
      exact Iff.rfl
  | some s => exact FirstBest.argmax_iff.symm

theorem isTop_lower {l : List Shown} {top : Option Shown} :
    IsTop Shown.Lower l top ↔ (l.argmin fun s => s.price.toNat) = top := by
  cases top with
  | none =>
      rw [List.argmin_eq_none]
      exact Iff.rfl
  | some s =>
      exact (FirstBest.argmin_iff (f := fun s : Shown => s.price.toNat)).symm

variable {peg : AutoSellPegConfig} {bid ask : Option Shown}

theorem scanOrderbookTop_eq
    (htrue : rpc.Truthful m (c.buyOrderType hsType) (c.sellOrderType hsType))
    (hbid : IsTop Shown.Higher ((c.bids rpc m hsType).filter Shown.holds) bid)
    (hask : IsTop Shown.Lower ((c.asks rpc m hsType).filter Shown.holds)
      ask) :
    c.scanOrderbookTop rpc (c.buyOrderType hsType) (c.sellOrderType hsType)
      = (bid.map Shown.price, ask.map Shown.price) := by
  unfold MarketClient.scanOrderbookTop
  rw [topBid_eq htrue.buy, topAsk_eq htrue.sell, isTop_higher.mp hbid,
    isTop_lower.mp hask, Option.map_map, Option.map_map]
  rfl

/-- Whether the client tops up an order, and which. -/
theorem autoSellPegged_topUp
    (htrue : rpc.Truthful m (c.buyOrderType hsType) (c.sellOrderType hsType))
    (hhs : c.hashshareType = some hsType) (hpeg : c.autoSellPeg = some peg)
    (hcoins : walletUnits coins ≠ 0)
    (hbid : IsTop Shown.Higher ((c.bids rpc m hsType).filter Shown.holds) bid)
    (hask : IsTop Shown.Lower ((c.asks rpc m hsType).filter Shown.holds) ask)
    {ref : MarketRef} :
    (∃ version newPrice,
        c.autoSellPegged rpc coins = some (.topUp ref version newPrice))
      ↔ (peg.target (c.dynamicFloorMist.getD 0)
          (peg.pegged (bid.map Shown.price, ask.map Shown.price))).isSome
        ∧ ∃ s, ((c.ownAsks rpc m hsType).filter Shown.holds).head? = some s
          ∧ s.ref = ref := by
  unfold MarketClient.autoSellPegged
  simp only [Option.bind_eq_bind, hhs, hpeg, Option.bind_some,
    if_neg hcoins, scanOrderbookTop_eq htrue hbid hask,
    findMyActiveSellOrder_eq htrue.sell]
  cases peg.target (c.dynamicFloorMist.getD 0)
      (peg.pegged (bid.map Shown.price, ask.map Shown.price)) with
  | none => simp
  | some target =>
      cases ((c.ownAsks rpc m hsType).filter Shown.holds).head? with
      | none => simp
      | some s => simp [Shown.mine]

theorem mem_of_holds {l : List Shown} {s : Shown}
    (h : s ∈ l.filter Shown.holds) : s ∈ l ∧ 0 < s.order.escrow := by
  obtain ⟨hmem, hholds⟩ := List.mem_filter.mp h
  exact ⟨hmem, of_decide_eq_true hholds⟩

/-- Two orders shown under one id are one order. -/
theorem Rpc.TruthfulOf.same_order {escrow : String}
    {page page' : List Keeper.SuiEvent}
    (htrue : rpc.TruthfulOf m wantType escrow) {s t : Shown}
    (hs : s ∈ rpc.shown m wantType page)
    (ht : t ∈ rpc.shown m wantType page') (href : s.ref = t.ref) :
    s.order = t.order := by
  have hget := (htrue.of_mem hs).1
  rw [href, (htrue.of_mem ht).1] at hget
  exact (Option.some.inj hget).symm

/-- The bid a price is pegged to can be filled where it is open. -/
theorem topBid_fillable_iff (ctx : TxContext)
    (htrue : rpc.TruthfulOf m (c.buyOrderType hsType) "payment")
    (hbid : IsTop Shown.Higher ((c.bids rpc m hsType).filter Shown.holds)
      bid) :
    (∀ top, c.topBid rpc (c.buyOrderType hsType) = some top →
        ∃ s ∈ c.bids rpc m hsType, s.ref = top.orderId
          ∧ s.order.BidFillable ctx)
      ↔ ∀ s, bid = some s →
        ¬ s.order.Due ctx.epoch ∧ s.price ≤ s.order.escrow := by
  have htop := topBid_eq (c := c) htrue
  rw [isTop_higher.mp hbid] at htop
  constructor
  · rintro h s rfl
    obtain ⟨t, ht, href, hfill⟩ := h _ htop
    have hs := (mem_of_holds hbid.mem).1
    rw [htrue.same_order ht hs href] at hfill
    exact StandingOrder.bidFillable_iff.mp hfill
  · intro h top hsome
    rw [htop] at hsome
    obtain ⟨s, rfl, rfl⟩ := Option.map_eq_some_iff.mp hsome
    exact ⟨s, (mem_of_holds hbid.mem).1, rfl,
      StandingOrder.bidFillable_iff.mpr (h s rfl)⟩

theorem topAsk_fillable_iff (ctx : TxContext)
    (htrue : rpc.TruthfulOf m (c.sellOrderType hsType) "inventory")
    (hask : IsTop Shown.Lower ((c.asks rpc m hsType).filter Shown.holds)
      ask) :
    (∀ top, c.topAsk rpc (c.sellOrderType hsType) = some top →
        ∃ s ∈ c.asks rpc m hsType, s.ref = top.orderId
          ∧ s.order.AskFillable ctx)
      ↔ ∀ s, ask = some s → ¬ s.order.Due ctx.epoch := by
  have htop := topAsk_eq (c := c) htrue
  rw [isTop_lower.mp hask] at htop
  constructor
  · rintro h s rfl
    obtain ⟨t, ht, href, hfill⟩ := h _ htop
    have hs := (mem_of_holds hask.mem).1
    rw [htrue.same_order ht hs href] at hfill
    exact (StandingOrder.askFillable_iff.mp hfill).1
  · intro h top hsome
    rw [htop] at hsome
    obtain ⟨s, rfl, rfl⟩ := Option.map_eq_some_iff.mp hsome
    obtain ⟨hs, hholds⟩ := mem_of_holds hask.mem
    exact ⟨s, hs, rfl, StandingOrder.askFillable_iff.mpr ⟨h s rfl, hholds⟩⟩

/-- So can the order it tops up. -/
theorem topUp_fillable_iff (ctx : TxContext)
    (htrue : rpc.Truthful m (c.buyOrderType hsType) (c.sellOrderType hsType))
    (hhs : c.hashshareType = some hsType) (hpeg : c.autoSellPeg = some peg)
    (hcoins : walletUnits coins ≠ 0)
    (hbid : IsTop Shown.Higher ((c.bids rpc m hsType).filter Shown.holds) bid)
    (hask : IsTop Shown.Lower ((c.asks rpc m hsType).filter Shown.holds)
      ask) :
    (∀ ref version newPrice,
        c.autoSellPegged rpc coins = some (.topUp ref version newPrice) →
          ∃ s ∈ c.ownAsks rpc m hsType, s.ref = ref
            ∧ s.order.AskFillable ctx)
      ↔ ((peg.target (c.dynamicFloorMist.getD 0)
          (peg.pegged (bid.map Shown.price, ask.map Shown.price))).isSome →
        ∀ s, ((c.ownAsks rpc m hsType).filter Shown.holds).head? = some s →
          ¬ s.order.Due ctx.epoch) := by
  constructor
  · intro h htarget s hs
    obtain ⟨version, newPrice, htopUp⟩ :=
      (autoSellPegged_topUp htrue hhs hpeg hcoins hbid hask).mpr
        ⟨htarget, s, hs, rfl⟩
    obtain ⟨t, ht, href, hfill⟩ := h _ _ _ htopUp
    have hmem := (mem_of_holds (List.mem_of_head? hs)).1
    rw [htrue.sell.same_order ht hmem href] at hfill
    exact (StandingOrder.askFillable_iff.mp hfill).1
  · intro h ref version newPrice htopUp
    obtain ⟨htarget, s, hs, rfl⟩ :=
      (autoSellPegged_topUp htrue hhs hpeg hcoins hbid hask).mp
        ⟨version, newPrice, htopUp⟩
    obtain ⟨hmem, hholds⟩ := mem_of_holds (List.mem_of_head? hs)
    exact ⟨s, hmem, rfl,
      StandingOrder.askFillable_iff.mpr ⟨h htarget s hs, hholds⟩⟩

theorem pegAgrees_iff
    (htrue : rpc.Truthful m (c.buyOrderType hsType) (c.sellOrderType hsType))
    (hhs : c.hashshareType = some hsType) (hpeg : c.autoSellPeg = some peg)
    (hcoins : walletUnits coins ≠ 0)
    (hbid : IsTop Shown.Higher ((c.bids rpc m hsType).filter Shown.holds) bid)
    (hask : IsTop Shown.Lower ((c.asks rpc m hsType).filter Shown.holds)
      ask) :
    PegAgrees c rpc m ctx coins hsType peg
      ↔ PegLive c rpc m ctx hsType peg bid ask := by
  have hscan := scanOrderbookTop_eq htrue hbid hask
  have htopBid := topBid_fillable_iff ctx htrue.buy hbid
  have htopAsk := topAsk_fillable_iff ctx htrue.sell hask
  have htopUp := topUp_fillable_iff ctx htrue hhs hpeg hcoins hbid hask
  constructor
  · rintro ⟨hb, ha, hu⟩
    rw [hscan] at hb ha
    exact ⟨fun hpos hreads => htopBid.mp (hb hpos hreads),
      fun hpos hreads => htopAsk.mp (ha hpos hreads), htopUp.mp hu⟩
  · rintro ⟨hb, ha, hu⟩
    rw [← hscan] at hb ha
    exact ⟨fun hpos hreads => htopBid.mpr (hb hpos hreads),
      fun hpos hreads => htopAsk.mpr (ha hpos hreads), htopUp.mpr hu⟩

-- ================================================================ the two books

structure OrdersAgree (c : MarketClient) (rpc : Rpc) (m : Market)
    (ctx : TxContext) (coins : List U64) : Prop where
  fill : ∀ hsType cfg feePool, c.hashshareType = some hsType →
    c.autoFillBid = some cfg → c.marketFeePoolId = some feePool →
    walletUnits coins ≠ 0 → FillAgrees c rpc m ctx coins hsType cfg
  peg : ∀ hsType cfg, c.hashshareType = some hsType →
    c.autoSellPeg = some cfg → walletUnits coins ≠ 0 →
    PegAgrees c rpc m ctx coins hsType cfg

structure OrdersLive (c : MarketClient) (rpc : Rpc) (m : Market)
    (ctx : TxContext) (coins : List U64) : Prop where
  fill : ∀ hsType cfg feePool, c.hashshareType = some hsType →
    c.autoFillBid = some cfg → c.marketFeePoolId = some feePool →
    walletUnits coins ≠ 0 → FillLive c rpc m ctx hsType cfg
  peg : ∀ hsType cfg, c.hashshareType = some hsType →
    c.autoSellPeg = some cfg → walletUnits coins ≠ 0 →
    ∀ bid ask,
      IsTop Shown.Higher ((c.bids rpc m hsType).filter Shown.holds) bid →
      IsTop Shown.Lower ((c.asks rpc m hsType).filter Shown.holds) ask →
      PegLive c rpc m ctx hsType cfg bid ask

/-- For every reachable book and epoch, against a node that shows the book
as it is: what the client sells to is accepted and is the best there is,
what it pegs to and what it tops up can be filled, if and only if the few
orders its scans end with are not expired, and the bid it pegs to can pay
for one unit. -/
theorem live_orders_iff (hm : Machine.Reach (market sender) m)
    (htrue : ∀ hsType, c.hashshareType = some hsType →
      rpc.Truthful m (c.buyOrderType hsType) (c.sellOrderType hsType)) :
    OrdersAgree c rpc m ctx coins ↔ OrdersLive c rpc m ctx coins := by
  constructor
  · intro h
    constructor
    case fill =>
      intro hsType cfg feePool hhs hcfg hpool hcoins
      exact (fillAgrees_iff hm (htrue hsType hhs).buy hhs hcfg hpool
        hcoins).mp (h.fill hsType cfg feePool hhs hcfg hpool hcoins)
    case peg =>
      intro hsType cfg hhs hcfg hcoins bid ask hbid hask
      exact (pegAgrees_iff (htrue hsType hhs) hhs hcfg hcoins hbid
        hask).mp (h.peg hsType cfg hhs hcfg hcoins)
  · intro h
    constructor
    case fill =>
      intro hsType cfg feePool hhs hcfg hpool hcoins
      exact (fillAgrees_iff hm (htrue hsType hhs).buy hhs hcfg hpool
        hcoins).mpr (h.fill hsType cfg feePool hhs hcfg hpool hcoins)
    case peg =>
      intro hsType cfg hhs hcfg hcoins
      have hbid := isTop_higher
        (l := (c.bids rpc m hsType).filter Shown.holds).mpr rfl
      have hask := isTop_lower
        (l := (c.asks rpc m hsType).filter Shown.holds).mpr rfl
      exact (pegAgrees_iff (htrue hsType hhs) hhs hcfg hcoins hbid
        hask).mpr (h.peg hsType cfg hhs hcfg hcoins _ _ hbid hask)

-- ============================================================ a full node

/-- A miner that sells at any price, or at the middle of the book. -/
def seller : MarketClient where
  address := 2
  packageId := "0x51".toList
  quoteType := "0x2::sui::SUI".toList
  hashshareType := some "0x51::hs_000::HS_000".toList
  marketFeePoolId := some 0
  autoFillBid := some ⟨1⟩
  autoSellPeg := some ⟨.mid, 0, 0, 0⟩
  dynamicFloorMist := none

def sellerBuys : Text := seller.buyOrderType "0x51::hs_000::HS_000".toList

def sellerSells : Text := seller.sellOrderType "0x51::hs_000::HS_000".toList

/-- The object of an order of the seller's market. -/
def orderObject (type : Text) (escrow : String) (o : StandingOrder) :
    SuiObjectData where
  type := some type
  fields := some [
    (escrow.toList, .string (Nat.toDigits 10 o.escrow.toNat)),
    ("price_per_unit_mist".toList,
      .string (Nat.toDigits 10 o.pricePerUnitMist.toNat))]
  initialSharedVersion := some 7

def placedEvent (orderId owner : String) : Keeper.SuiEvent where
  parsed field :=
    if field = "order_id".toList then some (.string orderId.toList)
    else if field = "seller".toList then some (.string owner.toList)
    else none
  txDigest := []

/-- A node that shows the market as it is. Two bids were placed and an
ask, by the seller. -/
def sellerNode (m : Market) : Rpc where
  objectId text :=
    if text = "0xb0".toList then some (.buy 0)
    else if text = "0xb1".toList then some (.buy 1)
    else if text = "0xa0".toList then some (.sell 0)
    else none
  suiAddress text := if text = "0x2".toList then some 2 else none
  getObject
    | .buy id => (m.get (.buy id)).map (orderObject sellerBuys "payment")
    | .sell id =>
        (m.get (.sell id)).map (orderObject sellerSells "inventory")
  queryEvents type :=
    if type = "0x51::hash_share_market::BuyOrderPlaced".toList then
      [placedEvent "0xb1" "0x1", placedEvent "0xb0" "0x1"]
    else [placedEvent "0xa0" "0x2"]

theorem orderObject_shows (type : Text) {escrow : String}
    (hne : ("price_per_unit_mist".toList == escrow.toList) = false)
    (o : StandingOrder) : (orderObject type escrow o).Shows escrow o where
  shared := ⟨7, rfl⟩
  fields := by
    refine ⟨_, rfl, .inl ?_, .inl ?_⟩
    · rw [List.lookup_cons, hne]
      exact List.lookup_cons_self
    · exact List.lookup_cons_self

theorem sellerNode_truthful (m : Market) :
    (sellerNode m).Truthful m sellerBuys sellerSells := by
  have hsides : sellerBuys ≠ sellerSells := by decide +kernel
  constructor
  · intro ref data hdata htype
    cases ref with
    | buy id =>
        obtain ⟨o, ho, rfl⟩ := Option.map_eq_some_iff.mp hdata
        exact ⟨o, ho, orderObject_shows _ (by decide +kernel) o⟩
    | sell id =>
        obtain ⟨o, ho, rfl⟩ := Option.map_eq_some_iff.mp hdata
        exact absurd (Option.some.inj htype).symm hsides
  · intro ref data hdata htype
    cases ref with
    | buy id =>
        obtain ⟨o, ho, rfl⟩ := Option.map_eq_some_iff.mp hdata
        exact absurd (Option.some.inj htype) hsides
    | sell id =>
        obtain ⟨o, ho, rfl⟩ := Option.map_eq_some_iff.mp hdata
        exact ⟨o, ho, orderObject_shows _ (by decide +kernel) o⟩

/-- Two bids and the seller's ask, the ask and the higher bid up to
`expires`, and the start of an epoch. -/
def twoBids (expires epoch : U64) : List MarketCall :=
  [.beginTx 1 0 0,
   .placeBuyOrder 10 expires 100,
   .placeBuyOrder 8 0 80,
   .beginTx 2 0 0,
   .placeSellOrder 12 expires 5,
   .beginTx 2 epoch 0]

/-- Where no order expires the two books agree. -/
theorem live_orders_iff_twoBids :
    ∃ m, Machine.Reach (market 0) m
      ∧ OrdersAgree seller (sellerNode m) m m.ctx [3, 2]
      ∧ (∃ fill, seller.autoFillBestBid (sellerNode m) [3, 2] = some fill
        ∧ fill.orderId = .buy 0 ∧ fill.units = 5)
      ∧ seller.autoSellPegged (sellerNode m) [3, 2]
        = some (.topUp (.sell 0) 7 (some 11)) := by
  have hrun : (market 0).endsIn (twoBids 0 1) (fun m =>
      decide ((∀ s ∈ seller.bids (sellerNode m) m
            "0x51::hs_000::HS_000".toList,
          s.order.expiresEpoch = none ∧ s.price ≤ s.order.escrow)
        ∧ (∀ s ∈ seller.asks (sellerNode m) m
            "0x51::hs_000::HS_000".toList, s.order.expiresEpoch = none)
        ∧ (∀ s ∈ seller.ownAsks (sellerNode m) m
            "0x51::hs_000::HS_000".toList, s.order.expiresEpoch = none)
        ∧ seller.autoFillBestBid (sellerNode m) [3, 2]
          = some ⟨.buy 0, 7, 0, 5⟩
        ∧ seller.autoSellPegged (sellerNode m) [3, 2]
          = some (.topUp (.sell 0) 7 (some 11)))) = true := by
    decide +kernel
  obtain ⟨m, hm, hcheck⟩ := Machine.reach_of_endsIn hrun
  obtain ⟨hbids, hasks, hown, hfill, hsell⟩ := of_decide_eq_true hcheck
  have hopen : ∀ {o : StandingOrder} {epoch : U64},
      o.expiresEpoch = none → ¬ o.Due epoch := by
    rintro o epoch hnone ⟨expires, hsome, -⟩
    rw [hnone] at hsome
    cases hsome
  refine ⟨m, hm, (live_orders_iff hm ?_).mpr ?_, ⟨_, hfill, rfl, rfl⟩, hsell⟩
  · rintro hsType ⟨⟩
    exact sellerNode_truthful m
  · constructor
    case fill =>
      rintro hsType cfg feePool ⟨⟩ - - - s hs
      exact hopen (hbids s (List.mem_filter.mp hs.mem).1).1
    case peg =>
      rintro hsType cfg ⟨⟩ - - bid ask hbid hask
      constructor
      case bid =>
        rintro - - s rfl
        have hmem := (mem_of_holds hbid.mem).1
        exact ⟨hopen (hbids s hmem).1, (hbids s hmem).2⟩
      case ask =>
        rintro - - s rfl
        exact hopen (hasks s (mem_of_holds hask.mem).1)
      case own =>
        rintro - s hs
        exact hopen (hown s (mem_of_holds (List.mem_of_head? hs)).1)

/-- In the epoch at which the ask and the higher bid expire, the client
sells to that bid although the other would take it all, pegs its price to
both and tops up the ask. -/
theorem expired_orders_taken :
    ∃ m, Machine.Reach (market 0) m
      ∧ ¬ OrdersAgree seller (sellerNode m) m m.ctx [3, 2]
      ∧ seller.autoFillBestBid (sellerNode m) [3, 2]
        = some ⟨.buy 0, 7, 0, 5⟩
      ∧ seller.autoSellPegged (sellerNode m) [3, 2]
        = some (.topUp (.sell 0) 7 (some 11))
      ∧ ∃ high low ask, m.get (.buy 0) = some high
        ∧ m.get (.buy 1) = some low ∧ m.get (.sell 0) = some ask
        ∧ (∀ feePool, fillBuyOrder ⟨high⟩ feePool 5 m.ctx
          = .error (.market .EOrderExpired))
        ∧ low.BidTakes 5 m.ctx ∧ ¬ ask.AskFillable m.ctx := by
  have hrun : (market 0).endsIn (twoBids 1 1) (fun m =>
      decide (m.ctx.epoch = 1 ∧ m.get (.buy 0) = some ⟨1, 10, 100, some 1⟩
        ∧ m.get (.buy 1) = some ⟨1, 8, 80, none⟩
        ∧ m.get (.sell 0) = some ⟨2, 12, 5, some 1⟩
        ∧ seller.autoFillBestBid (sellerNode m) [3, 2]
          = some ⟨.buy 0, 7, 0, 5⟩
        ∧ seller.autoSellPegged (sellerNode m) [3, 2]
          = some (.topUp (.sell 0) 7 (some 11)))) = true := by
    decide +kernel
  obtain ⟨m, hm, hcheck⟩ := Machine.reach_of_endsIn hrun
  obtain ⟨hepoch, hhigh, hlow, hask, hfill, hsell⟩ := of_decide_eq_true hcheck
  have hdue : (1 : U64) ≤ m.ctx.epoch := by
    rw [hepoch]
    decide
  refine ⟨m, hm, ?_, hfill, hsell, _, _, _, hhigh, hlow, hask, ?_, ?_, ?_⟩
  · intro hagree
    obtain ⟨s, hs, href, htakes, -⟩ :=
      (hagree.fill _ _ _ rfl rfl rfl (by decide)).accepted _ hfill
    have hget := ((sellerNode_truthful m).buy.of_mem hs).1
    rw [href, hhigh, Option.some.injEq] at hget
    rw [← hget] at htakes
    exact (StandingOrder.bidTakes_iff.mp htakes).1 ⟨1, rfl, hdue⟩
  · intro feePool
    exact fillBuyOrder_expired.mpr ⟨1, rfl, hdue⟩
  · refine StandingOrder.bidTakes_iff.mpr ⟨?_, by decide, by decide⟩
    rintro ⟨expires, hsome, -⟩
    cases hsome
  · intro hfillable
    exact (StandingOrder.askFillable_iff.mp hfillable).1 ⟨1, rfl, hdue⟩

end Client

end M1n3Protocol
