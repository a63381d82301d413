/-
The hashpower orders' journal: what an order is, whichever of the two
kinds it is, and the five things that can happen to it.

# One order, two types

`AnyOrder` is an order of either kind: its terms, and the template it is
pinned to, if it is. `OrderStep` says what each move makes of one. It is
what an order is for, and mentions no template, no header and no other
order.

# What carries it

`orderJournal` reads the moves off the calls. Its fields are the
refinement: every call that posts a move takes that order by `OrderStep`
and leaves every other order as it is, and every other call leaves all
of them. The view has beside the order what its paid shares add up to,
so the accepted shares are tied to the pages too.
-/
import M1n3Protocol.Chain.MiningStep
import M1n3Protocol.Lib.Journal

namespace M1n3Protocol

open Checked ObjStore

-- =============================================================== the order

structure AnyOrder extends OrderTerms where
  template : Option ID

def HashpowerBuyOrder.toAny (o : HashpowerBuyOrder) : AnyOrder :=
  { toOrderTerms := o.toOrderTerms, template := some o.templateId }

def BuyerHashpowerOrder.toAny (o : BuyerHashpowerOrder) : AnyOrder :=
  { toOrderTerms := o.toOrderTerms, template := none }

def Orders.life (o : Orders) : OrderRef → Life AnyOrder
  | .hashpower id => (o.hashpower.life id).map HashpowerBuyOrder.toAny
  | .buyer id => (o.buyer.life id).map BuyerHashpowerOrder.toAny

/-- The order, while it is live. -/
def Orders.get (o : Orders) : OrderRef → Option AnyOrder
  | .hashpower id => (o.hashpower.get id).map HashpowerBuyOrder.toAny
  | .buyer id => (o.buyer.get id).map BuyerHashpowerOrder.toAny

/-- What an order paid for this share. -/
def ShareEntry.paidFrom (ref : OrderRef) (e : ShareEntry) : Nat :=
  match e.payment with
  | none => 0
  | some p => if p.order = ref then p.payout.toNat else 0

structure OrderView where
  life : Life AnyOrder
  paid : Nat

def World.orderView (w : World) (ref : OrderRef) : OrderView :=
  ⟨w.orders.life ref, w.mining.shares.sum (ShareEntry.paidFrom ref)⟩

-- =============================================================== the moves

/-- `paid` has the order as it stood when it paid. -/
inductive OrderMove
  | placed (order : AnyOrder)
  | toppedUp (payment : U64)
  | repriced (price : U64)
  | paid (share : ID) (order : AnyOrder) (epoch payout : U64)
  | cancelled (recipient : Address) (refund : U64)

inductive OrderStep : OrderView → OrderMove → OrderView → Prop
  | place {o : AnyOrder} {n : Nat} (hprice : 0 < o.pricePerDifficulty) :
      OrderStep ⟨.unborn, n⟩ (.placed o) ⟨.live o, n⟩
  | topUp {o : AnyOrder} {payment budget : U64} {n : Nat}
      (hbudget : budget.toNat = o.budget.toNat + payment.toNat) :
      OrderStep ⟨.live o, n⟩ (.toppedUp payment) ⟨.live { o with budget }, n⟩
  | reprice {o : AnyOrder} {pricePerDifficulty : U64} {n : Nat}
      (hdynamic : o.isDynamic = true) (hprice : 0 < pricePerDifficulty) :
      OrderStep ⟨.live o, n⟩ (.repriced pricePerDifficulty)
        ⟨.live { o with pricePerDifficulty }, n⟩
  | pay {o : AnyOrder} {share : ID} {epoch payout budget : U64} {n : Nat}
      (hbudget : budget.toNat + payout.toNat = o.budget.toNat)
      (hepoch : ∀ cutoff, o.expiresEpoch = some cutoff → epoch ≤ cutoff) :
      OrderStep ⟨.live o, n⟩ (.paid share o epoch payout)
        ⟨.live { o with budget }, n + payout.toNat⟩
  | cancel {o : AnyOrder} {n : Nat} :
      OrderStep ⟨.live o, n⟩ (.cancelled o.buyer o.budget) ⟨.gone, n⟩

/-- The refund is what the call hands its sender. -/
def OrderCall.post (w : World) : OrderCall → Option (OrderRef × OrderMove)
  | .placeHashpowerOrder parent payment price expiresEpoch isDynamic =>
      some (.hashpower w.orders.hashpower.next, .placed
        ⟨⟨w.ctx.sender, price, payment, expiresEpoch, isDynamic⟩, some parent⟩)
  | .updateHashpowerOrderPrice id newPrice =>
      some (.hashpower id, .repriced newPrice)
  | .topUpHashpowerOrder id payment =>
      some (.hashpower id, .toppedUp payment)
  | .cancelHashpowerOrder id => do
      let order ← w.orders.hashpower.get id
      let refund ← (M1n3Protocol.cancelHashpowerOrder order w.ctx).toOption
      return (.hashpower id, .cancelled w.ctx.sender refund)
  | .placeBuyerOrder payment price expiresEpoch isDynamic =>
      some (.buyer w.orders.buyer.next, .placed
        ⟨⟨w.ctx.sender, price, payment, expiresEpoch, isDynamic⟩, none⟩)
  | .updateBuyerOrderPrice id newPrice => some (.buyer id, .repriced newPrice)
  | .topUpBuyerOrder id payment => some (.buyer id, .toppedUp payment)
  | .cancelBuyerOrder id => do
      let order ← w.orders.buyer.get id
      let refund ← (M1n3Protocol.cancelBuyerOrder order w.ctx).toOption
      return (.buyer id, .cancelled w.ctx.sender refund)

def PayCall.order : PayCall → OrderRef
  | .submitShareForPay _ order _ _ => .hashpower order
  | .submitShareForPayDerived _ order _ _ => .hashpower order
  | .submitShareForBuyerPay _ order _ _ => .buyer order
  | .submitShareForBuyerPayDerived _ _ order _ _ => .buyer order

def PayCall.mined : PayCall → TemplateRef
  | .submitShareForPay template _ _ _ => .direct template
  | .submitShareForPayDerived derived _ _ _ => .derived derived
  | .submitShareForBuyerPay template _ _ _ => .direct template
  | .submitShareForBuyerPayDerived derived _ _ _ _ => .derived derived

def PayCall.sub : PayCall → Submission
  | .submitShareForPay _ _ _ sub => sub
  | .submitShareForPayDerived _ _ _ sub => sub
  | .submitShareForBuyerPay _ _ _ sub => sub
  | .submitShareForBuyerPayDerived _ _ _ _ sub => sub

/-- The coin handed out is the new share's payment. -/
def PayCall.post (w w' : World) (c : PayCall) :
    Option (OrderRef × OrderMove) := do
  let order ← w.orders.get c.order
  let e ← w'.mining.shares.get w.mining.shares.next
  let p ← e.payment
  return (c.order, .paid w.mining.shares.next order w.ctx.epoch p.payout)

def Call.post (w : World) (c : Call) (w' : World) :
    Option (OrderRef × OrderMove) :=
  match c with
  | .order c => c.post w
  | .pay c => c.post w w'
  | _ => none

-- ====================================================== the calls on them

/-- One order took a step, and no other did anything. -/
structure Orders.Moved (o o' : Orders) (ref : OrderRef) (mv : OrderMove)
    (n n' : Nat) : Prop where
  step : OrderStep ⟨o.life ref, n⟩ mv ⟨o'.life ref, n'⟩
  others : ∀ r, r ≠ ref → o'.life r = o.life r

section
variable {o : Orders} {id : ID} {mv : OrderMove} {n n' : Nat}

theorem Orders.Moved.hashpower {s : ObjStore HashpowerBuyOrder}
    {l l' : Life HashpowerBuyOrder} (hturns : o.hashpower.Turns id l l' s)
    (hstep : OrderStep ⟨l.map HashpowerBuyOrder.toAny, n⟩ mv
      ⟨l'.map HashpowerBuyOrder.toAny, n'⟩) :
    o.Moved { o with hashpower := s } (.hashpower id) mv n n' := by
  obtain ⟨rfl, rfl, hne⟩ := hturns
  refine ⟨hstep, fun r hr => ?_⟩
  cases r with
  | hashpower i =>
      exact congrArg (Life.map _) (hne i fun heq => hr (heq ▸ rfl))
  | buyer i => rfl

theorem Orders.Moved.buyer {s : ObjStore BuyerHashpowerOrder}
    {l l' : Life BuyerHashpowerOrder} (hturns : o.buyer.Turns id l l' s)
    (hstep : OrderStep ⟨l.map BuyerHashpowerOrder.toAny, n⟩ mv
      ⟨l'.map BuyerHashpowerOrder.toAny, n'⟩) :
    o.Moved { o with buyer := s } (.buyer id) mv n n' := by
  obtain ⟨rfl, rfl, hne⟩ := hturns
  refine ⟨hstep, fun r hr => ?_⟩
  cases r with
  | hashpower i => rfl
  | buyer i =>
      exact congrArg (Life.map _) (hne i fun heq => hr (heq ▸ rfl))

end

/-- A call on the orders is one move of one of them. An order is placed
on its buyer's own template. -/
theorem Orders.exec_moves {w : World} {c : OrderCall} {o' : Orders}
    (h : w.orders.exec w.ctx w.mining.templates c = .ok o') :
    ∃ ref mv, c.post w = some (ref, mv)
      ∧ (∀ n, w.orders.Moved o' ref mv n n)
      ∧ ∀ o tid, mv = .placed o → o.template = some tid →
        ∃ t, w.mining.templates.get tid = some t
          ∧ t.template.owner = o.buyer := by
  cases c with
  | placeHashpowerOrder parent payment price expires isDynamic =>
      simp only [Orders.exec, M1n3Protocol.placeHashpowerOrder, bind_eq_ok,
        load_eq_ok, require_eq_ok, pure_eq_ok] at h
      obtain ⟨t, ht, order, ⟨-, howner, terms, hplace, rfl⟩, rfl⟩ := h
      obtain ⟨hprice, rfl⟩ := OrderTerms.place_ok hplace
      refine ⟨_, _, rfl, fun _ => .hashpower (turns_alloc ..)
        (.place hprice), ?_⟩
      rintro o tid ⟨⟩ ⟨⟩
      exact ⟨t, ht, howner⟩
  | updateHashpowerOrderPrice id newPrice =>
      simp only [Orders.exec, M1n3Protocol.updateHashpowerOrderPrice,
        bind_eq_ok, load_eq_ok, pure_eq_ok] at h
      obtain ⟨b, hget, order, ⟨terms, hupdate, rfl⟩, rfl⟩ := h
      obtain ⟨-, hdynamic, hprice, rfl⟩ := OrderTerms.updatePrice_ok hupdate
      refine ⟨_, _, rfl, fun _ => .hashpower (turns_put _ hget)
        (.reprice hdynamic hprice), ?_⟩
      rintro o tid ⟨⟩
  | topUpHashpowerOrder id payment =>
      simp only [Orders.exec, M1n3Protocol.topUpHashpowerOrder, bind_eq_ok,
        load_eq_ok, pure_eq_ok] at h
      obtain ⟨b, hget, order, ⟨terms, htop, rfl⟩, rfl⟩ := h
      obtain ⟨budget, hbudget, rfl⟩ := OrderTerms.topUp_ok htop
      refine ⟨_, _, rfl,
        fun _ => .hashpower (turns_put _ hget) (.topUp hbudget), ?_⟩
      rintro o tid ⟨⟩
  | cancelHashpowerOrder id =>
      simp only [Orders.exec, bind_eq_ok, load_eq_ok, pure_eq_ok] at h
      obtain ⟨b, hget, refund, hcancel, rfl⟩ := h
      obtain ⟨hbuyer, rfl⟩ := OrderTerms.cancel_ok hcancel
      refine ⟨.hashpower id, .cancelled b.buyer b.budget, ?_,
        fun _ => .hashpower (turns_erase hget) .cancel, ?_⟩
      · simp [OrderCall.post, hget, hcancel, hbuyer, Except.toOption]
      · rintro o tid ⟨⟩
  | placeBuyerOrder payment price expires isDynamic =>
      simp only [Orders.exec, M1n3Protocol.placeBuyerOrder, bind_eq_ok,
        pure_eq_ok] at h
      obtain ⟨order, ⟨terms, hplace, rfl⟩, rfl⟩ := h
      obtain ⟨hprice, rfl⟩ := OrderTerms.place_ok hplace
      exact ⟨_, _, rfl, fun _ => .buyer (turns_alloc ..) (.place hprice),
        by rintro o tid ⟨⟩ ⟨⟩⟩
  | updateBuyerOrderPrice id newPrice =>
      simp only [Orders.exec, M1n3Protocol.updateBuyerOrderPrice,
        bind_eq_ok, load_eq_ok, pure_eq_ok] at h
      obtain ⟨b, hget, order, ⟨terms, hupdate, rfl⟩, rfl⟩ := h
      obtain ⟨-, hdynamic, hprice, rfl⟩ := OrderTerms.updatePrice_ok hupdate
      refine ⟨_, _, rfl, fun _ => .buyer (turns_put _ hget)
        (.reprice hdynamic hprice), ?_⟩
      rintro o tid ⟨⟩
  | topUpBuyerOrder id payment =>
      simp only [Orders.exec, M1n3Protocol.topUpBuyerOrder, bind_eq_ok,
        load_eq_ok, pure_eq_ok] at h
      obtain ⟨b, hget, order, ⟨terms, htop, rfl⟩, rfl⟩ := h
      obtain ⟨budget, hbudget, rfl⟩ := OrderTerms.topUp_ok htop
      refine ⟨_, _, rfl,
        fun _ => .buyer (turns_put _ hget) (.topUp hbudget), ?_⟩
      rintro o tid ⟨⟩
  | cancelBuyerOrder id =>
      simp only [Orders.exec, bind_eq_ok, load_eq_ok, pure_eq_ok] at h
      obtain ⟨b, hget, refund, hcancel, rfl⟩ := h
      obtain ⟨hbuyer, rfl⟩ := OrderTerms.cancel_ok hcancel
      refine ⟨.buyer id, .cancelled b.buyer b.budget, ?_,
        fun _ => .buyer (turns_erase hget) .cancel, ?_⟩
      · simp [OrderCall.post, hget, hcancel, hbuyer, Except.toOption]
      · rintro o tid ⟨⟩

-- ============================================================== payments

/-- A share mined on the template, or on one derived from it. -/
def Mining.Rooted (m : Mining) (tid : ID) : TemplateRef → Prop
  | .direct id => id = tid
  | .derived id => ∃ d, m.derived.get id = some d ∧ d.parentTemplateId = tid

/-- What a call on any of the four lanes checked and did. -/
structure World.Paid (H : HashFn) (w : World) (c : PayCall) (w' : World)
    (order : AnyOrder) (e : ShareEntry) (payout : U64) : Prop where
  get : w.orders.get c.order = some order
  shares : w'.mining.shares = w.mining.shares.alloc e
  payment : e.payment = some ⟨c.order, payout⟩
  payout_eq : payout = computePayout e.difficulty order.pricePerDifficulty
  judged : ∃ job, w.mining.job c.mined = some job
    ∧ difficultyFromHash (job.shareHash H c.sub) = .ok e.difficulty
  rooted : ∃ tid, w.mining.Rooted tid e.mined
    ∧ (order.template = some tid ∨ order.template = none
      ∧ ∃ t, w.mining.templates.get tid = some t
        ∧ t.template.owner = order.buyer)
  moved : ∀ n, w.orders.Moved w'.orders c.order
    (.paid w.mining.shares.next order w.ctx.epoch payout) n (n + payout.toNat)

section
variable {H : HashFn} {ctx : TxContext} {job : Job} {r c : U64}
  {objects : MinerObjects} {sub : Submission} {paid : PaidOutcome}

theorem PaidBy.difficulty_eq {terms : OrderTerms}
    (h : PaidBy H job r c terms objects sub ctx paid) :
    difficultyFromHash (job.shareHash H sub)
      = .ok paid.outcome.share.difficulty := by
  rw [← h.accepted.hash_eq]
  exact h.accepted.difficulty_eq

theorem PaidBy.moved_hashpower {o : Orders} {id share : ID}
    {b : HashpowerBuyOrder} (hget : o.hashpower.get id = some b)
    (h : PaidBy H job r c b.toOrderTerms objects sub ctx paid) (n : Nat) :
    o.Moved { o with
        hashpower := o.hashpower.put id { b with toOrderTerms := paid.terms } }
      (.hashpower id) (.paid share b.toAny ctx.epoch paid.payout) n
      (n + paid.payout.toNat) := by
  obtain ⟨budget, hbudget, hterms⟩ := OrderTerms.drainBudget_ok h.drain_ok
  rw [hterms]
  exact .hashpower (turns_put _ hget)
    (.pay hbudget (checkOrderNotExpired_ok h.not_expired))

theorem PaidBy.moved_buyer {o : Orders} {id share : ID}
    {b : BuyerHashpowerOrder} (hget : o.buyer.get id = some b)
    (h : PaidBy H job r c b.toOrderTerms objects sub ctx paid) (n : Nat) :
    o.Moved { o with
        buyer := o.buyer.put id { toOrderTerms := paid.terms } }
      (.buyer id) (.paid share b.toAny ctx.epoch paid.payout) n
      (n + paid.payout.toNat) := by
  obtain ⟨budget, hbudget, hterms⟩ := OrderTerms.drainBudget_ok h.drain_ok
  rw [hterms]
  exact .buyer (turns_put _ hget)
    (.pay hbudget (checkOrderNotExpired_ok h.not_expired))

end

theorem World.pay_paid {H : HashFn} {w w' : World} {c : PayCall}
    (h : w.pay H c = .ok w') :
    ∃ order e payout, w.Paid H c w' order e payout := by
  cases c with
  | submitShareForPay template order ids sub =>
      simp only [World.pay, bind_eq_ok, load_eq_ok, pure_eq_ok] at h
      obtain ⟨t, ht, b, hb, o, ho, paid, hpay, rfl⟩ := h
      obtain ⟨htid, hpaid⟩ := submitShareForPay_ok hpay
      exact ⟨b.toAny, _, paid.payout, {
        get := by simp [Orders.get, PayCall.order, hb]
        shares := rfl
        payment := rfl
        payout_eq := hpaid.payout_eq
        judged := ⟨_, job_direct ht, hpaid.difficulty_eq⟩
        rooted := ⟨b.templateId, htid, .inl rfl⟩
        moved := hpaid.moved_hashpower hb }⟩
  | submitShareForPayDerived derived order ids sub =>
      simp only [World.pay, bind_eq_ok, load_eq_ok, pure_eq_ok] at h
      obtain ⟨d, hd, b, hb, o, ho, paid, hpay, rfl⟩ := h
      obtain ⟨hpid, hpaid⟩ := submitShareForPayDerived_ok hpay
      exact ⟨b.toAny, _, paid.payout, {
        get := by simp [Orders.get, PayCall.order, hb]
        shares := rfl
        payment := rfl
        payout_eq := hpaid.payout_eq
        judged := ⟨_, job_derived hd, hpaid.difficulty_eq⟩
        rooted := ⟨b.templateId, ⟨d, hd, hpid⟩, .inl rfl⟩
        moved := hpaid.moved_hashpower hb }⟩
  | submitShareForBuyerPay template order ids sub =>
      simp only [World.pay, bind_eq_ok, load_eq_ok, pure_eq_ok] at h
      obtain ⟨t, ht, b, hb, o, ho, paid, hpay, rfl⟩ := h
      obtain ⟨howner, hpaid⟩ := submitShareForBuyerPay_ok hpay
      exact ⟨b.toAny, _, paid.payout, {
        get := by simp [Orders.get, PayCall.order, hb]
        shares := rfl
        payment := rfl
        payout_eq := hpaid.payout_eq
        judged := ⟨_, job_direct ht, hpaid.difficulty_eq⟩
        rooted := ⟨template, rfl, .inr ⟨rfl, t, ht, howner⟩⟩
        moved := hpaid.moved_buyer hb }⟩
  | submitShareForBuyerPayDerived derived parent order ids sub =>
      simp only [World.pay, bind_eq_ok, load_eq_ok, pure_eq_ok] at h
      obtain ⟨d, hd, p, hp, b, hb, o, ho, paid, hpay, rfl⟩ := h
      obtain ⟨hpid, howner, hpaid⟩ := submitShareForBuyerPayDerived_ok hpay
      exact ⟨b.toAny, _, paid.payout, {
        get := by simp [Orders.get, PayCall.order, hb]
        shares := rfl
        payment := rfl
        payout_eq := hpaid.payout_eq
        judged := ⟨_, job_derived hd, hpaid.difficulty_eq⟩
        rooted := ⟨parent, ⟨d, hd, hpid⟩, .inr ⟨rfl, p, hp, howner⟩⟩
        moved := hpaid.moved_buyer hb }⟩

-- ============================================================ other calls

section
variable {H : HashFn} {w w' : World} {c : Call}

/-- Only calls on the orders and pay lanes touch an order. -/
theorem World.exec_orders_eq (h : w.exec H c = .ok w')
    (horder : ∀ oc, c ≠ .order oc) (hpay : ∀ pc, c ≠ .pay pc) :
    w'.orders = w.orders := by
  cases c with
  | order oc => exact absurd rfl (horder oc)
  | pay pc => exact absurd rfl (hpay pc)
  | beginTx sender epoch ts =>
      simp only [World.exec, World.beginTx, bind_eq_ok, pure_eq_ok] at h
      obtain ⟨_, -, rfl⟩ := h
      rfl
  | transferAdminCap recipient =>
      simp only [World.exec, bind_eq_ok, pure_eq_ok] at h
      obtain ⟨_, -, rfl⟩ := h
      rfl
  | admin c =>
      simp only [World.exec, bind_eq_ok, pure_eq_ok] at h
      obtain ⟨_, -, mining, -, rfl⟩ := h
      rfl
  | mining c =>
      simp only [World.exec, bind_eq_ok, pure_eq_ok] at h
      obtain ⟨mining, -, rfl⟩ := h
      rfl
  | slotAdmin c =>
      simp only [World.exec, bind_eq_ok, pure_eq_ok] at h
      obtain ⟨_, -, slots, -, rfl⟩ := h
      rfl
  | slot c =>
      simp only [World.exec, bind_eq_ok, pure_eq_ok] at h
      obtain ⟨slots, -, rfl⟩ := h
      rfl
  | mintShare capId receiptId mrsId =>
      simp only [World.exec, World.mintShare, bind_eq_ok, load_eq_ok,
        pure_eq_ok] at h
      obtain ⟨cap, -, r, -, mrs, -, out, -, rfl⟩ := h
      rfl
  | hashiAdmin c =>
      simp only [World.exec, bind_eq_ok, pure_eq_ok] at h
      obtain ⟨_, -, hashi, -, rfl⟩ := h
      rfl
  | hashi c =>
      simp only [World.exec, bind_eq_ok, pure_eq_ok] at h
      obtain ⟨hashi, -, rfl⟩ := h
      rfl
  | recordBlockFound config claim txid vout amount =>
      simp only [World.exec, World.recordBlockFound, bind_eq_ok, load_eq_ok,
        pure_eq_ok] at h
      obtain ⟨_, -, c, -, ⟨config', record⟩, -, rfl⟩ := h
      rfl
  | openAndFundRoundBatch history record =>
      simp only [World.exec, World.openAndFundRoundBatch, bind_eq_ok,
        load_eq_ok, pure_eq_ok] at h
      obtain ⟨rh, -, r, -, out, -, rfl⟩ := h
      rfl
  | claimReward batch record history =>
      simp only [World.exec, World.claimReward, bind_eq_ok, load_eq_ok,
        pure_eq_ok] at h
      obtain ⟨b, -, r, -, rh, -, ⟨rewards, b', amount⟩, -, rfl⟩ := h
      rfl
  | openRedemption cap history record =>
      simp only [World.exec, World.openRedemption, bind_eq_ok, load_eq_ok,
        pure_eq_ok] at h
      obtain ⟨c, -, rh, -, r, -, out, -, rfl⟩ := h
      rfl
  | redeem redemption cap coin =>
      simp only [World.exec, World.redeem, bind_eq_ok, load_eq_ok,
        pure_eq_ok] at h
      obtain ⟨r, -, c, -, k, -, _, -, out, -, rfl⟩ := h
      rfl

def MiningEvent.isShare : MiningEvent → Bool
  | .share .. => true
  | _ => false

/-- Only an accepted share is paid for. -/
theorem Mining.Step.paidFrom_eq {ctx : TxContext} {m m' : Mining}
    {ev : MiningEvent} (hs : Mining.Step H ctx m ev m')
    (hev : ev.isShare = false) (ref : OrderRef) :
    m'.shares.sum (ShareEntry.paidFrom ref)
      = m.shares.sum (ShareEntry.paidFrom ref) := by
  cases hs with
  | share h => cases hev
  | @mint rid sid r mrs mrs' hr hs hok =>
      simp only [Mining.recordMint]
      split
      case h_1 => rfl
      case h_2 e he =>
        have hsum := sum_put he { e with mints := e.mints + 1 }
          (ShareEntry.paidFrom ref)
        exact Nat.add_right_cancel hsum
  | quiet | createRoundStats | closeRoundStats | createDedup | dropHashes
  | deleteDedup | clearReceipts | openAccumulator | skip | count | finalize
  | consume => rfl

/-- A call that submits no share, to the pool or to an order. -/
theorem Call.isShare_eq_false (hpay : ∀ pc, c ≠ .pay pc)
    (hsubmit : ∀ template ids sub, c ≠ .mining (.submitShare template ids sub))
    (ev : MiningEvent) (hev : ev ∈ c.events) : ev.isShare = false := by
  cases c with
  | pay pc => exact absurd rfl (hpay pc)
  | mining mc =>
      cases mc with
      | submitShare => exact absurd rfl (hsubmit _ _ _)
      | accumulateMinerStats acc sids =>
          obtain ⟨sid, -, rfl⟩ := List.mem_map.mp hev
          rfl
      | _ => rw [List.mem_singleton.mp hev]; rfl
  | beginTx | admin | mintShare | claimReward =>
      rw [List.mem_singleton.mp hev]
      rfl
  | _ => cases hev

/-- Submitted to the pool, a share is paid by no order. -/
theorem World.exec_submitShare {template : ID} {ids : ShareIds}
    {sub : Submission}
    (h : w.exec H (.mining (.submitShare template ids sub)) = .ok w') :
    ∃ e, w'.mining.shares = w.mining.shares.alloc e ∧ e.payment = none
      ∧ e.mints = 0 := by
  simp only [World.exec, Mining.exec, Mining.submitShare, bind_eq_ok,
    load_eq_ok, pure_eq_ok] at h
  obtain ⟨m', ⟨t, -, o, -, ⟨out, receipt⟩, -, rfl⟩, rfl⟩ := h
  exact ⟨_, rfl, rfl, rfl⟩

theorem World.exec_paidFrom_eq (h : w.exec H c = .ok w')
    (hpay : ∀ pc, c ≠ .pay pc) (ref : OrderRef) :
    w'.mining.shares.sum (ShareEntry.paidFrom ref)
      = w.mining.shares.sum (ShareEntry.paidFrom ref) := by
  by_cases hsubmit : ∃ template ids sub,
      c = .mining (.submitShare template ids sub)
  · obtain ⟨template, ids, sub, rfl⟩ := hsubmit
    obtain ⟨e, hshares, hnone, -⟩ := World.exec_submitShare h
    rw [hshares, sum_alloc, ShareEntry.paidFrom, hnone, Nat.add_zero]
  · exact (World.exec_mining h).preserves_of
      (P := fun m => m.shares.sum (ShareEntry.paidFrom ref)
        = w.mining.shares.sum (ShareEntry.paidFrom ref))
      (fun _ _ _ hev heq hs => (hs.paidFrom_eq hev ref).trans heq)
      (Call.isShare_eq_false hpay
        fun t ids sub heq => hsubmit ⟨t, ids, sub, heq⟩) rfl

/-- A share an order paid for was there before a call that is no
payment. -/
theorem World.exec_paid_from (h : w.exec H c = .ok w')
    (hpay : ∀ pc, c ≠ .pay pc) {i : ID} {e : ShareEntry}
    (hi : w'.mining.shares.get i = some e) (hpaid : e.payment ≠ none) :
    ∃ e₀, w.mining.shares.get i = some e₀ ∧ e₀.payment = e.payment := by
  by_cases hsubmit : ∃ template ids sub,
      c = .mining (.submitShare template ids sub)
  · obtain ⟨template, ids, sub, rfl⟩ := hsubmit
    obtain ⟨e', hshares, hnone, -⟩ := World.exec_submitShare h
    rw [hshares] at hi
    rcases get_alloc_eq_some hi with ⟨-, rfl⟩ | hi
    · exact absurd hnone hpaid
    · exact ⟨e, hi, rfl⟩
  · refine (World.exec_mining h).preserves_of
      (P := fun m => ∀ i e, m.shares.get i = some e →
        ∃ e₀, w.mining.shares.get i = some e₀ ∧ e₀.payment = e.payment)
      ?_ (Call.isShare_eq_false hpay
        fun t ids sub heq => hsubmit ⟨t, ids, sub, heq⟩)
      (fun i e hi => ⟨e, hi, rfl⟩) i e hi
    intro m ev m' hev hold hs i e hi
    rcases hs.share_from hi with ⟨e₀, hi₀, heq, -⟩ | ⟨_, _, _, _, _, _, _, _,
        rfl, -⟩
    · rw [heq]
      exact hold i e₀ hi₀
    · cases hev

end

-- ============================================================ the journal

/-- Every order, in every run, goes by `OrderStep`. -/
def orderJournal (H : HashFn) (publisher : Address) :
    (contract H publisher).Journal OrderRef OrderMove OrderView where
  view := World.orderView
  post w c w' := c.post w w'
  Move _ := OrderStep
  quiet := by
    intro w c w' hs hpost
    funext ref
    have hpay : ∀ pc, c ≠ .pay pc := by
      rintro pc rfl
      obtain ⟨order, e, payout, hpaid⟩ := World.pay_paid hs
      simp [Call.post, PayCall.post, hpaid.get, hpaid.shares, hpaid.payment]
        at hpost
    have horder : ∀ oc, c ≠ .order oc := by
      rintro oc rfl
      simp only [contract, World.exec, bind_eq_ok, pure_eq_ok] at hs
      obtain ⟨o', hexec, rfl⟩ := hs
      obtain ⟨ref, mv, hmove, -⟩ := Orders.exec_moves hexec
      exact absurd (hmove.symm.trans hpost) nofun
    unfold World.orderView
    rw [World.exec_orders_eq hs horder hpay]
    simp only [World.exec_paidFrom_eq hs hpay]
  moved := by
    intro w c w' ref mv hs hpost
    cases c with
    | order oc =>
        simp only [contract, World.exec, bind_eq_ok, pure_eq_ok] at hs
        obtain ⟨o', hexec, rfl⟩ := hs
        obtain ⟨ref', mv', hmove, hmoved, -⟩ := Orders.exec_moves hexec
        cases hmove.symm.trans hpost
        refine ⟨(hmoved _).step, fun r hr => ?_⟩
        unfold World.orderView
        rw [(hmoved 0).others r hr]
    | pay pc =>
        obtain ⟨order, e, payout, hpaid⟩ := World.pay_paid hs
        have hmv : some (pc.order, OrderMove.paid w.mining.shares.next order
            w.ctx.epoch payout) = some (ref, mv) := by
          rw [← hpost]
          simp [Call.post, PayCall.post, hpaid.get, hpaid.shares,
            hpaid.payment]
        cases hmv
        have hfrom : ∀ r, e.paidFrom r
            = if pc.order = r then payout.toNat else 0 := fun r => by
          simp [ShareEntry.paidFrom, hpaid.payment]
        refine ⟨?_, fun r hr => ?_⟩
        · have hstep := (hpaid.moved (w.mining.shares.sum
            (ShareEntry.paidFrom pc.order))).step
          unfold World.orderView
          rw [hpaid.shares, sum_alloc, hfrom, if_pos rfl]
          exact hstep
        · unfold World.orderView
          rw [(hpaid.moved 0).others r hr, hpaid.shares, sum_alloc, hfrom,
            if_neg (Ne.symm hr), Nat.add_zero]
    | _ => cases hpost

end M1n3Protocol
