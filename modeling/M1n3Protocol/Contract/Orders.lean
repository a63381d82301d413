/-
`pool.move`, the buyer lanes: orders for hashpower and the four submit
functions that pay a share out of one.

# Two kinds of order, one set of terms

A `HashpowerBuyOrder` is pinned to a template id, a
`BuyerHashpowerOrder` to its buyer's identity. Everything else, price,
budget, expiry and the calls on them, is written out twice in the source
and once here, on the `OrderTerms` both carry.

The quote coin is a phantom type: payments, budgets and payouts are its
amounts.
-/
import M1n3Protocol.Contract.Share

namespace M1n3Protocol

open Checked

structure OrderTerms where
  buyer : Address
  pricePerDifficulty : U64
  budget : U64
  expiresEpoch : Option U64
  isDynamic : Bool

structure HashpowerBuyOrder extends OrderTerms where
  templateId : ID

structure BuyerHashpowerOrder extends OrderTerms

-- ================================================================= terms

def OrderTerms.place (payment price : U64) (expiresEpoch : Option U64)
    (isDynamic : Bool) (ctx : TxContext) : Except Abort OrderTerms := do
  require (0 < price) (.pool .EZeroPrice)
  return { buyer := ctx.sender, pricePerDifficulty := price,
           budget := payment, expiresEpoch, isDynamic }

def OrderTerms.updatePrice (t : OrderTerms) (newPrice : U64)
    (ctx : TxContext) : Except Abort OrderTerms := do
  require (t.buyer = ctx.sender) (.pool .ENotHashpowerBuyOrderOwner)
  require (t.isDynamic = true) (.pool .EOrderNotDynamic)
  require (0 < newPrice) (.pool .EZeroPrice)
  return { t with pricePerDifficulty := newPrice }

def OrderTerms.topUp (t : OrderTerms) (payment : U64) :
    Except Abort OrderTerms := do
  let budget ← addU t.budget payment
  return { t with budget }

/-- The refund; the order is deleted. -/
def OrderTerms.cancel (t : OrderTerms) (ctx : TxContext) :
    Except Abort U64 := do
  require (t.buyer = ctx.sender) (.pool .ENotHashpowerBuyOrderOwner)
  return t.budget

def checkOrderNotExpired (expiresEpoch : Option U64) (ctx : TxContext) :
    Except Abort Unit :=
  match expiresEpoch with
  | none => pure ()
  | some cutoff =>
      require (ctx.epoch ≤ cutoff) (.pool .EHashpowerOrderExpired)

/-- The exact product, saturated at the largest `u64`. -/
def computePayout (difficulty pricePerDifficulty : U64) : U64 :=
  let p128 : U128 := difficulty.setWidth 128 * pricePerDifficulty.setWidth 128
  if 18_446_744_073_709_551_615 < p128 then 18_446_744_073_709_551_615
  else p128.setWidth 64

def OrderTerms.drainBudget (t : OrderTerms) (amount : U64) :
    Except Abort OrderTerms := do
  require (amount ≤ t.budget) (.pool .EInsufficientHashpowerBudget)
  let budget ← subU t.budget amount
  return { t with budget }

-- ============================================================= lifecycle

def placeHashpowerOrder (parentId : ID) (parent : Template)
    (payment price : U64) (expiresEpoch : Option U64) (isDynamic : Bool)
    (ctx : TxContext) : Except Abort HashpowerBuyOrder := do
  require (parent.owner = ctx.sender) (.pool .ENotHashpowerBuyOrderOwner)
  let terms ← OrderTerms.place payment price expiresEpoch isDynamic ctx
  return { toOrderTerms := terms, templateId := parentId }

def updateHashpowerOrderPrice (order : HashpowerBuyOrder) (newPrice : U64)
    (ctx : TxContext) : Except Abort HashpowerBuyOrder := do
  let terms ← order.updatePrice newPrice ctx
  return { order with toOrderTerms := terms }

def topUpHashpowerOrder (order : HashpowerBuyOrder) (payment : U64) :
    Except Abort HashpowerBuyOrder := do
  let terms ← order.topUp payment
  return { order with toOrderTerms := terms }

def cancelHashpowerOrder (order : HashpowerBuyOrder) (ctx : TxContext) :
    Except Abort U64 :=
  order.cancel ctx

def placeBuyerOrder (payment price : U64) (expiresEpoch : Option U64)
    (isDynamic : Bool) (ctx : TxContext) :
    Except Abort BuyerHashpowerOrder := do
  let terms ← OrderTerms.place payment price expiresEpoch isDynamic ctx
  return { toOrderTerms := terms }

def updateBuyerOrderPrice (order : BuyerHashpowerOrder) (newPrice : U64)
    (ctx : TxContext) : Except Abort BuyerHashpowerOrder := do
  let terms ← order.updatePrice newPrice ctx
  return { toOrderTerms := terms }

def topUpBuyerOrder (order : BuyerHashpowerOrder) (payment : U64) :
    Except Abort BuyerHashpowerOrder := do
  let terms ← order.topUp payment
  return { toOrderTerms := terms }

def cancelBuyerOrder (order : BuyerHashpowerOrder) (ctx : TxContext) :
    Except Abort U64 :=
  order.cancel ctx

-- ============================================================== payment

/-- A paid share: what its submission leaves behind, the order's terms
after the drain, and the coin handed out. -/
structure PaidOutcome where
  outcome : ShareOutcome
  terms : OrderTerms
  payout : U64

/-- The payment half of a pay lane: drain the payout from the terms and
freeze the claim under the round `claimRound`. -/
def payShare (terms : OrderTerms) (objects : MinerObjects)
    (share : Validated) (claimRound height : U64) :
    Except Abort PaidOutcome := do
  let payout := computePayout share.difficulty terms.pricePerDifficulty
  let terms' ← terms.drainBudget payout
  let claim := maybeFreezeBlockClaim share.isBlock claimRound height
    share.sender share.shareHash share.now
  return ⟨⟨objects, share, claim⟩, terms', payout⟩

def submitShareForPay (H : HashFn) (templateId : ID) (template : Template)
    (order : HashpowerBuyOrder) (o : MinerObjects) (sub : Submission)
    (ctx : TxContext) : Except Abort PaidOutcome := do
  require (templateId = order.templateId) (.pool .EBuyOrderTemplateMismatch)
  checkOrderNotExpired order.expiresEpoch ctx
  let (objects, share) ← validateShareAgainstTemplate H template o sub ctx
  payShare order.toOrderTerms objects share template.roundId template.height

/-- Round 0 is the sentinel the derived lanes tag their claims with. -/
def submitShareForPayDerived (H : HashFn) (derived : DerivedTemplate)
    (order : HashpowerBuyOrder) (o : MinerObjects) (sub : Submission)
    (ctx : TxContext) : Except Abort PaidOutcome := do
  require (derived.parentTemplateId = order.templateId)
    (.pool .EBuyOrderTemplateMismatch)
  checkOrderNotExpired order.expiresEpoch ctx
  let (objects, share) ← validateShareAgainstDerived H derived o sub ctx
  payShare order.toOrderTerms objects share 0 derived.height

def submitShareForBuyerPay (H : HashFn) (template : Template)
    (order : BuyerHashpowerOrder) (o : MinerObjects) (sub : Submission)
    (ctx : TxContext) : Except Abort PaidOutcome := do
  require (template.owner = order.buyer)
    (.pool .EBuyerOrderTemplateOwnerMismatch)
  checkOrderNotExpired order.expiresEpoch ctx
  let (objects, share) ← validateShareAgainstTemplate H template o sub ctx
  payShare order.toOrderTerms objects share template.roundId template.height

def submitShareForBuyerPayDerived (H : HashFn) (derived : DerivedTemplate)
    (parentId : ID) (parent : Template) (order : BuyerHashpowerOrder)
    (o : MinerObjects) (sub : Submission) (ctx : TxContext) :
    Except Abort PaidOutcome := do
  require (derived.parentTemplateId = parentId)
    (.pool .EBuyOrderTemplateMismatch)
  require (parent.owner = order.buyer)
    (.pool .EBuyerOrderTemplateOwnerMismatch)
  checkOrderNotExpired order.expiresEpoch ctx
  let (objects, share) ← validateShareAgainstDerived H derived o sub ctx
  payShare order.toOrderTerms objects share 0 derived.height

-- ======================================================= what they do

theorem OrderTerms.place_ok {payment price : U64} {expiresEpoch : Option U64}
    {isDynamic : Bool} {ctx : TxContext} {t : OrderTerms}
    (hok : OrderTerms.place payment price expiresEpoch isDynamic ctx
      = .ok t) :
    0 < price ∧ t = ⟨ctx.sender, price, payment, expiresEpoch, isDynamic⟩ := by
  simp only [OrderTerms.place, bind_eq_ok, require_eq_ok, pure_eq_ok] at hok
  obtain ⟨-, hprice, heq⟩ := hok
  exact ⟨hprice, heq.symm⟩

theorem OrderTerms.updatePrice_ok {t t' : OrderTerms} {newPrice : U64}
    {ctx : TxContext} (hok : t.updatePrice newPrice ctx = .ok t') :
    t.buyer = ctx.sender ∧ t.isDynamic = true ∧ 0 < newPrice
      ∧ t' = { t with pricePerDifficulty := newPrice } := by
  simp only [OrderTerms.updatePrice, bind_eq_ok, require_eq_ok, pure_eq_ok]
    at hok
  obtain ⟨-, hbuyer, -, hdynamic, -, hprice, heq⟩ := hok
  exact ⟨hbuyer, hdynamic, hprice, heq.symm⟩

theorem OrderTerms.topUp_ok {t t' : OrderTerms} {payment : U64}
    (hok : t.topUp payment = .ok t') :
    ∃ budget : U64, budget.toNat = t.budget.toNat + payment.toNat
      ∧ t' = { t with budget } := by
  simp only [OrderTerms.topUp, addU, bind_eq_ok, pure_eq_ok, add_eq_ok]
    at hok
  obtain ⟨budget, hbudget, heq⟩ := hok
  exact ⟨budget, hbudget, heq.symm⟩

theorem OrderTerms.cancel_ok {t : OrderTerms} {ctx : TxContext}
    {refund : U64} (hok : t.cancel ctx = .ok refund) :
    t.buyer = ctx.sender ∧ refund = t.budget := by
  simp only [OrderTerms.cancel, bind_eq_ok, require_eq_ok, pure_eq_ok] at hok
  obtain ⟨-, hbuyer, heq⟩ := hok
  exact ⟨hbuyer, heq.symm⟩

theorem OrderTerms.drainBudget_ok {t t' : OrderTerms} {amount : U64}
    (hok : t.drainBudget amount = .ok t') :
    ∃ budget : U64, budget.toNat + amount.toNat = t.budget.toNat
      ∧ t' = { t with budget } := by
  simp only [OrderTerms.drainBudget, subU, bind_eq_ok, require_eq_ok,
    pure_eq_ok, sub_eq_ok] at hok
  obtain ⟨-, -, budget, hbudget, heq⟩ := hok
  exact ⟨budget, hbudget, heq.symm⟩

theorem checkOrderNotExpired_ok {expiresEpoch : Option U64} {ctx : TxContext}
    (hok : checkOrderNotExpired expiresEpoch ctx = .ok ()) :
    ∀ cutoff, expiresEpoch = some cutoff → ctx.epoch ≤ cutoff := by
  rintro cutoff rfl
  exact require_eq_ok.mp hok

theorem payShare_ok {terms : OrderTerms} {o : MinerObjects} {v : Validated}
    {r h : U64} {paid : PaidOutcome}
    (hok : payShare terms o v r h = .ok paid) :
    paid.outcome.objects = o ∧ paid.outcome.share = v
      ∧ paid.outcome.claim = maybeFreezeBlockClaim v.isBlock r h v.sender
          v.shareHash v.now
      ∧ paid.payout = computePayout v.difficulty terms.pricePerDifficulty
      ∧ terms.drainBudget paid.payout = .ok paid.terms := by
  simp only [payShare, bind_eq_ok, pure_eq_ok] at hok
  obtain ⟨terms', hdrain, heq⟩ := hok
  subst heq
  exact ⟨rfl, rfl, rfl, rfl, hdrain⟩

/-- What every pay lane on a job establishes: the share passed the shared
validation under `recordRound`, and was paid from `terms`. -/
structure PaidBy (H : HashFn) (job : Job) (recordRound claimRound : U64)
    (terms : OrderTerms) (o : MinerObjects) (sub : Submission)
    (ctx : TxContext) (paid : PaidOutcome) : Prop where
  accepted : Accepted H job recordRound o sub ctx paid.outcome.objects
    paid.outcome.share
  claim_eq : paid.outcome.claim = maybeFreezeBlockClaim
    paid.outcome.share.isBlock claimRound job.height paid.outcome.share.sender
    paid.outcome.share.shareHash paid.outcome.share.now
  payout_eq : paid.payout
    = computePayout paid.outcome.share.difficulty terms.pricePerDifficulty
  drain_ok : terms.drainBudget paid.payout = .ok paid.terms
  not_expired : checkOrderNotExpired terms.expiresEpoch ctx = .ok ()

/-- The common tail of the four lanes. -/
theorem paidBy_of_validate {H : HashFn} {job : Job} {r c : U64}
    {terms : OrderTerms} {o o' : MinerObjects} {sub : Submission}
    {ctx : TxContext} {v : Validated} {paid : PaidOutcome}
    (hexp : checkOrderNotExpired terms.expiresEpoch ctx = .ok ())
    (hval : validateShare H job r o sub ctx = .ok (o', v))
    (hpay : payShare terms o' v c job.height = .ok paid) :
    PaidBy H job r c terms o sub ctx paid := by
  obtain ⟨ho, hv, hclaim, hpayout, hdrain⟩ := payShare_ok hpay
  have hacc := validateShare_ok hval
  rw [← ho, ← hv] at hacc
  rw [← hv] at hclaim hpayout
  exact ⟨hacc, hclaim, hpayout, hdrain, hexp⟩

theorem submitShareForPay_ok {H : HashFn} {tid : ID} {t : Template}
    {order : HashpowerBuyOrder} {o : MinerObjects} {sub : Submission}
    {ctx : TxContext} {paid : PaidOutcome}
    (hok : submitShareForPay H tid t order o sub ctx = .ok paid) :
    tid = order.templateId
      ∧ PaidBy H t.job t.roundId t.roundId order.toOrderTerms o sub ctx
          paid := by
  simp only [submitShareForPay, bind_eq_ok, require_eq_ok] at hok
  obtain ⟨-, htid, _, hexp, ⟨o', v⟩, hval, hpay⟩ := hok
  exact ⟨htid, paidBy_of_validate hexp hval hpay⟩

theorem submitShareForPayDerived_ok {H : HashFn} {d : DerivedTemplate}
    {order : HashpowerBuyOrder} {o : MinerObjects} {sub : Submission}
    {ctx : TxContext} {paid : PaidOutcome}
    (hok : submitShareForPayDerived H d order o sub ctx = .ok paid) :
    d.parentTemplateId = order.templateId
      ∧ PaidBy H d.job o.round.roundId 0 order.toOrderTerms o sub ctx
          paid := by
  simp only [submitShareForPayDerived, bind_eq_ok, require_eq_ok] at hok
  obtain ⟨-, hpid, _, hexp, ⟨o', v⟩, hval, hpay⟩ := hok
  exact ⟨hpid, paidBy_of_validate hexp hval hpay⟩

theorem submitShareForBuyerPay_ok {H : HashFn} {t : Template}
    {order : BuyerHashpowerOrder} {o : MinerObjects} {sub : Submission}
    {ctx : TxContext} {paid : PaidOutcome}
    (hok : submitShareForBuyerPay H t order o sub ctx = .ok paid) :
    t.owner = order.buyer
      ∧ PaidBy H t.job t.roundId t.roundId order.toOrderTerms o sub ctx
          paid := by
  simp only [submitShareForBuyerPay, bind_eq_ok, require_eq_ok] at hok
  obtain ⟨-, howner, _, hexp, ⟨o', v⟩, hval, hpay⟩ := hok
  exact ⟨howner, paidBy_of_validate hexp hval hpay⟩

theorem submitShareForBuyerPayDerived_ok {H : HashFn} {d : DerivedTemplate}
    {pid : ID} {parent : Template} {order : BuyerHashpowerOrder}
    {o : MinerObjects} {sub : Submission} {ctx : TxContext}
    {paid : PaidOutcome}
    (hok : submitShareForBuyerPayDerived H d pid parent order o sub ctx
      = .ok paid) :
    d.parentTemplateId = pid ∧ parent.owner = order.buyer
      ∧ PaidBy H d.job o.round.roundId 0 order.toOrderTerms o sub ctx
          paid := by
  simp only [submitShareForBuyerPayDerived, bind_eq_ok, require_eq_ok] at hok
  obtain ⟨-, hpid, -, howner, _, hexp, ⟨o', v⟩, hval, hpay⟩ := hok
  exact ⟨hpid, howner, paidBy_of_validate hexp hval hpay⟩

-- ==================================================== the five functions

/-- A submission that one of the five submit functions accepted on a job,
and what it left behind. -/
inductive SubmittedOn (H : HashFn) : Job → Submission → ShareOutcome → Prop
  | share {t : Template} {o : MinerObjects} {sub : Submission}
      {ctx : TxContext} {out : ShareOutcome} {receipt : ShareReceipt}
      (hok : submitShare H t o sub ctx = .ok (out, receipt)) :
      SubmittedOn H t.job sub out
  | pay {tid : ID} {t : Template} {order : HashpowerBuyOrder}
      {o : MinerObjects} {sub : Submission} {ctx : TxContext}
      {paid : PaidOutcome}
      (hok : submitShareForPay H tid t order o sub ctx = .ok paid) :
      SubmittedOn H t.job sub paid.outcome
  | payDerived {d : DerivedTemplate} {order : HashpowerBuyOrder}
      {o : MinerObjects} {sub : Submission} {ctx : TxContext}
      {paid : PaidOutcome}
      (hok : submitShareForPayDerived H d order o sub ctx = .ok paid) :
      SubmittedOn H d.job sub paid.outcome
  | buyerPay {t : Template} {order : BuyerHashpowerOrder}
      {o : MinerObjects} {sub : Submission} {ctx : TxContext}
      {paid : PaidOutcome}
      (hok : submitShareForBuyerPay H t order o sub ctx = .ok paid) :
      SubmittedOn H t.job sub paid.outcome
  | buyerPayDerived {d : DerivedTemplate} {pid : ID} {parent : Template}
      {order : BuyerHashpowerOrder} {o : MinerObjects} {sub : Submission}
      {ctx : TxContext} {paid : PaidOutcome}
      (hok : submitShareForBuyerPayDerived H d pid parent order o sub ctx
        = .ok paid) :
      SubmittedOn H d.job sub paid.outcome

/-- Whichever function it was, the share passed the shared validation and
its claim carries its hash. -/
theorem SubmittedOn.validated {H : HashFn} {job : Job} {sub : Submission}
    {out : ShareOutcome} (h : SubmittedOn H job sub out) :
    (∃ r o ctx, Accepted H job r o sub ctx out.objects out.share)
      ∧ ∀ claim, out.claim = some claim →
        claim.shareHash = out.share.shareHash := by
  have hclaim : ∀ {c r height : U64} {finder : Address} {now : U64}
      {isBlock : Bool} {hash : Bytes}, out.claim
        = maybeFreezeBlockClaim isBlock r height finder hash now →
      ∀ claim, out.claim = some claim → claim.shareHash = hash := by
    intro c r height finder now isBlock hash heq claim hsome
    rw [hsome] at heq
    unfold maybeFreezeBlockClaim at heq
    split at heq
    case isTrue => cases heq; rfl
    case isFalse => cases heq
  cases h with
  | share hok =>
      obtain ⟨hacc, heq, -⟩ := submitShare_ok hok
      exact ⟨⟨_, _, _, hacc⟩, hclaim (c := 0) heq⟩
  | pay hok =>
      obtain ⟨-, hpaid⟩ := submitShareForPay_ok hok
      exact ⟨⟨_, _, _, hpaid.accepted⟩, hclaim (c := 0) hpaid.claim_eq⟩
  | payDerived hok =>
      obtain ⟨-, hpaid⟩ := submitShareForPayDerived_ok hok
      exact ⟨⟨_, _, _, hpaid.accepted⟩, hclaim (c := 0) hpaid.claim_eq⟩
  | buyerPay hok =>
      obtain ⟨-, hpaid⟩ := submitShareForBuyerPay_ok hok
      exact ⟨⟨_, _, _, hpaid.accepted⟩, hclaim (c := 0) hpaid.claim_eq⟩
  | buyerPayDerived hok =>
      obtain ⟨-, -, hpaid⟩ := submitShareForBuyerPayDerived_ok hok
      exact ⟨⟨_, _, _, hpaid.accepted⟩, hclaim (c := 0) hpaid.claim_eq⟩

end M1n3Protocol
