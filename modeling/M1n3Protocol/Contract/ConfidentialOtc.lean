/-
`m1n3_confidential_otc.move`: a coin in escrow for one named buyer at one
named price, and the two ways out.

# Type parameters

An `Escrow<DeliverableT, PayT>` holds a coin of its first type and is paid
in its second. The first is the type of the coin inside; `payT` names the
second. A call is typed by the escrow it is on, so a payment in another
coin is no call at all.

# What a call sends

`settle` and `cancel` hand the deliverable to their caller, who alone can
use it in the rest of the transaction: it is sent to the sender here, with
the coins the source sends itself, in order.
-/
import M1n3Protocol.Contract.Coin

namespace M1n3Protocol.Otc

open Checked

/-- The module's own errors, then the framework's and the runtime's. -/
inductive Abort
  | ENotBuyer
  | ENotSeller
  | EZeroAmount
  | EInsufficientPayment
  | notEnough
  | arithmetic
  | noSuchObject
  | notOwner
  | typeMismatch
  deriving DecidableEq, Repr

structure Escrow where
  deliverable : Coin
  payT : ID
  seller : Address
  buyer : Address
  payAmount : U64
  memo : Bytes
  deriving DecidableEq

/-- A coin handed to an address. -/
structure Sent where
  coin : Coin
  recipient : Address
  deriving DecidableEq

inductive Event
  | escrowOpened (seller buyer : Address) (deliverableAmount payAmount : U64)
      (memo : Bytes)
  | escrowSettled (seller buyer : Address) (deliverableAmount payAmount : U64)
  | escrowCancelled (seller : Address)
  deriving DecidableEq

/-- What a call on an escrow did, as far as others can tell. -/
structure Move where
  event : Event
  sent : List Sent
  deriving DecidableEq

-- ================================================================ calls

def lockEscrow (deliverable : Coin) (payT : ID) (buyer : Address)
    (payAmount : U64) (memo : Bytes) (ctx : TxContext) :
    Except Abort (Escrow × Move) := do
  require (0 < deliverable.value) .EZeroAmount
  require (0 < payAmount) .EZeroAmount
  return ({ deliverable, payT, seller := ctx.sender, buyer, payAmount, memo },
    { event := .escrowOpened ctx.sender buyer deliverable.value payAmount memo
      sent := [] })

/-- A change of zero is destroyed, not sent. -/
def settle (escrow : Escrow) (payment : Coin) (ctx : TxContext) :
    Except Abort Move := do
  require (payment.capId = escrow.payT) .typeMismatch
  require (ctx.sender = escrow.buyer) .ENotBuyer
  require (escrow.payAmount ≤ payment.value) .EInsufficientPayment
  let rest ← sub .notEnough payment.value escrow.payAmount
  return {
    event := .escrowSettled escrow.seller escrow.buyer
      escrow.deliverable.value escrow.payAmount
    sent := [⟨⟨escrow.payT, escrow.payAmount⟩, escrow.seller⟩]
      ++ (if 0 < rest then [⟨⟨escrow.payT, rest⟩, ctx.sender⟩] else [])
      ++ [⟨escrow.deliverable, ctx.sender⟩] }

def cancel (escrow : Escrow) (ctx : TxContext) : Except Abort Move := do
  require (ctx.sender = escrow.seller) .ENotSeller
  return { event := .escrowCancelled escrow.seller
           sent := [⟨escrow.deliverable, ctx.sender⟩] }

-- ======================================================= what they do

/-- How much of a coin type a coin is worth. -/
def amountOf (coinT : ID) (coin : Coin) : Nat :=
  if coin.capId = coinT then coin.value.toNat else 0

/-- How much of it these coins are worth. -/
def sentOf (coinT : ID) (sent : List Sent) : Nat :=
  (sent.map fun t => amountOf coinT t.coin).sum

/-- How much of it goes to one address. -/
def sentTo (who : Address) (coinT : ID) (sent : List Sent) : Nat :=
  sentOf coinT (sent.filter fun t => t.recipient = who)

@[simp] theorem sentOf_nil (coinT : ID) : sentOf coinT [] = 0 := rfl

@[simp] theorem sentOf_cons (coinT : ID) (t : Sent) (sent : List Sent) :
    sentOf coinT (t :: sent) = amountOf coinT t.coin + sentOf coinT sent := by
  simp [sentOf]

theorem sentOf_append (coinT : ID) (xs ys : List Sent) :
    sentOf coinT (xs ++ ys) = sentOf coinT xs + sentOf coinT ys := by
  simp [sentOf]

/-- Cutting a coin in two, or joining two of one type. -/
theorem amountOf_add {w a b : Coin} (ha : a.capId = w.capId)
    (hb : b.capId = w.capId)
    (hvalue : a.value.toNat + b.value.toNat = w.value.toNat) (coinT : ID) :
    amountOf coinT a + amountOf coinT b = amountOf coinT w := by
  unfold amountOf
  rw [ha, hb]
  split
  · exact hvalue
  · rfl

@[simp] theorem sentTo_nil (who : Address) (coinT : ID) :
    sentTo who coinT [] = 0 := rfl

@[simp] theorem sentTo_cons (who : Address) (coinT : ID) (t : Sent)
    (sent : List Sent) :
    sentTo who coinT (t :: sent)
      = (if t.recipient = who then amountOf coinT t.coin else 0)
        + sentTo who coinT sent := by
  unfold sentTo
  by_cases hwho : t.recipient = who
  · simp [hwho]
  · simp [hwho]

/-- The terms of a settlement: who settled, what the seller got, and that
the payment and the deliverable both arrived whole. -/
structure Settled (escrow : Escrow) (payment : Coin) (sender : Address)
    (sent : List Sent) : Prop where
  typed : payment.capId = escrow.payT
  by_buyer : sender = escrow.buyer
  enough : escrow.payAmount.toNat ≤ payment.value.toNat
  price : ⟨⟨escrow.payT, escrow.payAmount⟩, escrow.seller⟩ ∈ sent
  delivered : ⟨escrow.deliverable, escrow.buyer⟩ ∈ sent
  parties : ∀ t ∈ sent, t.recipient = escrow.seller ∨ t.recipient = escrow.buyer
  total : ∀ coinT, sentOf coinT sent
    = amountOf coinT payment + amountOf coinT escrow.deliverable

variable {escrow : Escrow} {payment : Coin} {ctx : TxContext} {move : Move}

/-- A settlement succeeds exactly for the buyer, with enough of the right
coin. -/
theorem settle_succeeds_iff :
    (∃ move, settle escrow payment ctx = .ok move)
      ↔ payment.capId = escrow.payT ∧ ctx.sender = escrow.buyer
        ∧ escrow.payAmount.toNat ≤ payment.value.toNat := by
  simp only [settle, bind_eq_ok, require_eq_ok, pure_eq_ok, BitVec.le_def]
  constructor
  · rintro ⟨_, -, htype, -, hbuyer, -, hle, -⟩
    exact ⟨htype, hbuyer, hle⟩
  · rintro ⟨htype, hbuyer, hle⟩
    obtain ⟨rest, hrest, -⟩ := sub_of_le Abort.notEnough hle
    exact ⟨_, (), htype, (), hbuyer, (), hle, rest, hrest, rfl⟩

theorem settle_ok (h : settle escrow payment ctx = .ok move) :
    Settled escrow payment ctx.sender move.sent
      ∧ move.event = .escrowSettled escrow.seller escrow.buyer
          escrow.deliverable.value escrow.payAmount := by
  obtain ⟨htype, hbuyer, hle⟩ := settle_succeeds_iff.mp ⟨move, h⟩
  simp only [settle, bind_eq_ok, require_eq_ok, pure_eq_ok, sub_eq_ok] at h
  obtain ⟨-, -, -, -, -, -, rest, hrest, rfl⟩ := h
  refine ⟨⟨htype, hbuyer, hle, ?_, ?_, ?_, ?_⟩, rfl⟩
  · simp
  · simp [hbuyer]
  · intro t ht
    rw [← hbuyer]
    split at ht
    · simp only [List.mem_append, List.mem_singleton] at ht
      rcases ht with (rfl | rfl) | rfl <;> simp
    · simp only [List.mem_append, List.mem_singleton, List.not_mem_nil,
        or_false] at ht
      rcases ht with rfl | rfl <;> simp
  · intro coinT
    -- the change is what was paid beyond the price, sent or destroyed
    have hchange : sentOf coinT
        (if 0 < rest then [⟨⟨escrow.payT, rest⟩, ctx.sender⟩] else [])
          = amountOf coinT ⟨escrow.payT, rest⟩ := by
      split
      · simp
      · case isFalse hzero =>
          have : rest = 0 := by simpa using hzero
          simp [this, amountOf]
    have hpaid := amountOf_add (w := payment)
      (a := ⟨escrow.payT, rest⟩) (b := ⟨escrow.payT, escrow.payAmount⟩)
      htype.symm htype.symm hrest coinT
    rw [sentOf_append, sentOf_append, hchange]
    simp only [sentOf_cons, sentOf_nil]
    omega

/-- Of a settlement, someone who is not the buyer gets the price if he is
the seller, and nothing else. -/
theorem settle_sentTo (h : settle escrow payment ctx = .ok move)
    {who : Address} (hwho : ctx.sender ≠ who) (coinT : ID) :
    sentTo who coinT move.sent
      = if escrow.seller = who ∧ escrow.payT = coinT
        then escrow.payAmount.toNat else 0 := by
  simp only [settle, bind_eq_ok, require_eq_ok, pure_eq_ok] at h
  obtain ⟨-, -, -, -, -, -, rest, -, rfl⟩ := h
  have hchange : (if 0 < rest
      then [(⟨⟨escrow.payT, rest⟩, ctx.sender⟩ : Sent)] else []).filter
        (fun t => t.recipient = who) = [] := by
    split
    · simp [hwho]
    · rfl
  unfold sentTo
  rw [List.filter_append, List.filter_append, hchange]
  by_cases hseller : escrow.seller = who
  · simp [hseller, hwho, amountOf]
  · simp [hseller, hwho]

theorem lockEscrow_eq_ok {deliverable : Coin} {payT : ID} {buyer : Address}
    {payAmount : U64} {memo : Bytes} :
    lockEscrow deliverable payT buyer payAmount memo ctx = .ok (escrow, move)
      ↔ 0 < deliverable.value.toNat ∧ 0 < payAmount.toNat
        ∧ escrow = ⟨deliverable, payT, ctx.sender, buyer, payAmount, memo⟩
        ∧ move = ⟨.escrowOpened ctx.sender buyer deliverable.value payAmount
            memo, []⟩ := by
  simp only [lockEscrow, bind_eq_ok, require_eq_ok, pure_eq_ok, BitVec.lt_def,
    Prod.mk.injEq]
  constructor
  · rintro ⟨-, hvalue, -, hprice, rfl, rfl⟩
    exact ⟨hvalue, hprice, rfl, rfl⟩
  · rintro ⟨hvalue, hprice, rfl, rfl⟩
    exact ⟨(), hvalue, (), hprice, rfl, rfl⟩

theorem cancel_eq_ok :
    cancel escrow ctx = .ok move
      ↔ ctx.sender = escrow.seller
        ∧ move = ⟨.escrowCancelled escrow.seller,
            [⟨escrow.deliverable, ctx.sender⟩]⟩ := by
  simp only [cancel, bind_eq_ok, require_eq_ok, pure_eq_ok]
  constructor
  · rintro ⟨-, hseller, rfl⟩
    exact ⟨hseller, rfl⟩
  · rintro ⟨hseller, rfl⟩
    exact ⟨(), hseller, rfl⟩

end M1n3Protocol.Otc
