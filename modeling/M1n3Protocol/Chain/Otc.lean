/-
The OTC desk: coins and who owns them, the escrows, every call on either as
one machine, and the escrows' journal.

# Coins

Any coin type may be issued, by whoever holds its cap, to anyone; an owner
may send, split and join coins. An escrow's coin is nobody's until it is
sent on. A step has what it sends beside the state after it, and the event
of the escrow it touched.
-/
import M1n3Protocol.Contract.ConfidentialOtc
import M1n3Protocol.Lib.Journal

namespace M1n3Protocol.Otc

open Checked ObjStore

-- ================================================================ the desk

structure Desk where
  sender : Address
  coins : ObjStore Sent
  escrows : ObjStore Escrow

def Desk.init (sender : Address) : Desk where
  sender := sender
  coins := .empty
  escrows := .empty

inductive Call
  | beginTx (sender : Address)
  | mint (coin : Coin) (recipient : Address)
  | transfer (coin : ID) (recipient : Address)
  | split (coin : ID) (amount : U64)
  | join (coin other : ID)
  | lockEscrow (deliverable payT : ID) (buyer : Address) (payAmount : U64)
      (memo : Bytes)
  | settle (escrow payment : ID)
  | cancel (escrow : ID)

/-- The context a call on an escrow reads: only who sends. -/
def Desk.ctx (d : Desk) : TxContext := ⟨d.sender, 0, 0⟩

/-- The sender's own coin at `id`. -/
def Desk.own (d : Desk) (id : ID) : Except Abort Coin := do
  let held ← fetch (d.coins.get id) .noSuchObject
  require (held.recipient = d.sender) .notOwner
  return held.coin

/-- Each coin sent is its recipient's. -/
def Desk.give (d : Desk) (sent : List Sent) : Desk :=
  { d with coins := sent.foldl ObjStore.alloc d.coins }

/-- The state after the call, what it sent, and what it did to an escrow. -/
def Desk.exec (d : Desk) :
    Call → Except Abort (Desk × List Sent × Option (ID × Event))
  | .beginTx sender => pure ({ d with sender }, [], none)
  | .mint coin recipient =>
      pure (d.give [⟨coin, recipient⟩], [⟨coin, recipient⟩], none)
  | .transfer id recipient => do
      let coin ← d.own id
      return ({ d with coins := d.coins.put id ⟨coin, recipient⟩ },
        [⟨coin, recipient⟩], none)
  | .split id amount => do
      let coin ← d.own id
      let value ← sub .notEnough coin.value amount
      return (({ d with
        coins := d.coins.put id ⟨{ coin with value }, d.sender⟩ }).give
          [⟨{ coin with value := amount }, d.sender⟩], [], none)
  | .join id other => do
      let coin ← d.own id
      let more ← d.own other
      require (id ≠ other) .noSuchObject
      require (more.capId = coin.capId) .typeMismatch
      let value ← add .arithmetic coin.value more.value
      return ({ d with
        coins := (d.coins.erase other).put id ⟨{ coin with value }, d.sender⟩ },
        [], none)
  | .lockEscrow id payT buyer payAmount memo => do
      let deliverable ← d.own id
      let (escrow, move) ←
        Otc.lockEscrow deliverable payT buyer payAmount memo d.ctx
      return ({ d with
        coins := d.coins.erase id, escrows := d.escrows.alloc escrow },
        move.sent, some (d.escrows.next, move.event))
  | .settle id paymentId => do
      let escrow ← fetch (d.escrows.get id) .noSuchObject
      let payment ← d.own paymentId
      let move ← Otc.settle escrow payment d.ctx
      return (({ d with
        coins := d.coins.erase paymentId
        escrows := d.escrows.erase id }).give move.sent,
        move.sent, some (id, move.event))
  | .cancel id => do
      let escrow ← fetch (d.escrows.get id) .noSuchObject
      let move ← Otc.cancel escrow d.ctx
      return (({ d with escrows := d.escrows.erase id }).give move.sent,
        move.sent, some (id, move.event))

/-- The desk from its first transaction on. -/
def desk (sender : Address) : Machine Abort Desk Call where
  init := .init sender
  step d c := (d.exec c).map Prod.fst

theorem desk_step_ok {sender : Address} {d d' : Desk} {c : Call} :
    (desk sender).step d c = .ok d'
      ↔ ∃ out, d.exec c = .ok (d', out) := by
  show (d.exec c).map Prod.fst = .ok d' ↔ _
  cases d.exec c with
  | error e =>
      constructor
      · intro h
        cases h
      · rintro ⟨_, h⟩
        cases h
  | ok r =>
      constructor
      · intro h
        cases h
        exact ⟨r.2, rfl⟩
      · rintro ⟨_, h⟩
        cases h
        rfl

-- ======================================================= what is held

/-- How much of a coin type is in wallets and escrows. -/
def Desk.worth (d : Desk) (coinT : ID) : Nat :=
  (d.coins.sum fun t => amountOf coinT t.coin)
    + d.escrows.sum fun e => amountOf coinT e.deliverable

/-- How much of it an address owns. -/
def Desk.owned (d : Desk) (who : Address) (coinT : ID) : Nat :=
  d.coins.sum fun t => if t.recipient = who then amountOf coinT t.coin else 0

/-- How much of it an address is owed by the escrows it opened. -/
def Desk.due (d : Desk) (who : Address) (coinT : ID) : Nat :=
  d.escrows.sum fun e =>
    if e.seller = who ∧ e.payT = coinT then e.payAmount.toNat else 0

theorem own_eq_ok {d : Desk} {id : ID} {coin : Coin} :
    d.own id = .ok coin ↔ d.coins.get id = some ⟨coin, d.sender⟩ := by
  simp only [Desk.own, bind_eq_ok, fetch_eq_ok, require_eq_ok, pure_eq_ok]
  constructor
  · rintro ⟨held, hget, -, howner, rfl⟩
    rw [hget, ← howner]
  · intro hget
    exact ⟨_, hget, (), rfl, rfl⟩

/-- Handing out coins adds each of them. -/
theorem sum_give (coins : ObjStore Sent) (sent : List Sent) (f : Sent → Nat) :
    (sent.foldl ObjStore.alloc coins).sum f
      = coins.sum f + (sent.map f).sum := by
  induction sent generalizing coins with
  | nil => simp
  | cons t sent ih =>
      rw [List.foldl_cons, ih, sum_alloc, List.map_cons, List.sum_cons]
      omega

theorem sum_give_type (coins : ObjStore Sent) (sent : List Sent)
    (coinT : ID) :
    ((sent.foldl ObjStore.alloc coins).sum fun t => amountOf coinT t.coin)
      = (coins.sum fun t => amountOf coinT t.coin) + sentOf coinT sent :=
  sum_give coins sent _

theorem sentTo_eq (who : Address) (coinT : ID) (sent : List Sent) :
    sentTo who coinT sent = (sent.map fun t =>
      if t.recipient = who then amountOf coinT t.coin else 0).sum := by
  induction sent with
  | nil => rfl
  | cons t sent ih => rw [sentTo_cons, ih, List.map_cons, List.sum_cons]

theorem owned_give (d : Desk) (sent : List Sent) (who : Address)
    (coinT : ID) :
    (d.give sent).owned who coinT
      = d.owned who coinT + sentTo who coinT sent := by
  rw [sentTo_eq]
  exact sum_give d.coins sent _

-- ================================================================ a step

/-- What goes into the desk from outside: coins just issued. -/
def Call.minted (coinT : ID) : Call → Nat
  | .mint coin _ => amountOf coinT coin
  | _ => 0

/-- A call moves coins between wallets and escrows and makes none up. -/
theorem Desk.exec_worth {d d' : Desk} {c : Call}
    {out : List Sent × Option (ID × Event)} (h : d.exec c = .ok (d', out))
    (coinT : ID) : d'.worth coinT = d.worth coinT + c.minted coinT := by
  cases c with
  | beginTx sender =>
      simp only [Desk.exec, pure_eq_ok] at h
      cases h
      rfl
  | mint coin recipient =>
      simp only [Desk.exec, pure_eq_ok] at h
      cases h
      have hgive := sum_give_type d.coins [⟨coin, recipient⟩] coinT
      simp only [sentOf_cons, sentOf_nil] at hgive
      simp only [Desk.worth, Desk.give, Call.minted]
      omega
  | transfer id recipient =>
      simp only [Desk.exec, bind_eq_ok, own_eq_ok, pure_eq_ok] at h
      obtain ⟨coin, hget, heq⟩ := h
      cases heq
      have hput := sum_put hget ⟨coin, recipient⟩
        fun t => amountOf coinT t.coin
      simp only [Desk.worth, Call.minted] at hput ⊢
      omega
  | split id amount =>
      simp only [Desk.exec, bind_eq_ok, own_eq_ok, sub_eq_ok, pure_eq_ok] at h
      obtain ⟨coin, hget, value, hvalue, heq⟩ := h
      cases heq
      have hcut := amountOf_add (w := coin) (a := ⟨coin.capId, value⟩)
        (b := ⟨coin.capId, amount⟩) rfl rfl hvalue coinT
      have hput := sum_put hget ⟨⟨coin.capId, value⟩, d.sender⟩
        fun t => amountOf coinT t.coin
      have hgive := sum_give_type
        (d.coins.put id ⟨⟨coin.capId, value⟩, d.sender⟩)
        [⟨⟨coin.capId, amount⟩, d.sender⟩] coinT
      simp only [sentOf_cons, sentOf_nil] at hgive
      simp only [Desk.worth, Desk.give, Call.minted] at hput ⊢
      omega
  | join id other =>
      simp only [Desk.exec, bind_eq_ok, own_eq_ok, require_eq_ok, add_eq_ok,
        pure_eq_ok] at h
      obtain ⟨coin, hget, more, hmore, -, hne, -, htype, value, hvalue,
        heq⟩ := h
      cases heq
      have hjoin := amountOf_add (w := ⟨coin.capId, value⟩) (a := coin)
        (b := more) rfl htype hvalue.symm coinT
      have herase := sum_erase hmore fun t => amountOf coinT t.coin
      have hget' : (d.coins.erase other).get id = some ⟨coin, d.sender⟩ := by
        rw [get_erase_ne hne, hget]
      have hput := sum_put hget' ⟨⟨coin.capId, value⟩, d.sender⟩
        fun t => amountOf coinT t.coin
      simp only [Desk.worth, Call.minted] at hput herase ⊢
      omega
  | lockEscrow id payT buyer payAmount memo =>
      simp only [Desk.exec, bind_eq_ok, own_eq_ok, pure_eq_ok] at h
      obtain ⟨coin, hget, ⟨escrow, move⟩, hlock, heq⟩ := h
      cases heq
      obtain ⟨-, -, rfl, rfl⟩ := lockEscrow_eq_ok.mp hlock
      have herase := sum_erase hget fun t => amountOf coinT t.coin
      simp only [Desk.worth, Call.minted, sum_alloc] at herase ⊢
      omega
  | settle id paymentId =>
      simp only [Desk.exec, bind_eq_ok, fetch_eq_ok, own_eq_ok,
        pure_eq_ok] at h
      obtain ⟨escrow, hesc, payment, hpay, move, hsettle, heq⟩ := h
      cases heq
      have htotal := (settle_ok hsettle).1.total coinT
      have hcoins := sum_erase hpay fun t => amountOf coinT t.coin
      have hescrows := sum_erase hesc fun e => amountOf coinT e.deliverable
      have hgive := sum_give_type (d.coins.erase paymentId) move.sent coinT
      simp only [Desk.worth, Desk.give, Call.minted] at hcoins ⊢
      omega
  | cancel id =>
      simp only [Desk.exec, bind_eq_ok, fetch_eq_ok, pure_eq_ok] at h
      obtain ⟨escrow, hesc, move, hcancel, heq⟩ := h
      cases heq
      obtain ⟨-, rfl⟩ := cancel_eq_ok.mp hcancel
      have hescrows := sum_erase hesc fun e => amountOf coinT e.deliverable
      have hgive := sum_give_type d.coins
        [⟨escrow.deliverable, d.ctx.sender⟩] coinT
      simp only [sentOf_cons, sentOf_nil] at hgive
      simp only [Desk.worth, Desk.give, Call.minted]
      omega

end M1n3Protocol.Otc
