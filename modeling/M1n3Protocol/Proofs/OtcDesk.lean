/-
The OTC desk over whole runs: what can happen to an escrow, that coins are
neither made nor lost, and what the others can do to someone who does
nothing.

# The exchange

An escrow's page has its opening and then, at most, one more entry: a
settlement, in which the seller gets the price and the buyer the
deliverable, or a cancellation, in which the seller gets the deliverable
back. There is no other way out, and both ways stay open until one is
taken.

# Standing by

`owned` counts what is in an address's wallet, `due` what its own escrows
still ask for. A settlement turns one into the other, so the sum only
changes by what the others give away.
-/
import M1n3Protocol.Chain.Otc

namespace M1n3Protocol.Otc

open Checked ObjStore Machine

-- ========================================================== the journal

/-- A call on an escrow: who made it, and what it did. -/
structure Entry extends Move where
  sender : Address
  deriving DecidableEq

def Entry.opened (e : Escrow) : Entry :=
  { sender := e.seller
    event := .escrowOpened e.seller e.buyer e.deliverable.value e.payAmount
      e.memo
    sent := [] }

/-- What was sent of the payment is left open. -/
def Entry.settled (e : Escrow) (sent : List Sent) : Entry :=
  { sender := e.buyer
    event := .escrowSettled e.seller e.buyer e.deliverable.value e.payAmount
    sent }

def Entry.cancelled (e : Escrow) : Entry :=
  { sender := e.seller
    event := .escrowCancelled e.seller
    sent := [⟨e.deliverable, e.seller⟩] }

inductive EscrowStep : Life Escrow → Entry → Life Escrow → Prop
  | opened {e : Escrow} (hvalue : 0 < e.deliverable.value.toNat)
      (hprice : 0 < e.payAmount.toNat) :
      EscrowStep .unborn (.opened e) (.live e)
  | settled {e : Escrow} {payment : Coin} {sent : List Sent}
      (hterms : Settled e payment e.buyer sent) :
      EscrowStep (.live e) (.settled e sent) .gone
  | cancelled {e : Escrow} : EscrowStep (.live e) (.cancelled e) .gone

/-- The escrow a call touched, with its entry. -/
def Desk.posted (d : Desk) (c : Call) : Option (ID × Entry) :=
  match d.exec c with
  | .ok (_, sent, some (id, event)) =>
      some (id, { sender := d.sender, event, sent })
  | _ => none

theorem Desk.posted_of_ok {d d' : Desk} {c : Call} {sent : List Sent}
    {on : Option (ID × Event)} (h : d.exec c = .ok (d', sent, on)) :
    d.posted c = on.map fun q =>
      (q.1, { sender := d.sender, event := q.2, sent := sent }) := by
  unfold Desk.posted
  rw [h]
  cases on <;> rfl

/-- What a call can do: nothing to any escrow, or one step of one. -/
theorem Desk.exec_escrows {d d' : Desk} {c : Call} {sent : List Sent}
    {on : Option (ID × Event)} (h : d.exec c = .ok (d', sent, on)) :
    (on = none ∧ d'.escrows = d.escrows)
      ∨ ∃ id event l l', on = some (id, event)
        ∧ d.escrows.Turns id l l' d'.escrows
        ∧ EscrowStep l { sender := d.sender, event, sent } l' := by
  cases c with
  | beginTx sender =>
      simp only [Desk.exec, pure_eq_ok] at h
      cases h
      exact .inl ⟨rfl, rfl⟩
  | mint coin recipient =>
      simp only [Desk.exec, pure_eq_ok] at h
      cases h
      exact .inl ⟨rfl, rfl⟩
  | transfer id recipient =>
      simp only [Desk.exec, bind_eq_ok, own_eq_ok, pure_eq_ok] at h
      obtain ⟨coin, hget, heq⟩ := h
      cases heq
      exact .inl ⟨rfl, rfl⟩
  | split id amount =>
      simp only [Desk.exec, bind_eq_ok, own_eq_ok, sub_eq_ok, pure_eq_ok] at h
      obtain ⟨coin, hget, value, hvalue, heq⟩ := h
      cases heq
      exact .inl ⟨rfl, rfl⟩
  | join id other =>
      simp only [Desk.exec, bind_eq_ok, own_eq_ok, require_eq_ok, add_eq_ok,
        pure_eq_ok] at h
      obtain ⟨coin, hget, more, hmore, -, hne, -, htype, value, hvalue,
        heq⟩ := h
      cases heq
      exact .inl ⟨rfl, rfl⟩
  | lockEscrow id payT buyer payAmount memo =>
      simp only [Desk.exec, bind_eq_ok, own_eq_ok, pure_eq_ok] at h
      obtain ⟨coin, hget, ⟨escrow, move⟩, hlock, heq⟩ := h
      cases heq
      obtain ⟨hvalue, hprice, rfl, rfl⟩ := lockEscrow_eq_ok.mp hlock
      have hstep := EscrowStep.opened
        (e := ⟨coin, payT, d.sender, buyer, payAmount, memo⟩) hvalue hprice
      exact .inr ⟨_, _, _, _, rfl, turns_alloc .., hstep⟩
  | settle id paymentId =>
      simp only [Desk.exec, bind_eq_ok, fetch_eq_ok, own_eq_ok,
        pure_eq_ok] at h
      obtain ⟨escrow, hesc, payment, hpay, move, hsettle, heq⟩ := h
      cases heq
      obtain ⟨hterms, hevent⟩ := settle_ok hsettle
      have hbuyer : d.sender = escrow.buyer := hterms.by_buyer
      have hterms : Settled escrow payment d.sender move.sent := hterms
      rw [hbuyer] at hterms
      have hstep := EscrowStep.settled hterms
      rw [Entry.settled, ← hevent, ← hbuyer] at hstep
      exact .inr ⟨_, _, _, _, rfl, turns_erase hesc, hstep⟩
  | cancel id =>
      simp only [Desk.exec, bind_eq_ok, fetch_eq_ok, pure_eq_ok] at h
      obtain ⟨escrow, hesc, move, hcancel, heq⟩ := h
      cases heq
      obtain ⟨hseller, rfl⟩ := cancel_eq_ok.mp hcancel
      have hsender : d.sender = escrow.seller := hseller
      refine .inr ⟨_, _, _, _, rfl, turns_erase hesc, ?_⟩
      rw [hseller, hsender]
      exact .cancelled

/-- The desk's journal: each escrow, and the calls on it. -/
def escrowJournal (sender : Address) :
    (desk sender).Journal ID Entry (Life Escrow) where
  view d := d.escrows.life
  post d c _ := d.posted c
  Move _ := EscrowStep
  quiet d c d' hs hpost := by
    obtain ⟨⟨sent, on⟩, hexec⟩ := desk_step_ok.mp hs
    rw [Desk.posted_of_ok hexec] at hpost
    rcases Desk.exec_escrows hexec with ⟨-, h⟩ | ⟨_, _, _, _, rfl, -⟩
    · rw [h]
    · cases hpost
  moved d c d' k mv hs hpost := by
    obtain ⟨⟨sent, on⟩, hexec⟩ := desk_step_ok.mp hs
    rw [Desk.posted_of_ok hexec] at hpost
    rcases Desk.exec_escrows hexec with
      ⟨rfl, -⟩ | ⟨id, event, l, l', rfl, hturns, hstep⟩
    · cases hpost
    · cases hpost
      rw [hturns.before, hturns.after]
      exact ⟨hstep, hturns.others⟩

-- ========================================================= the exchange

/-- All that can ever happen to an escrow. -/
inductive EscrowPage : List Entry → Life Escrow → Prop
  | none : EscrowPage [] .unborn
  | waiting {e : Escrow} (hvalue : 0 < e.deliverable.value.toNat)
      (hprice : 0 < e.payAmount.toNat) : EscrowPage [.opened e] (.live e)
  | settled {e : Escrow} {payment : Coin} {sent : List Sent}
      (hterms : Settled e payment e.buyer sent) :
      EscrowPage [.opened e, .settled e sent] .gone
  | cancelled {e : Escrow} :
      EscrowPage [.opened e, .cancelled e] .gone

theorem EscrowPage.snoc {page : List Entry} {l l' : Life Escrow}
    {entry : Entry} (h : EscrowPage page l) (hstep : EscrowStep l entry l') :
    EscrowPage (page ++ [entry]) l' := by
  cases hstep with
  | opened hvalue hprice =>
      cases h
      exact .waiting hvalue hprice
  | settled hterms =>
      cases h
      exact .settled hterms
  | cancelled =>
      cases h
      exact .cancelled

theorem EscrowPage.of_trace {page : List Entry} {l : Life Escrow}
    (h : Trace EscrowStep .unborn page l) : EscrowPage page l := by
  -- a page is read from its end, so the trace is cut before the last entry
  induction page using List.reverseRecOn generalizing l with
  | nil =>
      rw [h.eq_of_nil]
      exact .none
  | append_singleton page entry ih =>
      obtain ⟨t, hpage, hlast⟩ := h.split
      exact (ih hpage).snoc hlast.of_single

/-- Both ways out of a live escrow are open to their party. -/
structure Open (d : Desk) (id : ID) (e : Escrow) : Prop where
  settle : ∀ (payment : ID) (coin : Coin), d.sender = e.buyer →
    d.coins.get payment = some ⟨coin, e.buyer⟩ → coin.capId = e.payT →
    e.payAmount.toNat ≤ coin.value.toNat →
    ∃ d', d.exec (.settle id payment) = .ok d'
  cancel : d.sender = e.seller → ∃ d', d.exec (.cancel id) = .ok d'

theorem open_of_live {d : Desk} {id : ID} {e : Escrow}
    (h : d.escrows.get id = some e) : Open d id e where
  settle payment coin hbuyer hcoin htype hle := by
    have hsettles : ∃ move, Otc.settle e coin d.ctx = .ok move :=
      settle_succeeds_iff.mpr ⟨htype, hbuyer, hle⟩
    obtain ⟨move, hmove⟩ := hsettles
    rw [← hbuyer] at hcoin
    exact ⟨_, bind_eq_ok.mpr ⟨e, fetch_eq_ok.mpr h,
      bind_eq_ok.mpr ⟨coin, own_eq_ok.mpr hcoin,
      bind_eq_ok.mpr ⟨move, hmove, rfl⟩⟩⟩⟩
  cancel hseller := by
    have hmove : Otc.cancel e d.ctx = .ok _ :=
      cancel_eq_ok.mpr ⟨hseller, rfl⟩
    exact ⟨_, bind_eq_ok.mpr ⟨e, fetch_eq_ok.mpr h,
      bind_eq_ok.mpr ⟨_, hmove, rfl⟩⟩⟩

/-- 40 of one coin locked for 60 of another, settled with a coin of 100,
and a second escrow taken back. -/
def deskTrade : List Call :=
  [.mint ⟨5, 40⟩ 1,
   .mint ⟨7, 100⟩ 2,
   .beginTx 1,
   .lockEscrow 0 7 2 60 [],
   .beginTx 2,
   .settle 0 1,
   .split 4 15,
   .lockEscrow 5 7 3 9 [1],
   .cancel 1]

/-- The desk beside the calls made on it. -/
def deskCalls (sender : Address) :
    Machine Abort (Desk × List Call) Call :=
  (desk sender).withGhost [] fun _ c _ calls => calls ++ [c]

/-- In every run what is in wallets and escrows is what was issued. -/
theorem desk_conserved {sender : Address} {p : Desk × List Call}
    (h : Reach (deskCalls sender) p) (coinT : ID) :
    p.1.worth coinT = (p.2.map (Call.minted coinT)).sum := by
  refine ReachVia.withGhost_invariant
    (I := fun d calls => d.worth coinT = (calls.map (Call.minted coinT)).sum)
    rfl ?_ h
  intro d c d' calls _ ih _ hs
  obtain ⟨out, hexec⟩ := desk_step_ok.mp hs
  rw [Desk.exec_worth hexec, ih]
  simp

theorem desk_conserved_deskTrade :
    ∃ p, Reach (deskCalls 0) p ∧ p.1.worth 5 = 40
      ∧ p.1.worth 7 = (p.2.map (Call.minted 7)).sum := by
  have hrun : (deskCalls 0).endsIn deskTrade (fun p =>
      decide ((p.2.map (Call.minted 5)).sum = 40)) = true := by
    decide +kernel
  obtain ⟨p, hp, hcheck⟩ := reach_of_endsIn hrun
  exact ⟨p, hp, (desk_conserved hp 5).trans (of_decide_eq_true hcheck),
    desk_conserved hp 7⟩

-- ========================================================= standing by

/-- One step of a run: what it sent, and the escrow it was on. -/
structure Record where
  sent : List Sent
  on : Option (ID × Event)

def Desk.recorded (d : Desk) (c : Call) : Record :=
  match d.exec c with
  | .ok (_, sent, on) => ⟨sent, on⟩
  | .error _ => ⟨[], none⟩

/-- What a step gives an address that is not the price of an escrow. -/
def Record.gift (who : Address) (coinT : ID) (r : Record) : Nat :=
  match r.on with
  | none => sentTo who coinT r.sent
  | some _ => 0

def Call.opensTx : Call → Bool
  | .beginTx _ => true
  | _ => false

/-- The step does not act for `who`. -/
def ByOthers (who : Address) (d : Desk) (c : Call) : Prop :=
  c.opensTx = true ∨ d.sender ≠ who

instance (who : Address) (d : Desk) (c : Call) :
    Decidable (ByOthers who d c) :=
  inferInstanceAs (Decidable (_ ∨ _))

theorem ByOthers.sender_ne {who : Address} {d : Desk} {c : Call}
    (h : ByOthers who d c) (hc : c.opensTx = false) : d.sender ≠ who :=
  h.resolve_left (by simp [hc])

/-- A step by others: what `who` owns and is due changes by gifts only. -/
theorem Desk.exec_byOthers {d d' : Desk} {c : Call} {sent : List Sent}
    {on : Option (ID × Event)} (h : d.exec c = .ok (d', sent, on))
    {who : Address} (hothers : ByOthers who d c) (coinT : ID) :
    d'.owned who coinT + d'.due who coinT
      = d.owned who coinT + d.due who coinT
        + Record.gift who coinT ⟨sent, on⟩ := by
  cases c with
  | beginTx sender =>
      simp only [Desk.exec, pure_eq_ok] at h
      cases h
      rfl
  | mint coin recipient =>
      simp only [Desk.exec, pure_eq_ok] at h
      cases h
      have hgive := owned_give d [⟨coin, recipient⟩] who coinT
      simp only [Desk.due, Desk.give, Record.gift] at hgive ⊢
      omega
  | transfer id recipient =>
      simp only [Desk.exec, bind_eq_ok, own_eq_ok, pure_eq_ok] at h
      obtain ⟨coin, hget, heq⟩ := h
      cases heq
      have hput := sum_put hget ⟨coin, recipient⟩ fun t =>
        if t.recipient = who then amountOf coinT t.coin else 0
      simp only [if_neg (hothers.sender_ne rfl)] at hput
      simp only [Desk.owned, Desk.due, Record.gift, sentTo_cons, sentTo_nil]
      omega
  | split id amount =>
      simp only [Desk.exec, bind_eq_ok, own_eq_ok, sub_eq_ok, pure_eq_ok] at h
      obtain ⟨coin, hget, value, hvalue, heq⟩ := h
      cases heq
      have hput := sum_put hget ⟨⟨coin.capId, value⟩, d.sender⟩ fun t =>
        if t.recipient = who then amountOf coinT t.coin else 0
      have hgive := owned_give { d with
          coins := d.coins.put id ⟨⟨coin.capId, value⟩, d.sender⟩ }
        [⟨⟨coin.capId, amount⟩, d.sender⟩] who coinT
      simp only [sentTo_cons, sentTo_nil, Desk.owned,
        if_neg (hothers.sender_ne rfl)] at hput hgive
      simp only [Desk.owned, Desk.due, Record.gift, sentTo_nil]
      simp only [Desk.give] at hgive ⊢
      omega
  | join id other =>
      simp only [Desk.exec, bind_eq_ok, own_eq_ok, require_eq_ok, add_eq_ok,
        pure_eq_ok] at h
      obtain ⟨coin, hget, more, hmore, -, hne, -, htype, value, hvalue,
        heq⟩ := h
      cases heq
      have herase := sum_erase hmore fun t =>
        if t.recipient = who then amountOf coinT t.coin else 0
      have hget' : (d.coins.erase other).get id = some ⟨coin, d.sender⟩ := by
        rw [get_erase_ne hne, hget]
      have hput := sum_put hget' ⟨⟨coin.capId, value⟩, d.sender⟩ fun t =>
        if t.recipient = who then amountOf coinT t.coin else 0
      simp only [if_neg (hothers.sender_ne rfl)] at hput herase
      simp only [Desk.owned, Desk.due, Record.gift, sentTo_nil]
      omega
  | lockEscrow id payT buyer payAmount memo =>
      simp only [Desk.exec, bind_eq_ok, own_eq_ok, pure_eq_ok] at h
      obtain ⟨coin, hget, ⟨escrow, move⟩, hlock, heq⟩ := h
      cases heq
      obtain ⟨-, -, rfl, rfl⟩ := lockEscrow_eq_ok.mp hlock
      have hne := hothers.sender_ne rfl
      have herase := sum_erase hget fun t =>
        if t.recipient = who then amountOf coinT t.coin else 0
      simp only [if_neg hne] at herase
      simp only [Desk.owned, Desk.due, Record.gift, sum_alloc, Desk.ctx,
        if_neg (show ¬ (d.sender = who ∧ payT = coinT) from
          fun hand => hne hand.1)]
      omega
  | settle id paymentId =>
      simp only [Desk.exec, bind_eq_ok, fetch_eq_ok, own_eq_ok,
        pure_eq_ok] at h
      obtain ⟨escrow, hesc, payment, hpay, move, hsettle, heq⟩ := h
      cases heq
      have hne := hothers.sender_ne rfl
      have hcoins := sum_erase hpay fun t =>
        if t.recipient = who then amountOf coinT t.coin else 0
      have hdue := sum_erase hesc fun e =>
        if e.seller = who ∧ e.payT = coinT then e.payAmount.toNat else 0
      have hgive := owned_give { d with
          coins := d.coins.erase paymentId, escrows := d.escrows.erase id }
        move.sent who coinT
      have hsent := settle_sentTo hsettle hne coinT
      simp only [if_neg hne] at hcoins
      simp only [Desk.owned, Desk.due, Desk.give, Record.gift] at hgive ⊢
      omega
  | cancel id =>
      simp only [Desk.exec, bind_eq_ok, fetch_eq_ok, pure_eq_ok] at h
      obtain ⟨escrow, hesc, move, hcancel, heq⟩ := h
      cases heq
      obtain ⟨hseller, rfl⟩ := cancel_eq_ok.mp hcancel
      have hne := hothers.sender_ne rfl
      have hseller : d.sender = escrow.seller := hseller
      have hdue := sum_erase hesc fun e =>
        if e.seller = who ∧ e.payT = coinT then e.payAmount.toNat else 0
      have hgive := owned_give { d with escrows := d.escrows.erase id }
        [⟨escrow.deliverable, d.sender⟩] who coinT
      simp only [← hseller, if_neg (show ¬ (d.sender = who
        ∧ escrow.payT = coinT) from fun hand => hne hand.1)] at hdue
      simp only [sentTo_cons, sentTo_nil, if_neg hne] at hgive
      simp only [Desk.owned, Desk.due, Desk.give, Desk.ctx, Record.gift]
        at hgive ⊢
      omega

/-- Such a step leaves an escrow of `who` alone, or pays its price. -/
theorem Desk.exec_keeps {d d' : Desk} {c : Call} {sent : List Sent}
    {on : Option (ID × Event)} (h : d.exec c = .ok (d', sent, on))
    {who : Address} (hothers : ByOthers who d c) {id : ID} {e : Escrow}
    (hget : d.escrows.get id = some e) (hseller : e.seller = who) :
    d'.escrows.get id = some e
      ∨ on = some (id, .escrowSettled who e.buyer e.deliverable.value
          e.payAmount) ∧ ⟨⟨e.payT, e.payAmount⟩, who⟩ ∈ sent := by
  rcases Desk.exec_escrows h with
    ⟨-, hsame⟩ | ⟨k, event, l, l', rfl, hturns, hstep⟩
  · rw [hsame]
    exact .inl hget
  · by_cases hk : id = k
    · subst hk
      have hl := hturns.before
      rw [life_of_get hget] at hl
      subst hl
      generalize hentry : (⟨⟨event, sent⟩, d.sender⟩ : Entry) = entry at hstep
      have hsender : d.sender = entry.sender := congrArg Entry.sender hentry
      have hevent : event = entry.event := congrArg (·.event) hentry
      have hsent : sent = entry.sent := congrArg (·.sent) hentry
      rw [← hseller, hevent, hsent]
      cases hstep with
      | settled hterms => exact .inr ⟨rfl, hterms.price⟩
      | cancelled =>
          -- a call on an escrow is no `beginTx`
          have hcall : c.opensTx = false := by
            cases c with
            | beginTx sender =>
                simp only [Desk.exec, pure_eq_ok] at h
                cases h
            | _ => rfl
          exact absurd (hsender.trans hseller) (hothers.sender_ne hcall)
    · rw [← get?_life, hturns.others id hk, get?_life]
      exact .inl hget

/-- The desk from `d` on, beside a record of every step. -/
def deskFrom (sender : Address) (d : Desk) :
    Machine Abort (Desk × List Record) Call :=
  ((desk sender).startAt d).withGhost [] fun d c _ records =>
    records ++ [d.recorded c]

/-- An escrow of `who` is as it was, or was settled and `who` has the
price. -/
def KeptOrPaid (who : Address) (id : ID) (e : Escrow) (d : Desk)
    (records : List Record) : Prop :=
  d.escrows.get id = some e ∨ ∃ r ∈ records,
    r.on = some (id, .escrowSettled who e.buyer e.deliverable.value
      e.payAmount)
    ∧ ⟨⟨e.payT, e.payAmount⟩, who⟩ ∈ r.sent

/-- Whatever the others do, an address that does nothing keeps what it
owns and is due, to the unit, and gains what is given to it; each escrow
it opened is still there, or it has been paid the price. -/
theorem bystander_kept_whole {sender who : Address} {d : Desk}
    {p : Desk × List Record}
    (h : ReachVia (deskFrom sender d) (fun p c => ByOthers who p.1 c) p) :
    (∀ coinT, p.1.owned who coinT + p.1.due who coinT
        = d.owned who coinT + d.due who coinT
          + (p.2.map (Record.gift who coinT)).sum)
      ∧ ∀ id e, d.escrows.get id = some e → e.seller = who →
          KeptOrPaid who id e p.1 p.2 := by
  refine ReachVia.withGhost_invariant
    (I := fun d' records => (∀ coinT, d'.owned who coinT + d'.due who coinT
        = d.owned who coinT + d.due who coinT
          + (records.map (Record.gift who coinT)).sum)
      ∧ ∀ id e, d.escrows.get id = some e → e.seller = who →
          KeptOrPaid who id e d' records) ?_ ?_ h
  · exact ⟨fun _ => rfl, fun id e hget _ => .inl hget⟩
  · rintro d₁ c d₂ records - ⟨hsum, hkept⟩ hothers hs
    have hs : (desk sender).step d₁ c = .ok d₂ := hs
    obtain ⟨⟨sent, on⟩, hexec⟩ := desk_step_ok.mp hs
    have hrecorded : d₁.recorded c = ⟨sent, on⟩ := by
      unfold Desk.recorded
      rw [hexec]
    rw [hrecorded]
    constructor
    · intro coinT
      rw [Desk.exec_byOthers hexec hothers, hsum, List.map_append,
        List.sum_append, List.map_singleton, List.sum_singleton]
      omega
    · intro id e hget hseller
      rcases hkept id e hget hseller with hlive | ⟨r, hr, hon, hprice⟩
      · rcases Desk.exec_keeps hexec hothers hlive hseller with hlive | hpaid
        · exact .inl hlive
        · exact .inr ⟨_, List.mem_append_right _ List.mem_cons_self, hpaid⟩
      · exact .inr ⟨r, List.mem_append_left _ hr, hon, hprice⟩

/-- One escrow of address 1 waits; address 2 can pay. -/
def deskWaiting : Desk where
  sender := 1
  coins := ObjStore.empty.alloc ⟨⟨7, 100⟩, 2⟩
  escrows := ObjStore.empty.alloc ⟨⟨5, 40⟩, 7, 1, 2, 60, []⟩

theorem bystander_kept_whole_deskWaiting :
    ∃ p, ReachVia (deskFrom 1 deskWaiting) (fun p c => ByOthers 1 p.1 c) p
      ∧ p.1.escrows.get 0 = none
      ∧ p.1.owned 1 7 + p.1.due 1 7
          = deskWaiting.owned 1 7 + deskWaiting.due 1 7
            + (p.2.map (Record.gift 1 7)).sum
      ∧ KeptOrPaid 1 0 ⟨⟨5, 40⟩, 7, 1, 2, 60, []⟩ p.1 p.2 := by
  have hrun : (deskFrom 1 deskWaiting).endsFrom
      (fun p c => decide (ByOthers 1 p.1 c))
      (fun p => decide (p.1.escrows.get 0 = none))
      [.beginTx 2, .settle 0 0, .transfer 2 1]
      (deskFrom 1 deskWaiting).init = true := by
    decide +kernel
  obtain ⟨p, hp, hcheck⟩ := reachVia_of_endsFrom
    (fun _ _ h => of_decide_eq_true h) .init hrun
  have hkept := bystander_kept_whole hp
  exact ⟨p, hp, of_decide_eq_true hcheck, hkept.1 7,
    hkept.2 0 ⟨⟨5, 40⟩, 7, 1, 2, 60, []⟩ rfl rfl⟩

end M1n3Protocol.Otc
