/-
The HashShare market: what goes into a standing order, what its fills pay
out of it, and what comes back.

# What a page says

An order's page starts with its placing and ends, if at all, with the
refund. In between its owner and expiry stay, its price is the last one
its owner set, and every fill is a trade at the price of that moment that
sends on each coin it took, to the unit. `MarketAccount` says all of it
for both books at once; which coin is in escrow is the only difference.

# Expiry

Whether an order is due is read off its expiry and the epoch alone. Due,
it can be cleaned up and no fill gets past the expiry check; not due, the
other way round.
-/
import M1n3Protocol.Chain.Market

namespace M1n3Protocol

open Checked ObjStore

-- ============================================================ the amounts

/-- How much of an asset these transfers send. -/
def sentOf (a : Asset) (sent : List Transfer) : Nat :=
  (sent.map fun t => if t.asset = a then t.amount.toNat else 0).sum

def MarketMove.putIn : MarketMove → Nat
  | .placed o => o.escrow.toNat
  | .toppedUp more => more.toNat
  | _ => 0

/-- What a fill sent of an asset. -/
def MarketMove.paidOut (a : Asset) : MarketMove → Nat
  | .filled _ _ _ _ _ _ sent => sentOf a sent
  | _ => 0

/-- What the end of the order sends. -/
def MarketMove.refund? : MarketMove → Option (List Transfer)
  | .cancelled _ sent => some sent
  | .cleanedUp _ sent => some sent
  | _ => none

def MarketMove.refunded (a : Asset) (mv : MarketMove) : Nat :=
  match mv.refund? with
  | some sent => sentOf a sent
  | none => 0

def held : Life StandingOrder → Nat
  | .live o => o.escrow.toNat
  | _ => 0

theorem sentOf_refund (o : StandingOrder) (a : Asset) :
    sentOf a (o.refund a) = o.escrow.toNat := by
  unfold StandingOrder.refund
  split
  · simp [sentOf]
  · case isFalse h =>
      have hzero : o.escrow = 0 := by simpa using h
      rw [hzero]
      rfl

theorem mem_refund {o : StandingOrder} {a : Asset} {t : Transfer}
    (ht : t ∈ o.refund a) : t.asset = a ∧ t.recipient = o.owner := by
  unfold StandingOrder.refund at ht
  split at ht
  · cases List.mem_singleton.mp ht
    exact ⟨rfl, rfl⟩
  · cases ht

section
variable {f : Fill} {ref : MarketRef} {order after : StandingOrder}
  {given : U64} {sent : List Transfer}

/-- The escrow lost what the fill sent of it. -/
theorem Fill.OnOrder.escrow_balanced (h : f.OnOrder ref order after given sent) :
    order.escrow.toNat = after.escrow.toNat + sentOf ref.escrowed sent := by
  have hnet := h.priced.net_eq
  have hesc := h.escrow_eq
  rw [h.sent_eq]
  cases ref with
  | buy id =>
      simp only [MarketRef.escrowed, sentOf, Fill.sentByBuy] at hesc ⊢
      simp
      omega
  | sell id =>
      simp only [MarketRef.escrowed, sentOf, Fill.sentBySell] at hesc ⊢
      split <;> simp <;> omega

/-- The taker's coin was sent on whole. -/
theorem Fill.OnOrder.given_balanced (h : f.OnOrder ref order after given sent) :
    given.toNat = sentOf ref.given sent := by
  have hnet := h.priced.net_eq
  have hgiven := h.given_eq
  rw [h.sent_eq]
  cases ref with
  | buy id =>
      simp only [MarketRef.given, sentOf, Fill.sentByBuy] at hgiven ⊢
      simp
      omega
  | sell id =>
      simp only [MarketRef.given, sentOf, Fill.sentBySell] at hgiven ⊢
      split
      · simp
        omega
      · case isFalse hzero =>
          have hzero : f.excess = 0 := by simpa using hzero
          rw [hzero] at hgiven
          simp
          simp at hgiven
          omega

end

-- ============================================================== the pages

variable {ref : MarketRef}

theorem MarketStep.balanced {l l' : Life StandingOrder} {mv : MarketMove}
    (h : MarketStep ref l mv l') :
    held l' + (mv.paidOut ref.escrowed + mv.refunded ref.escrowed)
      = held l + mv.putIn := by
  cases h with
  | place => exact Nat.add_comm ..
  | topUp hescrow =>
      show _ + (0 + 0) = _
      exact hescrow
  | reprice => rfl
  | fill hfill hepoch => exact hfill.escrow_balanced.symm
  | cancel =>
      show 0 + (0 + sentOf _ _) = _ + 0
      rw [sentOf_refund]
      simp [held]
  | cleanUp hexpires hepoch =>
      show 0 + (0 + sentOf _ _) = _ + 0
      rw [sentOf_refund]
      simp [held]

/-- What was put into an order was paid out, was refunded, or is held. -/
theorem MarketStep.conserved {page : List MarketMove}
    {l : Life StandingOrder} (h : Trace (MarketStep ref) .unborn page l) :
    held l + (page.map (MarketMove.paidOut ref.escrowed)).sum
        + (page.map (MarketMove.refunded ref.escrowed)).sum
      = (page.map MarketMove.putIn).sum := by
  have hsum := h.conserved fun _ _ _ hs => hs.balanced
  have hunborn : held .unborn = 0 := rfl
  rw [List.sum_map_add, hunborn] at hsum
  omega

/-- A page is empty, or starts with the placing of its order. -/
theorem MarketStep.page {page : List MarketMove} {l : Life StandingOrder}
    (h : Trace (MarketStep ref) .unborn page l) :
    (page = [] ∧ l = .unborn)
      ∨ ∃ placed later, page = .placed placed :: later
        ∧ Trace (MarketStep ref) (.live placed) later l := by
  cases h with
  | nil => exact .inl ⟨rfl, rfl⟩
  | cons hR htail =>
      cases hR with
      | place => exact .inr ⟨_, _, rfl, htail⟩

/-- Nothing follows a refund. -/
theorem MarketStep.gone {later : List MarketMove} {l : Life StandingOrder}
    (h : Trace (MarketStep ref) .gone later l) : later = [] ∧ l = .gone := by
  cases h with
  | nil => exact ⟨rfl, rfl⟩
  | cons hR => cases hR

/-- The price after a move. -/
def MarketMove.price (price : U64) : MarketMove → U64
  | .repriced newPrice => newPrice
  | _ => price

/-- An order as its moves so far have left it, its escrow apart. -/
structure StandingOrder.After (placed : StandingOrder)
    (moves : List MarketMove) (o : StandingOrder) : Prop where
  owner_eq : o.owner = placed.owner
  expires_eq : o.expiresEpoch = placed.expiresEpoch
  price_eq : o.pricePerUnitMist
    = moves.foldl MarketMove.price placed.pricePerUnitMist

theorem StandingOrder.After.cons {placed o o' : StandingOrder}
    {mv : MarketMove} {moves : List MarketMove} (h : o.After moves o')
    (hfirst : placed.After [mv] o) : placed.After (mv :: moves) o' := by
  refine ⟨h.owner_eq.trans hfirst.owner_eq,
    h.expires_eq.trans hfirst.expires_eq, ?_⟩
  rw [h.price_eq, hfirst.price_eq]
  rfl

theorem MarketStep.after {placed o : StandingOrder}
    {moves : List MarketMove}
    (h : Trace (MarketStep ref) (.live placed) moves (.live o)) :
    placed.After moves o := by
  induction moves generalizing placed with
  | nil =>
      cases h
      exact ⟨rfl, rfl, rfl⟩
  | cons mv moves ih =>
      cases h with
      | cons hR rest =>
          cases hR with
          | topUp hescrow => exact (ih rest).cons ⟨rfl, rfl, rfl⟩
          | reprice hprice => exact (ih rest).cons ⟨rfl, rfl, rfl⟩
          | fill hfill hepoch =>
              have hkept := hfill.kept
              refine (ih rest).cons ⟨?_, ?_, ?_⟩ <;> rw [hkept]
              rfl
          | cancel => cases (MarketStep.gone rest).2
          | cleanUp hexpires hepoch => cases (MarketStep.gone rest).2

theorem MarketStep.born {placed : StandingOrder} {moves : List MarketMove}
    {l : Life StandingOrder}
    (h : Trace (MarketStep ref) (.live placed) moves l) : l ≠ .unborn := by
  refine h.preserves (P := fun l => l ≠ .unborn) ?_ ?_
  · rintro l mv l' - hs rfl
    cases hs
  · intro hunborn
    cases hunborn

/-- Every move on a page was made on the order as its moves before it had
left it. -/
theorem MarketStep.at {placed : StandingOrder} {before rest : List MarketMove}
    {mv : MarketMove} {l : Life StandingOrder}
    (h : Trace (MarketStep ref) (.live placed) (before ++ mv :: rest) l) :
    ∃ o l', placed.After before o ∧ MarketStep ref (.live o) mv l'
      ∧ Trace (MarketStep ref) l' rest l := by
  obtain ⟨t, hbefore, hafter⟩ := h.split
  cases hafter with
  | cons hR hrest =>
      cases t with
      | unborn => exact absurd rfl (MarketStep.born hbefore)
      | live o => exact ⟨o, _, MarketStep.after hbefore, hR, hrest⟩
      | gone => cases hR

-- ========================================================= the accounting

/-- A fill on the page: the trade it was, on the order as it stood. -/
structure FilledOn (ref : MarketRef) (placed : StandingOrder)
    (before : List MarketMove) (order after : StandingOrder)
    (taker admin : Address) (epoch given : U64) (sent : List Transfer) :
    Prop where
  stood : placed.After before order
  trade : ∃ f : Fill, f.taker = taker ∧ f.admin = admin
    ∧ f.OnOrder ref order after given sent
  escrow_balanced :
    order.escrow.toNat = after.escrow.toNat + sentOf ref.escrowed sent
  given_balanced : given.toNat = sentOf ref.given sent
  not_expired : ∀ expires, placed.expiresEpoch = some expires →
    epoch < expires

/-- The end of an order: all it held, sent to its owner. -/
structure RefundedOn (ref : MarketRef) (placed : StandingOrder)
    (before : List MarketMove) (mv : MarketMove) (sent : List Transfer) :
    Prop where
  all_held : ∃ o, placed.After before o ∧ sent = o.refund ref.escrowed
  to_owner : ∀ t ∈ sent,
    t.asset = ref.escrowed ∧ t.recipient = placed.owner
  by_owner : ∀ sender, mv = .cancelled sender sent → sender = placed.owner
  when_due : ∀ epoch, mv = .cleanedUp epoch sent →
    ∃ expires, placed.expiresEpoch = some expires ∧ expires ≤ epoch

structure MarketAccount (m : Market) (ref : MarketRef)
    (placed : StandingOrder) (later : List MarketMove) : Prop where
  conserved : held (m.life ref)
      + (later.map (MarketMove.paidOut ref.escrowed)).sum
      + (later.map (MarketMove.refunded ref.escrowed)).sum
    = placed.escrow.toNat + (later.map MarketMove.putIn).sum
  standing : ∀ o, m.get ref = some o → placed.After later o
  fills : ∀ before order after taker admin epoch given sent rest,
    later = before ++ .filled order after taker admin epoch given sent
        :: rest →
      FilledOn ref placed before order after taker admin epoch given sent
  refunds : ∀ before mv sent rest, later = before ++ mv :: rest →
    mv.refund? = some sent → rest = [] ∧ m.get ref = none
      ∧ RefundedOn ref placed before mv sent
  ended : m.get ref = none → ∃ mv ∈ later, mv.refund?.isSome

section
variable {placed : StandingOrder} {l : Life StandingOrder}

theorem FilledOn.of_trace {before rest : List MarketMove}
    {order after : StandingOrder} {taker admin : Address}
    {epoch given : U64} {sent : List Transfer}
    (h : Trace (MarketStep ref) (.live placed)
      (before ++ .filled order after taker admin epoch given sent :: rest)
      l) :
    FilledOn ref placed before order after taker admin epoch given sent := by
  obtain ⟨o, l', hstood, hR, -⟩ := MarketStep.at h
  cases hR with
  | fill hfill hepoch =>
      exact ⟨hstood, ⟨_, rfl, rfl, hfill⟩, hfill.escrow_balanced,
        hfill.given_balanced, hstood.expires_eq ▸ hepoch⟩

theorem RefundedOn.of_trace {before rest : List MarketMove}
    {mv : MarketMove} {sent : List Transfer}
    (h : Trace (MarketStep ref) (.live placed) (before ++ mv :: rest) l)
    (hsent : mv.refund? = some sent) :
    rest = [] ∧ l = .gone ∧ RefundedOn ref placed before mv sent := by
  obtain ⟨o, l', hstood, hR, hrest⟩ := MarketStep.at h
  have hto : ∀ t ∈ o.refund ref.escrowed,
      t.asset = ref.escrowed ∧ t.recipient = placed.owner := by
    intro t ht
    rw [← hstood.owner_eq]
    exact mem_refund ht
  cases hR with
  | topUp | reprice | fill => cases hsent
  | cancel =>
      cases hsent
      obtain ⟨hnil, hgone⟩ := MarketStep.gone hrest
      refine ⟨hnil, hgone, ⟨o, hstood, rfl⟩, hto, ?_, ?_⟩
      · rintro sender ⟨⟩
        exact hstood.owner_eq
      · rintro epoch ⟨⟩
  | cleanUp hexpires hepoch =>
      cases hsent
      obtain ⟨hnil, hgone⟩ := MarketStep.gone hrest
      refine ⟨hnil, hgone, ⟨o, hstood, rfl⟩, hto, ?_, ?_⟩
      · rintro sender ⟨⟩
      · rintro epoch ⟨⟩
        exact ⟨_, hstood.expires_eq ▸ hexpires, hepoch⟩

/-- An order that is gone has its refund on the page. -/
theorem MarketStep.ended {later : List MarketMove}
    (h : Trace (MarketStep ref) (.live placed) later .gone) :
    ∃ mv ∈ later, mv.refund?.isSome := by
  induction later generalizing placed with
  | nil => cases h
  | cons mv later ih =>
      cases h with
      | cons hR rest =>
          cases hR with
          | cancel | cleanUp => exact ⟨_, List.mem_cons_self .., rfl⟩
          | topUp | reprice | fill =>
              obtain ⟨mv, hmem, hsome⟩ := ih rest
              exact ⟨mv, List.mem_cons_of_mem _ hmem, hsome⟩

end

theorem MarketAccount.of_trace {m : Market} {placed : StandingOrder}
    {later : List MarketMove}
    (h : Trace (MarketStep ref) .unborn (.placed placed :: later)
      (m.life ref))
    (hlater : Trace (MarketStep ref) (.live placed) later (m.life ref)) :
    MarketAccount m ref placed later := by
  constructor
  case conserved =>
    have hsum := MarketStep.conserved h
    simp only [List.map_cons, List.sum_cons, MarketMove.paidOut,
      MarketMove.refunded, MarketMove.refund?, MarketMove.putIn,
      Nat.zero_add] at hsum
    exact hsum
  case standing =>
    intro o ho
    unfold Market.get at ho
    cases hl : m.life ref with
    | live o' =>
        rw [hl] at ho hlater
        cases ho
        exact MarketStep.after hlater
    | unborn | gone =>
        rw [hl] at ho
        cases ho
  case fills =>
    rintro before order after taker admin epoch given sent rest rfl
    exact .of_trace hlater
  case refunds =>
    rintro before mv sent rest rfl hsent
    obtain ⟨hnil, hgone, hrefund⟩ := RefundedOn.of_trace hlater hsent
    refine ⟨hnil, ?_, hrefund⟩
    unfold Market.get
    rw [hgone]
    rfl
  case ended =>
    intro hnone
    unfold Market.get at hnone
    cases hl : m.life ref with
    | unborn => exact absurd hl (MarketStep.born hlater)
    | live o =>
        rw [hl] at hnone
        cases hnone
    | gone =>
        rw [hl] at hlater
        exact MarketStep.ended hlater

-- ================================================================= expiry

def MarketRef.cleanup : MarketRef → MarketCall
  | .buy id => .cleanupExpiredBuyOrder id
  | .sell id => .cleanupExpiredSellOrder id

/-- `units` is what a fill of a sell order names; one of a buy order sells
the whole coin. -/
def MarketRef.fill (ref : MarketRef) (pool : ID) (given units : U64) :
    MarketCall :=
  match ref with
  | .buy id => .fillBuyOrder id pool given
  | .sell id => .fillSellOrder id pool given units

def StandingOrder.Due (o : StandingOrder) (epoch : U64) : Prop :=
  ∃ expires, o.expiresEpoch = some expires ∧ expires ≤ epoch

theorem StandingOrder.cleanupExpired_eq_error {o : StandingOrder}
    {asset : Asset} {ctx : TxContext} (h : ¬ o.Due ctx.epoch) :
    o.cleanupExpired asset ctx = .error (.market .ENotExpired) := by
  simp only [StandingOrder.cleanupExpired, bind_eq_error, fetch_eq_error,
    fetch_eq_ok, require_eq_error, pure_ne_error, and_false, or_false,
    exists_false, and_true]
  cases hexp : o.expiresEpoch with
  | none => exact .inl rfl
  | some expires => exact .inr ⟨expires, rfl, fun hle => h ⟨expires, hexp, hle⟩⟩

/-- What the expiry checks let through: the cleanup of an order that is
due, a fill of one that is not. -/
structure ExpiryGate (m : Market) (ref : MarketRef) (o : StandingOrder) :
    Prop where
  cleanup_due : o.Due m.ctx.epoch → ∃ r, m.exec ref.cleanup = .ok r
  cleanup_not_due : ¬ o.Due m.ctx.epoch →
    m.exec ref.cleanup = .error (.market .ENotExpired)
  fill : ∀ pool given units, (m.feePools.get pool).isSome →
    (m.exec (ref.fill pool given units) = .error (.market .EOrderExpired)
      ↔ o.Due m.ctx.epoch)

section
variable {m : Market} {o : StandingOrder}

theorem Market.exec_cleanup_due (ho : m.get ref = some o)
    (hdue : o.Due m.ctx.epoch) : ∃ r, m.exec ref.cleanup = .ok r := by
  cases ref with
  | buy id =>
      obtain ⟨b, hb, rfl⟩ := Market.get_buy.mp ho
      have hclean : cleanupExpiredBuyOrder b m.ctx = .ok (b.refund .quote) :=
        StandingOrder.cleanupExpired_eq_ok.mpr ⟨hdue, rfl⟩
      exact ⟨_, (load_bind hb _).trans (bind_eq_ok.mpr ⟨_, hclean, rfl⟩)⟩
  | sell id =>
      obtain ⟨b, hb, rfl⟩ := Market.get_sell.mp ho
      have hclean : cleanupExpiredSellOrder b m.ctx = .ok (b.refund .hashShare) :=
        StandingOrder.cleanupExpired_eq_ok.mpr ⟨hdue, rfl⟩
      exact ⟨_, (load_bind hb _).trans (bind_eq_ok.mpr ⟨_, hclean, rfl⟩)⟩

theorem Market.exec_cleanup_not_due (ho : m.get ref = some o)
    (hnot : ¬ o.Due m.ctx.epoch) :
    m.exec ref.cleanup = .error (.market .ENotExpired) := by
  cases ref with
  | buy id =>
      obtain ⟨b, hb, rfl⟩ := Market.get_buy.mp ho
      refine (load_bind hb _).trans (bind_eq_error.mpr (.inl ?_))
      exact StandingOrder.cleanupExpired_eq_error hnot
  | sell id =>
      obtain ⟨b, hb, rfl⟩ := Market.get_sell.mp ho
      refine (load_bind hb _).trans (bind_eq_error.mpr (.inl ?_))
      exact StandingOrder.cleanupExpired_eq_error hnot

theorem Market.exec_fill_expired (ho : m.get ref = some o) {pool : ID}
    {p : MarketFeePool} (hp : m.feePools.get pool = some p)
    (given units : U64) :
    m.exec (ref.fill pool given units) = .error (.market .EOrderExpired)
      ↔ o.Due m.ctx.epoch := by
  cases ref with
  | buy id =>
      obtain ⟨b, hb, rfl⟩ := Market.get_buy.mp ho
      show (load _ _ >>= fun _ => load _ _ >>= _) = _ ↔ _
      rw [load_bind hb, load_bind hp, bind_eq_error, fillBuyOrder_expired]
      simp only [pure_ne_error, and_false, exists_false, or_false]
      rfl
  | sell id =>
      obtain ⟨b, hb, rfl⟩ := Market.get_sell.mp ho
      show (load _ _ >>= fun _ => load _ _ >>= _) = _ ↔ _
      rw [load_bind hb, load_bind hp, bind_eq_error, fillSellOrder_expired]
      simp only [pure_ne_error, and_false, exists_false, or_false]
      rfl

end

/-- Every order of either book has its account, in every run, and of a live
one the expiry checks let exactly one of fill and cleanup through. -/
theorem market_accounting {sender : Address}
    {p : Market × (MarketRef → List MarketMove)}
    (h : Machine.Reach (marketJournal sender).kept p) (ref : MarketRef) :
    ((p.2 ref = [] ∧ p.1.life ref = .unborn)
      ∨ ∃ placed later, p.2 ref = .placed placed :: later
        ∧ MarketAccount p.1 ref placed later)
      ∧ ∀ o, p.1.get ref = some o → ExpiryGate p.1 ref o := by
  refine ⟨?_, fun o ho => ⟨Market.exec_cleanup_due ho,
    Market.exec_cleanup_not_due ho, fun pool given units hp => ?_⟩⟩
  · have htrace : Trace (MarketStep ref) .unborn (p.2 ref) (p.1.life ref) := by
      have htrace := Machine.Journal.trace h ref
      cases ref <;> exact htrace
    rcases MarketStep.page htrace with hempty | ⟨placed, later, hpage, hlater⟩
    · exact .inl hempty
    · rw [hpage] at htrace
      exact .inr ⟨placed, later, hpage, .of_trace htrace hlater⟩
  · obtain ⟨pool', hpool⟩ := Option.isSome_iff_exists.mp hp
    exact Market.exec_fill_expired ho hpool given units

/-- A bid topped up, filled, repriced, filled again and cleaned up, and an
ask filled by a taker who overpays and then cancelled. -/
def marketLife : List MarketCall :=
  [.beginTx 9 0 0,
   .createFeePool,
   .beginTx 1 1 0,
   .placeBuyOrder 7 3 1_000,
   .topUpBuyOrder 0 500,
   .beginTx 2 1 0,
   .placeSellOrder 11 0 40,
   .fillBuyOrder 0 0 50,
   .beginTx 1 2 0,
   .updateBuyOrderPrice 0 13,
   .fillSellOrder 0 0 200 15,
   .beginTx 2 2 0,
   .fillBuyOrder 0 0 31,
   .cancelSellOrder 0,
   .beginTx 3 3 0,
   .cleanupExpiredBuyOrder 0]

theorem market_accounting_marketLife :
    ∃ p, Machine.Reach (marketJournal 9).kept p
      ∧ p.2 (.sell 0) = [
          .placed ⟨2, 11, 40, none⟩,
          .filled ⟨2, 11, 40, none⟩ ⟨2, 11, 25, none⟩ 1 9 2 200
            [⟨.hashShare, 1, 15⟩, ⟨.quote, 2, 162⟩, ⟨.quote, 9, 3⟩,
             ⟨.quote, 1, 35⟩],
          .cancelled 2 [⟨.hashShare, 2, 25⟩]]
      ∧ MarketAccount p.1 (.sell 0) ⟨2, 11, 40, none⟩ [
          .filled ⟨2, 11, 40, none⟩ ⟨2, 11, 25, none⟩ 1 9 2 200
            [⟨.hashShare, 1, 15⟩, ⟨.quote, 2, 162⟩, ⟨.quote, 9, 3⟩,
             ⟨.quote, 1, 35⟩],
          .cancelled 2 [⟨.hashShare, 2, 25⟩]] := by
  have hrun : (marketJournal 9).kept.endsIn marketLife (fun p =>
      decide (p.2 (.sell 0) = [
          .placed ⟨2, 11, 40, none⟩,
          .filled ⟨2, 11, 40, none⟩ ⟨2, 11, 25, none⟩ 1 9 2 200
            [⟨.hashShare, 1, 15⟩, ⟨.quote, 2, 162⟩, ⟨.quote, 9, 3⟩,
             ⟨.quote, 1, 35⟩],
          .cancelled 2 [⟨.hashShare, 2, 25⟩]])) = true := by
    decide +kernel
  obtain ⟨p, hp, hcheck⟩ := Machine.reach_of_endsIn hrun
  have hpage := of_decide_eq_true hcheck
  refine ⟨p, hp, hpage, ?_⟩
  rcases (market_accounting hp (.sell 0)).1 with
    ⟨hnil, -⟩ | ⟨placed, later, hpage', hacc⟩
  · exact absurd (hpage.symm.trans hnil) (List.cons_ne_nil _ _)
  · cases hpage.symm.trans hpage'
    exact hacc

end M1n3Protocol
