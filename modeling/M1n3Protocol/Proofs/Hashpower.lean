/-
Hashpower orders: what goes into an order, what its shares are paid, and
what comes back.

# The life of one order

An order's page starts with its placing. From there the order keeps its
buyer, its expiry and its kind, its price if that is fixed, and every
unit that came in has been paid out, is still there, or was refunded
when the order was cancelled. All of that is said of traces of
`OrderStep` alone and proved once for both kinds of order.

# What the page says of the chain

A payment on the page names an accepted share. `ShareOf` is what holds of
that share when it is paid and ever after: what it was worth at the
order's price of that moment, and which template it was mined on.
-/
import M1n3Protocol.Chain.OrderJournal
import M1n3Protocol.Proofs.Rounds

namespace M1n3Protocol

open Checked ObjStore

-- ====================================================== the page's totals

def OrderMove.topUp : OrderMove → Nat
  | .toppedUp payment => payment.toNat
  | _ => 0

def OrderMove.payout : OrderMove → Nat
  | .paid _ _ _ payout => payout.toNat
  | _ => 0

def topUps (later : List OrderMove) : Nat := (later.map OrderMove.topUp).sum

def payouts (later : List OrderMove) : Nat :=
  (later.map OrderMove.payout).sum

-- ================================================== the life of one order

/-- What no call changes of an order. -/
structure AnyOrder.Kept (placed o : AnyOrder) : Prop where
  buyer : o.buyer = placed.buyer
  expiresEpoch : o.expiresEpoch = placed.expiresEpoch
  isDynamic : o.isDynamic = placed.isDynamic
  template : o.template = placed.template
  price : placed.isDynamic = false →
    o.pricePerDifficulty = placed.pricePerDifficulty

def OrderView.Within (placed : AnyOrder) (v : OrderView) : Prop :=
  match v.life with
  | .unborn => False
  | .live o => placed.Kept o
  | .gone => True

def OrderMove.Within (placed : AnyOrder) : OrderMove → Prop
  | .placed _ => False
  | .toppedUp _ => True
  | .repriced _ => placed.isDynamic = true
  | .paid _ o epoch _ => placed.Kept o
      ∧ ∀ cutoff, placed.expiresEpoch = some cutoff → epoch ≤ cutoff
  | .cancelled recipient _ => recipient = placed.buyer

theorem OrderStep.within {placed : AnyOrder} {v v' : OrderView}
    {mv : OrderMove} (hv : v.Within placed) (hs : OrderStep v mv v') :
    v'.Within placed ∧ mv.Within placed := by
  cases hs with
  | place => exact hv.elim
  | topUp => exact ⟨{ hv with }, trivial⟩
  | reprice hdynamic =>
      have hkept : AnyOrder.Kept placed _ := hv
      rw [hkept.isDynamic] at hdynamic
      exact ⟨{ hkept with price := fun h => by rw [hdynamic] at h; cases h },
        hdynamic⟩
  | pay hbudget hepoch =>
      have hkept : AnyOrder.Kept placed _ := hv
      exact ⟨{ hkept with }, hkept, hkept.expiresEpoch ▸ hepoch⟩
  | cancel =>
      have hkept : AnyOrder.Kept placed _ := hv
      exact ⟨trivial, hkept.buyer⟩

/-- What a stretch of a live order's page leaves of its budget: still
there, or refunded when the stretch ends in a cancellation. -/
structure OrderRest (o : AnyOrder) (n : Nat) (later : List OrderMove)
    (v : OrderView) (rest : U64) : Prop where
  budget : rest.toNat + payouts later = o.budget.toNat + topUps later
  paid : v.paid = n + payouts later
  where_now : (∃ o', v.life = .live o' ∧ o'.budget = rest
      ∧ ∀ a r, OrderMove.cancelled a r ∉ later)
    ∨ (v.life = .gone ∧ (∃ a, OrderMove.cancelled a rest ∈ later)
      ∧ ∀ a r, OrderMove.cancelled a r ∈ later → r = rest)

/-- A move that leaves the order live, and the stretch after it. -/
theorem OrderRest.cons {o o' : AnyOrder} {n n' : Nat} {mv : OrderMove}
    {later : List OrderMove} {v : OrderView} {rest : U64}
    (h : OrderRest o' n' later v rest)
    (hbudget : o'.budget.toNat + mv.payout = o.budget.toNat + mv.topUp)
    (hpaid : n' = n + mv.payout) (hlive : ∀ a r, mv ≠ .cancelled a r) :
    OrderRest o n (mv :: later) v rest := by
  have hb := h.budget
  have hp := h.paid
  have hout : payouts (mv :: later) = mv.payout + payouts later := by
    simp [payouts]
  have hin : topUps (mv :: later) = mv.topUp + topUps later := by
    simp [topUps]
  have hmem : ∀ a r, OrderMove.cancelled a r ∈ mv :: later →
      OrderMove.cancelled a r ∈ later := by
    intro a r hm
    rcases List.mem_cons.mp hm with heq | hm
    · exact absurd heq.symm (hlive a r)
    · exact hm
  refine ⟨by omega, by omega, ?_⟩
  rcases h.where_now with ⟨o'', hl, hr, hno⟩ | ⟨hl, ⟨a, ha⟩, hall⟩
  · exact .inl ⟨o'', hl, hr, fun a r hm => hno a r (hmem a r hm)⟩
  · exact .inr ⟨hl, ⟨a, List.mem_cons_of_mem _ ha⟩,
      fun a r hm => hall a r (hmem a r hm)⟩

/-- Nothing follows a cancellation. -/
theorem OrderStep.gone {n : Nat} {later : List OrderMove} {v : OrderView}
    (h : Trace OrderStep ⟨.gone, n⟩ later v) : later = [] ∧ v = ⟨.gone, n⟩ := by
  cases h with
  | nil => exact ⟨rfl, rfl⟩
  | cons hR => cases hR

theorem OrderStep.rest {o : AnyOrder} {n : Nat} {later : List OrderMove}
    {v : OrderView} (h : Trace OrderStep ⟨.live o, n⟩ later v) :
    ∃ rest, OrderRest o n later v rest := by
  generalize hs : (⟨.live o, n⟩ : OrderView) = s at h
  induction h generalizing o n with
  | nil =>
      subst hs
      exact ⟨o.budget, rfl, rfl, .inl ⟨o, rfl, rfl, fun _ _ h => by cases h⟩⟩
  | cons hR htail ih =>
      subst hs
      cases hR with
      | topUp hbudget =>
          obtain ⟨rest, hrest⟩ := ih rfl
          exact ⟨rest, hrest.cons hbudget rfl fun _ _ h => by cases h⟩
      | reprice =>
          obtain ⟨rest, hrest⟩ := ih rfl
          exact ⟨rest, hrest.cons rfl rfl fun _ _ h => by cases h⟩
      | pay hbudget =>
          obtain ⟨rest, hrest⟩ := ih rfl
          exact ⟨rest, hrest.cons hbudget rfl fun _ _ h => by cases h⟩
      | cancel =>
          obtain ⟨rfl, rfl⟩ := OrderStep.gone htail
          refine ⟨o.budget, rfl, rfl,
            .inr ⟨rfl, ⟨_, List.mem_singleton_self _⟩, fun a r hm => ?_⟩⟩
          cases List.mem_singleton.mp hm
          rfl

/-- A page is empty, or starts with the placing of its order. -/
theorem OrderStep.page {page : List OrderMove} {v : OrderView}
    (h : Trace OrderStep ⟨.unborn, 0⟩ page v) :
    (page = [] ∧ v = ⟨.unborn, 0⟩)
      ∨ ∃ placed later, page = .placed placed :: later
        ∧ Trace OrderStep ⟨.live placed, 0⟩ later v := by
  cases h with
  | nil => exact .inl ⟨rfl, rfl⟩
  | cons hR htail =>
      cases hR with
      | place => exact .inr ⟨_, _, rfl, htail⟩

-- ======================================================= the paid shares

/-- The share a payment was for, and what it was paid. -/
structure ShareOf (m : Mining) (ref : OrderRef) (share : ID) (o : AnyOrder)
    (payout : U64) (e : ShareEntry) : Prop where
  get : m.shares.get share = some e
  payment : e.payment = some ⟨ref, payout⟩
  payout_eq : payout = computePayout e.difficulty o.pricePerDifficulty
  mined : ∃ tid t, m.templates.get tid = some t
    ∧ t.template.owner = o.buyer ∧ m.Rooted tid e.mined
    ∧ ∀ pinned, o.template = some pinned → tid = pinned

variable {H : HashFn} {publisher : Address}

theorem Mining.Rooted.mono {m m' : Mining} {tid : ID} {mined : TemplateRef}
    (h : m.Rooted tid mined)
    (hkeep : ∀ i d, m.derived.get i = some d → m'.derived.get i = some d) :
    m'.Rooted tid mined := by
  cases mined with
  | direct id => exact h
  | derived id =>
      obtain ⟨d, hd, hpid⟩ := h
      exact ⟨d, hkeep id d hd, hpid⟩

/-- A pinned order's template is its buyer's. -/
def PinnedToOwn (w : World) : Prop :=
  ∀ ref o, w.orders.get ref = some o → ∀ tid, o.template = some tid →
    ∃ t, w.mining.templates.get tid = some t ∧ t.template.owner = o.buyer

theorem Orders.get_eq_life (o : Orders) (ref : OrderRef) :
    o.get ref = (o.life ref).get? := by
  cases ref <;> simp [Orders.get, Orders.life, get?_map]

theorem World.orders_get_eq_view (w : World) (ref : OrderRef) :
    w.orders.get ref = (w.orderView ref).life.get? :=
  w.orders.get_eq_life ref

theorem OrderStep.live_from {v v' : OrderView} {mv : OrderMove}
    {o : AnyOrder} (hs : OrderStep v mv v') (ho : v'.life.get? = some o) :
    (∃ o₀, v.life.get? = some o₀ ∧ o₀.buyer = o.buyer
        ∧ o₀.template = o.template) ∨ mv = .placed o := by
  cases hs with
  | place =>
      cases ho
      exact .inr rfl
  | topUp | reprice | pay =>
      cases ho
      exact .inl ⟨_, rfl, rfl, rfl⟩
  | cancel => cases ho

theorem World.placed_on_own {w w' : World} {c : Call} {ref : OrderRef}
    {o : AnyOrder} (hs : (contract H publisher).step w c = .ok w')
    (hpost : c.post w w' = some (ref, .placed o)) (tid : ID)
    (htid : o.template = some tid) :
    ∃ t, w.mining.templates.get tid = some t
      ∧ t.template.owner = o.buyer := by
  cases c with
  | order oc =>
      simp only [contract, World.exec, bind_eq_ok, pure_eq_ok] at hs
      obtain ⟨o', hexec, rfl⟩ := hs
      obtain ⟨ref', mv', hmove, -, hown⟩ := Orders.exec_moves hexec
      cases hmove.symm.trans hpost
      exact hown o tid rfl htid
  | pay pc =>
      obtain ⟨order, e, payout, hpaid⟩ := World.pay_paid hs
      simp [Call.post, PayCall.post, hpaid.get, hpaid.shares, hpaid.payment]
        at hpost
  | _ => cases hpost

/-- A live order was there with the same buyer and pin, or it has just
been placed on its buyer's template. -/
theorem World.exec_order_from {w w' : World} {c : Call}
    (hs : (contract H publisher).step w c = .ok w') {ref : OrderRef}
    {o : AnyOrder} (ho : w'.orders.get ref = some o) :
    (∃ o₀, w.orders.get ref = some o₀ ∧ o₀.buyer = o.buyer
        ∧ o₀.template = o.template)
      ∨ ∀ tid, o.template = some tid →
        ∃ t, w.mining.templates.get tid = some t
          ∧ t.template.owner = o.buyer := by
  rw [World.orders_get_eq_view] at ho ⊢
  cases hpost : (orderJournal H publisher).post w c w' with
  | none =>
      rw [show w'.orderView = w.orderView from
        (orderJournal H publisher).quiet _ _ _ hs hpost] at ho
      exact .inl ⟨o, ho, rfl, rfl⟩
  | some km =>
      obtain ⟨k, mv⟩ := km
      obtain ⟨hmove, hother⟩ :=
        (orderJournal H publisher).moved _ _ _ _ _ hs hpost
      by_cases hk : ref = k
      · subst hk
        rcases OrderStep.live_from hmove ho with hold | rfl
        · exact .inl hold
        · exact .inr (World.placed_on_own hs hpost)
      · rw [show w'.orderView ref = w.orderView ref from hother ref hk] at ho
        exact .inl ⟨o, ho, rfl, rfl⟩

theorem pinnedToOwn_of_reach {w : World}
    (h : Machine.Reach (contract H publisher) w) : PinnedToOwn w := by
  refine Machine.ReachVia.invariant (I := PinnedToOwn) ?_ ?_ h
  · intro ref o ho
    cases ref <;> cases ho
  · intro w c w' hw _ hs ref o ho tid htid
    obtain ⟨hkeep, -⟩ := World.exec_templates_kept hs
    rcases World.exec_order_from hs ho with
      ⟨o₀, ho₀, hbuyer, hpin⟩ | hplaced
    · obtain ⟨t, ht, howner⟩ := hw ref o₀ ho₀ tid (hpin.trans htid)
      exact ⟨t, hkeep tid t ht, howner.trans hbuyer⟩
    · obtain ⟨t, ht, howner⟩ := hplaced tid htid
      exact ⟨t, hkeep tid t ht, howner⟩

theorem ShareOf.mono {w w' : World} {c : Call} {ref : OrderRef} {share : ID}
    {o : AnyOrder} {payout : U64} {e : ShareEntry}
    (hs : w.exec H c = .ok w') (h : ShareOf w.mining ref share o payout e) :
    ∃ e', ShareOf w'.mining ref share o payout e' := by
  obtain ⟨n, he⟩ := World.exec_share_kept hs h.get
  obtain ⟨htemplates, hderived⟩ := World.exec_templates_kept hs
  obtain ⟨tid, t, ht, howner, hroot, hpin⟩ := h.mined
  exact ⟨_, he, h.payment, h.payout_eq, tid, t, htemplates tid t ht, howner,
    hroot.mono hderived, hpin⟩

/-- A paid share is one, when the pinned orders are on their buyers' own
templates. -/
theorem World.Paid.shareOf {w w' : World} {c : PayCall} {o : AnyOrder}
    {e : ShareEntry} {payout : U64} (hw : PinnedToOwn w)
    (hs : w.exec H (.pay c) = .ok w') (h : w.Paid H c w' o e payout) :
    ShareOf w'.mining c.order w.mining.shares.next o payout e := by
  obtain ⟨htemplates, hderived⟩ := World.exec_templates_kept hs
  have hget : w'.mining.shares.get w.mining.shares.next = some e := by
    rw [h.shares]
    exact get_alloc_self ..
  refine ⟨hget, h.payment, h.payout_eq, ?_⟩
  obtain ⟨tid, hroot, hpin | ⟨hnone, t, ht, howner⟩⟩ := h.rooted
  · obtain ⟨t, ht, howner⟩ := hw c.order o h.get tid hpin
    refine ⟨tid, t, htemplates tid t ht, howner, hroot.mono hderived, ?_⟩
    intro pinned hpinned
    exact Option.some.inj (hpin.symm.trans hpinned)
  · refine ⟨tid, t, htemplates tid t ht, howner, hroot.mono hderived, ?_⟩
    intro pinned hpinned
    rw [hnone] at hpinned
    cases hpinned

theorem shareOf_of_posted {p : World × (OrderRef → List OrderMove)}
    (h : Machine.Reach (orderJournal H publisher).kept p) (ref : OrderRef)
    {share : ID} {o : AnyOrder} {epoch payout : U64}
    (hmem : OrderMove.paid share o epoch payout ∈ p.2 ref) :
    ∃ e, ShareOf p.1.mining ref share o payout e := by
  refine Machine.Journal.posted (J := orderJournal H publisher)
    (I := PinnedToOwn)
    (P := fun w ref mv => ∀ share o epoch payout,
      mv = .paid share o epoch payout →
        ∃ e, ShareOf w.mining ref share o payout e)
    (fun w hw => pinnedToOwn_of_reach hw) ?_ ?_ h ref _ hmem _ _ _ _ rfl
  · intro w c w' ref mv _ hs hkept share o epoch payout hmv
    obtain ⟨e, he⟩ := hkept share o epoch payout hmv
    exact he.mono hs
  · rintro w c w' ref mv hown hs hpost share o epoch payout rfl
    cases c with
    | order oc =>
        cases oc <;>
          simp [orderJournal, Call.post, OrderCall.post,
            Option.bind_eq_some_iff] at hpost
    | pay pc =>
        obtain ⟨order, e, payout', hpaid⟩ := World.pay_paid hs
        simp only [orderJournal, Call.post, PayCall.post, hpaid.get,
          hpaid.shares, get_alloc_self, hpaid.payment, Option.bind_eq_bind,
          Option.bind_some, Option.pure_def, Option.some.injEq] at hpost
        cases hpost
        exact ⟨e, hpaid.shareOf hown hs⟩
    | _ => cases hpost

-- ======================================================== the accounting

/-- The account of one order: what went in, what its shares were paid,
what is left, and where a refund went. -/
structure OrderAccount (w : World) (ref : OrderRef) (placed : AnyOrder)
    (later : List OrderMove) : Prop where
  budget : ∀ o, w.orders.get ref = some o →
    o.budget.toNat + payouts later = placed.budget.toNat + topUps later
  kept : ∀ o, w.orders.get ref = some o → placed.Kept o
  bounded : payouts later ≤ placed.budget.toNat + topUps later
  moves : ∀ mv ∈ later, mv.Within placed
  payments : ∀ share o epoch payout,
    OrderMove.paid share o epoch payout ∈ later →
      ∃ e, ShareOf w.mining ref share o payout e
  all_paid : w.mining.shares.sum (ShareEntry.paidFrom ref) = payouts later
  refund : ∀ recipient amount,
    OrderMove.cancelled recipient amount ∈ later →
      w.orders.get ref = none
        ∧ amount.toNat + payouts later = placed.budget.toNat + topUps later
  ended : w.orders.get ref = none →
    ∃ amount, OrderMove.cancelled placed.buyer amount ∈ later

theorem OrderAccount.of_trace {w : World} {ref : OrderRef}
    {placed : AnyOrder} {later : List OrderMove}
    (h : Trace OrderStep ⟨.live placed, 0⟩ later (w.orderView ref))
    (hshares : ∀ share o epoch payout,
      OrderMove.paid share o epoch payout ∈ later →
        ∃ e, ShareOf w.mining ref share o payout e) :
    OrderAccount w ref placed later := by
  have hplaced : OrderView.Within placed ⟨.live placed, 0⟩ :=
    ⟨rfl, rfl, rfl, rfl, fun _ => rfl⟩
  have hnow := h.preserves (P := OrderView.Within placed)
    (fun _ _ _ hv hs => (hs.within hv).1) hplaced
  have hmoves := h.labels (P := OrderView.Within placed)
    (fun _ _ _ hv hs => hs.within hv) hplaced
  obtain ⟨rest, hrest⟩ := OrderStep.rest h
  have hpaid := hrest.paid
  have hbudget := hrest.budget
  rw [Nat.zero_add] at hpaid
  have hlive : ∀ o, w.orders.get ref = some o →
      (w.orderView ref).life = .live o := by
    intro o ho
    rw [World.orders_get_eq_view] at ho
    generalize (w.orderView ref).life = l at ho ⊢
    cases l <;> cases ho
    rfl
  refine ⟨fun o ho => ?_, fun o ho => ?_, by omega, hmoves, hshares, hpaid,
    fun recipient amount hc => ?_, fun hnone => ?_⟩
  · rcases hrest.where_now with ⟨o', hl, rfl, -⟩ | ⟨hl, -⟩
    · cases (hlive o ho).symm.trans hl
      exact hbudget
    · cases (hlive o ho).symm.trans hl
  · unfold OrderView.Within at hnow
    rw [hlive o ho] at hnow
    exact hnow
  · rcases hrest.where_now with ⟨-, -, -, hno⟩ | ⟨hl, -, hall⟩
    · exact absurd hc (hno recipient amount)
    · rw [World.orders_get_eq_view, hl, hall recipient amount hc]
      exact ⟨rfl, hbudget⟩
  · rw [World.orders_get_eq_view] at hnone
    rcases hrest.where_now with ⟨o', hl, -, -⟩ | ⟨-, ⟨a, ha⟩, -⟩
    · rw [hl] at hnone
      cases hnone
    · have hbuyer : a = placed.buyer := hmoves _ ha
      exact ⟨rest, hbuyer ▸ ha⟩

theorem OrderStep.payout_le {v v' : OrderView} {share : ID} {o : AnyOrder}
    {epoch payout : U64} (h : OrderStep v (.paid share o epoch payout) v') :
    payout ≤ o.budget := by
  cases h with
  | pay hbudget =>
      rw [BitVec.le_def]
      omega

/-- Every order of either kind has its account, in every run, and a share
its budget does not cover is turned down. -/
theorem order_accounting {p : World × (OrderRef → List OrderMove)}
    (h : Machine.Reach (orderJournal H publisher).kept p) :
    (∀ ref, (p.2 ref = [] ∧ p.1.orders.get ref = none
        ∧ p.1.mining.shares.sum (ShareEntry.paidFrom ref) = 0)
      ∨ ∃ placed later, p.2 ref = .placed placed :: later
        ∧ OrderAccount p.1 ref placed later)
      ∧ ∀ c o job difficulty, p.1.orders.get c.order = some o →
        p.1.mining.job c.mined = some job →
        difficultyFromHash (job.shareHash H c.sub) = .ok difficulty →
        o.budget < computePayout difficulty o.pricePerDifficulty →
        ∃ abort, p.1.exec H (.pay c) = .error abort := by
  refine ⟨fun ref => ?_, ?_⟩
  · have htrace : Trace OrderStep ⟨.unborn, 0⟩ (p.2 ref)
        (p.1.orderView ref) := by
      have h := Machine.Journal.trace h ref
      cases ref <;> exact h
    rcases OrderStep.page htrace with ⟨hnil, hv⟩ | ⟨placed, later, hpage, hlater⟩
    · refine .inl ⟨hnil, ?_, congrArg OrderView.paid hv⟩
      rw [World.orders_get_eq_view, hv]
      rfl
    · refine .inr ⟨placed, later, hpage, .of_trace hlater ?_⟩
      intro share o epoch payout hmem
      have hposted : .paid share o epoch payout ∈ p.2 ref := by
        rw [hpage]
        exact List.mem_cons_of_mem _ hmem
      exact shareOf_of_posted h ref hposted
  · intro c o job d ho hjob hd hshort
    cases hexec : p.1.exec H (.pay c) with
    | error abort => exact ⟨abort, rfl⟩
    | ok w' =>
        obtain ⟨o', e, payout, hpaid⟩ := World.pay_paid hexec
        cases hpaid.get.symm.trans ho
        obtain ⟨job', hjob', hd'⟩ := hpaid.judged
        cases hjob'.symm.trans hjob
        cases hd'.symm.trans hd
        have hle := (hpaid.moved 0).step.payout_le
        rw [hpaid.payout_eq] at hle
        exact absurd hshort (BitVec.not_lt.mpr hle)

/-- An order placed, topped up and priced anew, a share paid from it, and
the rest taken back. -/
def orderLife : List Call :=
  [.admin (.registerTemplate block125552),
   .order (.placeHashpowerOrder 0 40_000_000_000 1 (some 3) true),
   .beginTx 1 1 0,
   .mining (.registerMiner []),
   .mining (.createRoundStats 0 0),
   .mining (.createShareDedup 0),
   .order (.topUpHashpowerOrder 0 60_000_000_000),
   .beginTx 0 2 0,
   .order (.updateHashpowerOrderPrice 0 2),
   .beginTx 1 3 0,
   .pay (.submitShareForPay 0 0 ⟨0, 0, 0⟩ solution125552),
   .beginTx 0 4 0,
   .order (.cancelHashpowerOrder 0)]

/-- Whether a page is that of this order. -/
def isOrderLife : List OrderMove → Bool
  | [.placed _, .toppedUp a, .repriced b, .paid c _ d e, .cancelled f g] =>
      decide (a = 60_000_000_000 ∧ b = 2 ∧ c = 0 ∧ d = 3
        ∧ e = 71_974_437_810 ∧ f = 0 ∧ g = 28_025_562_190)
  | _ => false

/-- In it the share is paid twice its difficulty, and the buyer gets back
what that leaves of the two payments. -/
theorem order_accounting_orderLife :
    ∃ p, Machine.Reach (orderJournal sha256 0).kept p
      ∧ ∃ placed o, p.2 (.hashpower 0)
          = [.placed placed, .toppedUp 60_000_000_000, .repriced 2,
             .paid 0 o 3 71_974_437_810, .cancelled 0 28_025_562_190]
        ∧ OrderAccount p.1 (.hashpower 0) placed
          [.toppedUp 60_000_000_000, .repriced 2,
           .paid 0 o 3 71_974_437_810, .cancelled 0 28_025_562_190] := by
  have hrun : (orderJournal sha256 0).kept.endsIn orderLife (fun p =>
      isOrderLife (p.2 (.hashpower 0))) = true := by
    decide +kernel
  obtain ⟨p, hp, hcheck⟩ := Machine.reach_of_endsIn hrun
  unfold isOrderLife at hcheck
  split at hcheck
  case h_1 placed a b c o d e f g hpage =>
    obtain ⟨rfl, rfl, rfl, rfl, rfl, rfl, rfl⟩ := of_decide_eq_true hcheck
    refine ⟨p, hp, placed, o, hpage, ?_⟩
    rcases (order_accounting hp).1 (.hashpower 0) with
      ⟨hnil, -⟩ | ⟨placed', later, hpage', hacc⟩
    · exact absurd (hpage.symm.trans hnil) (List.cons_ne_nil _ _)
    · cases hpage.symm.trans hpage'
      exact hacc
  case h_2 => cases hcheck

end M1n3Protocol
