/-
Who pays for which share: the pool for the shares submitted to it, an
order for those on its buyer's templates.

# What the lanes keep apart

A share reaches the pool through `submit_share`, on a template registered
for the round, whoever registered it: a buyer's public template is mined
for its HashShares too. Only such shares are ever minted. A share on a
derived template, or paid from an order, is never minted, and its order
is one whose buyer owns the template at its root.

# What they do not

A `MinerRoundStats` sums shares of every lane, and a record's net work is
what of it was not minted. So of a record's work only the part that no
order paid for is known to come from the pool's lane: `poolWork` is that
part, `orderWork` the rest.
-/
import M1n3Protocol.Proofs.Exclusivity
import M1n3Protocol.Proofs.Hashpower
import M1n3Protocol.Proofs.Supply

namespace M1n3Protocol

open Checked ObjStore

variable {H : HashFn} {publisher : Address}

-- =============================================== shares no order paid for

/-- Mined on a template itself, one registered for the share's round. -/
def Mining.OnRoundTemplate (m : Mining) (e : ShareEntry) : Prop :=
  ∃ tid t, e.mined = .direct tid ∧ m.templates.get tid = some t
    ∧ t.template.roundId = e.roundId

def Mining.UnpaidOnRound (m : Mining) : Prop :=
  m.shares.All fun e => e.payment = none → m.OnRoundTemplate e

theorem Mining.UnpaidOnRound.step {ctx : TxContext} {m m' : Mining}
    {ev : MiningEvent} (hb : m.UnpaidOnRound)
    (hs : Mining.Step H ctx m ev m') : m'.UnpaidOnRound := by
  obtain ⟨htemplates, -⟩ := hs.templates_kept
  intro i e hi hnone
  rcases hs.share_from hi with ⟨e₀, hi₀, heq, -⟩ | ⟨mined, ids, sub, payment,
      job, o, out, receipts, -, hshared, -, rfl⟩
  · rw [heq] at hnone
    obtain ⟨tid, t, hmined, ht, hround⟩ := hb i e₀ hi₀ hnone
    rw [heq]
    exact ⟨tid, t, hmined, htemplates tid t ht, hround⟩
  · -- Unpaid, the share came through `submit_share`.
    have hnone : payment = none := hnone
    rcases hshared.receipt with ⟨hsome, -⟩ | ⟨-, tid, t, rfl, ht, -⟩
    · rw [hnone] at hsome
      cases hsome
    · have hjob : job = t.template.job :=
        Option.some.inj (hshared.job_eq.symm.trans (job_direct ht))
      obtain ⟨hround, -, -, -, hkept, -⟩ :=
        recordShare_ok hshared.accepted.record_ok
      refine ⟨tid, t, rfl, htemplates tid t ht, ?_⟩
      rw [show (ShareEntry.roundId _) = out.objects.round.roundId from rfl,
        hkept, hround, hjob]
      rfl

theorem unpaidOnRound_of_reach {w : World}
    (h : Machine.Reach (contract H publisher) w) :
    w.mining.UnpaidOnRound :=
  mining_invariant_always (I := Mining.UnpaidOnRound) .empty
    (fun _ _ _ _ hb hs => hb.step hs) h

-- ========================================================= minted bundles

/-- The bundles of round `r` this share was minted as. -/
def ShareEntry.mintedUnits (r : U64) (e : ShareEntry) : Nat :=
  if e.roundId = r then e.mints * (e.difficulty.toNat / 10_000) else 0

def MiningEvent.isMint : MiningEvent → Bool
  | .mint _ => true
  | _ => false

theorem Mining.Step.mintedUnits_eq {ctx : TxContext} {m m' : Mining}
    {ev : MiningEvent} (hs : Mining.Step H ctx m ev m')
    (hev : ev.isMint = false) (r : U64) :
    m'.shares.sum (ShareEntry.mintedUnits r)
      = m.shares.sum (ShareEntry.mintedUnits r) := by
  cases hs with
  | mint => cases hev
  | share h =>
      refine (sum_alloc ..).trans ?_
      simp [ShareEntry.mintedUnits]
  | quiet | createRoundStats | closeRoundStats | createDedup | dropHashes
  | deleteDedup | clearReceipts | openAccumulator | skip | count | finalize
  | consume => rfl

/-- What was minted for a round is what its shares were minted as. -/
def MintsAreShares (w : World) : Prop :=
  ∀ r, w.slots.mintedIn r = w.mining.shares.sum (ShareEntry.mintedUnits r)

theorem MintsAreShares.mintShare {w w' : World} {capId rid sid : ID}
    (hb : MintsAreShares w) (hsh : ShareBooks w.mining)
    (h : w.mintShare capId rid sid = .ok w') : MintsAreShares w' := by
  simp only [World.mintShare, bind_eq_ok, load_eq_ok, pure_eq_ok] at h
  obtain ⟨cap, -, r, hr, mrs, -, out, -, rfl⟩ := h
  obtain ⟨e, he, hfor⟩ := hsh.receipts_for rid r hr
  intro round
  have hshares : (w.mining.recordMint rid sid r.share out.roundStats).shares
      = w.mining.shares.put r.share { e with mints := e.mints + 1 } := by
    simp only [Mining.recordMint, he]
  have hsum := sum_put he { e with mints := e.mints + 1 }
    (ShareEntry.mintedUnits round)
  have hround : e.roundId = r.receipt.roundId :=
    congrArg MinerRoundKey.roundId hfor.key
  have hbefore : e.mintedUnits round = 0 := by
    simp [ShareEntry.mintedUnits, hfor.unminted]
  have hafter : ShareEntry.mintedUnits round { e with mints := e.mints + 1 }
      = if r.receipt.roundId = round then r.receipt.difficulty.toNat / 10_000
        else 0 := by
    simp [ShareEntry.mintedUnits, hfor.unminted, hround, hfor.difficulty]
  have hmints : (w.slots.mints.alloc ⟨capId, r.receipt.roundId,
      r.receipt.difficulty⟩).sum
        (fun m => if m.roundId = round then m.units else 0)
      = w.slots.mintedIn round
        + if r.receipt.roundId = round
          then r.receipt.difficulty.toNat / 10_000 else 0 := sum_alloc ..
  have hold := hb round
  show Slots.mintedIn { w.slots with mints := _ } round = _
  unfold Slots.mintedIn at hmints hold ⊢
  dsimp only at hmints ⊢
  rw [hshares, hmints]
  omega

theorem Call.isMint_eq_false {c : Call}
    (hmint : ∀ cap rid sid, c ≠ .mintShare cap rid sid) (ev : MiningEvent)
    (hev : ev ∈ c.events) : ev.isMint = false := by
  cases c with
  | mintShare => exact absurd rfl (hmint _ _ _)
  | mining mc =>
      cases mc with
      | accumulateMinerStats acc sids =>
          obtain ⟨sid, -, rfl⟩ := List.mem_map.mp hev
          rfl
      | _ => rw [List.mem_singleton.mp hev]; rfl
  | pay pc => cases pc <;> rw [List.mem_singleton.mp hev] <;> rfl
  | beginTx | admin | claimReward =>
      rw [List.mem_singleton.mp hev]
      rfl
  | _ => cases hev

theorem mintsAreShares_of_reach {w : World}
    (h : Machine.Reach (contract H publisher) w) : MintsAreShares w := by
  refine Machine.ReachVia.invariant_given (I := MintsAreShares)
    (J := fun w => ShareBooks w.mining) (fun _ hw => shareBooks_of_reach hw)
    (fun _ => rfl) ?_ h
  intro w c w' hsh _ hb _ hs r
  by_cases hmint : ∃ cap rid sid, c = .mintShare cap rid sid
  · obtain ⟨cap, rid, sid, rfl⟩ := hmint
    exact hb.mintShare hsh hs r
  · have hslots : w'.slots.mints = w.slots.mints := by
      rcases World.exec_slots hs with ⟨-, hstep⟩ | ⟨-, heq⟩
      · exact hstep.mints_eq fun cap rid sid h => hmint ⟨cap, rid, sid, h⟩
      · rw [heq]
    have hevents := Call.isMint_eq_false (c := c)
      fun cap rid sid h => hmint ⟨cap, rid, sid, h⟩
    rw [show w'.slots.mintedIn r = w.slots.mintedIn r by
      unfold Slots.mintedIn; rw [hslots], hb r]
    refine ((World.exec_mining hs).preserves_of (P := fun m =>
      m.shares.sum (ShareEntry.mintedUnits r)
        = w.mining.shares.sum (ShareEntry.mintedUnits r)) ?_ hevents rfl).symm
    exact fun _ _ _ hev heq hs => (hs.mintedUnits_eq hev r).trans heq

-- ============================================== shares an order paid for

/-- Every share an order paid for is on the order's page. -/
def PaidOnPage (p : World × (OrderRef → List OrderMove)) : Prop :=
  ∀ i e, p.1.mining.shares.get i = some e → ∀ ref payout,
    e.payment = some ⟨ref, payout⟩ →
      ∃ o epoch, OrderMove.paid i o epoch payout ∈ p.2 ref

theorem paidOnPage_of_reach {p : World × (OrderRef → List OrderMove)}
    (h : Machine.Reach (orderJournal H publisher).kept p) : PaidOnPage p := by
  refine Machine.ReachVia.invariant (I := PaidOnPage) ?_ ?_ h
  · intro i e hi
    cases hi
  · rintro p c q hp - hs i e hi ref payout hpayment
    obtain ⟨hstep, hpages⟩ := Machine.withGhost_step.mp hs
    have hgrow : ∀ mv, mv ∈ p.2 ref → mv ∈ q.2 ref := by
      intro mv hmem
      rw [← hpages]
      rcases Machine.Journal.write_eq_or p.2
          ((orderJournal H publisher).post p.1 c q.1) ref with
        heq | ⟨mv', -, heq⟩
      · rw [heq]
        exact hmem
      · rw [heq]
        exact List.mem_append_left _ hmem
    have hold : ∀ e₀, p.1.mining.shares.get i = some e₀ →
        e₀.payment = some ⟨ref, payout⟩ →
        ∃ o epoch, OrderMove.paid i o epoch payout ∈ q.2 ref := by
      intro e₀ he₀ hpay
      obtain ⟨o, epoch, hmem⟩ := hp i e₀ he₀ ref payout hpay
      exact ⟨o, epoch, hgrow _ hmem⟩
    by_cases hpay : ∃ pc, c = .pay pc
    · obtain ⟨pc, rfl⟩ := hpay
      obtain ⟨o, e', paidOut, hpaid⟩ := World.pay_paid hstep
      rw [hpaid.shares] at hi
      rcases get_alloc_eq_some hi with ⟨rfl, rfl⟩ | hi
      · -- The share is the one this call paid for and posted.
        cases hpaid.payment.symm.trans hpayment
        refine ⟨o, p.1.ctx.epoch, ?_⟩
        have hpost : (orderJournal H publisher).post p.1 (.pay pc) q.1
            = some (pc.order, .paid p.1.mining.shares.next o p.1.ctx.epoch
                payout) := by
          simp [orderJournal, Call.post, PayCall.post, hpaid.get,
            hpaid.shares, hpaid.payment]
        rw [← hpages, hpost]
        simp [Machine.Journal.write]
      · exact hold e hi hpayment
    · have hne : e.payment ≠ none := by
        rw [hpayment]
        exact Option.some_ne_none _
      obtain ⟨e₀, he₀, hsame⟩ := World.exec_paid_from hstep
        (fun pc heq => hpay ⟨pc, heq⟩) hi hne
      exact hold e₀ he₀ (hsame.trans hpayment)

-- ========================================================== the net work

/-- The difficulty of a key's shares that neither an order nor a mint paid
for. -/
def Mining.poolWork (m : Mining) (k : MinerRoundKey) : Nat :=
  m.shares.sum fun e =>
    if e.key = k ∧ e.mints = 0 ∧ e.payment = none then e.difficulty.toNat
    else 0

/-- The difficulty of a key's shares that orders paid for. -/
def Mining.orderWork (m : Mining) (k : MinerRoundKey) : Nat :=
  m.shares.sum fun e =>
    if e.key = k ∧ e.payment ≠ none then e.difficulty.toNat else 0

theorem ShareBooks.netWork_split {m : Mining} (hb : ShareBooks m) {i : ID}
    {r : MinerWorkRecord} (hi : m.issued.get i = some r) :
    r.netWork.toNat = m.poolWork r.key + m.orderWork r.key := by
  rw [hb.netWork_eq hi]
  unfold Mining.poolWork Mining.orderWork
  rw [← sum_add]
  refine sum_congr fun j e hj => ?_
  cases hpay : e.payment with
  | none => simp [hpay]
  | some p =>
      have hmints := hb.paid_unminted j e hj (by rw [hpay]; rfl)
      simp [hpay, hmints]

/-- The pool pays, in records and in HashShares, for shares submitted to
it on the round's templates. A share an order paid for is never minted,
its order's buyer owns the template it goes back to, and of a record's
work it can make up at most what is not the pool's. -/
theorem pool_pays_round_templates
    {p : World × (OrderRef → List OrderMove)}
    (h : Machine.Reach (orderJournal H publisher).kept p) :
    (∀ i e, p.1.mining.shares.get i = some e → e.payment = none →
        p.1.mining.OnRoundTemplate e)
      ∧ (∀ i e ref payout, p.1.mining.shares.get i = some e →
          e.payment = some ⟨ref, payout⟩ →
          e.mints = 0 ∧ ∃ o epoch, OrderMove.paid i o epoch payout ∈ p.2 ref
            ∧ ∃ tid t, p.1.mining.templates.get tid = some t
              ∧ t.template.owner = o.buyer ∧ p.1.mining.Rooted tid e.mined)
      ∧ (∀ r, p.1.slots.mintedIn r
          = p.1.mining.shares.sum (ShareEntry.mintedUnits r))
      ∧ ∀ i r, p.1.mining.issued.get i = some r →
        p.1.mining.poolWork r.key ≤ r.netWork.toNat
          ∧ r.netWork.toNat
            ≤ p.1.mining.poolWork r.key + p.1.mining.orderWork r.key := by
  have hreach := Machine.Reach.of_withGhost h
  have hshares := shareBooks_of_reach hreach
  refine ⟨unpaidOnRound_of_reach hreach, ?_, mintsAreShares_of_reach hreach,
    fun i r hi => ?_⟩
  · intro i e ref payout hi hpayment
    obtain ⟨o, epoch, hmem⟩ := paidOnPage_of_reach h i e hi ref payout hpayment
    obtain ⟨e', he'⟩ := shareOf_of_posted h ref hmem
    cases he'.get.symm.trans hi
    obtain ⟨tid, t, ht, howner, hroot, -⟩ := he'.mined
    exact ⟨hshares.paid_unminted i e hi (by rw [hpayment]; rfl), o, epoch,
      hmem, tid, t, ht, howner, hroot⟩
  · rw [hshares.netWork_split hi]
    exact ⟨Nat.le_add_right _ _, Nat.le_refl _⟩

/-- In the run above of one order's life, the paid share is no HashShare
and goes back to the buyer's template. -/
theorem pool_pays_round_templates_orderLife :
    ∃ p, Machine.Reach (orderJournal sha256 0).kept p
      ∧ ∃ e payout, p.1.mining.shares.get 0 = some e
        ∧ e.payment = some ⟨.hashpower 0, payout⟩ ∧ e.mints = 0 := by
  have hrun : (orderJournal sha256 0).kept.endsIn orderLife (fun p =>
      (p.1.mining.shares.get 0).any fun e => e.payment.any fun q =>
        decide (q.order = .hashpower 0)) = true := by
    decide +kernel
  obtain ⟨p, hp, hcheck⟩ := Machine.reach_of_endsIn hrun
  obtain ⟨e, he, hcheck⟩ := (Option.any_eq_true ..).mp hcheck
  obtain ⟨⟨ref, payout⟩, hpay, hcheck⟩ := (Option.any_eq_true ..).mp hcheck
  have href : ref = .hashpower 0 := of_decide_eq_true hcheck
  subst href
  exact ⟨p, hp, e, payout, he, hpay,
    ((pool_pays_round_templates hp).2.1 0 e _ _ he hpay).1⟩

/-- Two miners work on an outsider's public template: one mints its
share, the other has it counted for the round's rewards. -/
def outsiderPaid : List Call :=
  [.slot .createCurrency,
   .slot (.registerSlot 0 []),
   .slot (.bindSlotToRound 0),
   .beginTx 7 0 0,
   .mining (.registerTemplatePublic 10_000_000 block125552),
   .beginTx 1 0 0,
   .mining (.registerMiner []),
   .mining (.createRoundStats 0 0),
   .mining (.createShareDedup 0),
   .mining (.submitShare 0 ⟨0, 0, 0⟩ solution125552),
   .mintShare 0 0 0,
   .beginTx 2 0 0,
   .mining (.registerMiner []),
   .mining (.createRoundStats 0 0),
   .mining (.createShareDedup 0),
   .mining (.submitShare 0 ⟨1, 1, 1⟩ solution125552),
   .mining (.openRoundAccumulatorFromClaim 0),
   .mining (.accumulateMinerStats 0 [1])]

/-- The pool pays for both: in the round's HashShares and in a record's
net work. -/
theorem outsider_shares_paid :
    ∃ w, Machine.Reach (contract sha256 0) w
      ∧ (∃ t, w.mining.templates.get 0 = some t ∧ t.lane = .permissionless)
      ∧ (∃ e, w.mining.shares.get 0 = some e ∧ e.mined = .direct 0
        ∧ e.mints = 1 ∧ 0 < w.slots.mintedIn e.roundId)
      ∧ ∃ e r, w.mining.shares.get 1 = some e ∧ e.mined = .direct 0
        ∧ w.mining.issued.get 0 = some r ∧ r.key = e.key
        ∧ r.netWork.toNat = e.difficulty.toNat ∧ 0 < r.netWork := by
  have hrun : (contract sha256 0).endsIn outsiderPaid (fun w =>
      ((w.mining.templates.get 0).any fun t =>
          decide (t.lane = .permissionless))
        && ((w.mining.shares.get 0).any fun e =>
          decide (e.mined = .direct 0 ∧ e.mints = 1
            ∧ 0 < w.slots.mintedIn e.roundId))
        && (w.mining.shares.get 1).any fun e =>
          (w.mining.issued.get 0).any fun r =>
            decide (e.mined = .direct 0 ∧ r.key = e.key
              ∧ r.netWork.toNat = e.difficulty.toNat ∧ 0 < r.netWork))
        = true := by
    decide +kernel
  obtain ⟨w, hw, hcheck⟩ := Machine.reach_of_endsIn hrun
  rw [Bool.and_eq_true, Bool.and_eq_true] at hcheck
  obtain ⟨⟨htemplate, hminted⟩, hcounted⟩ := hcheck
  obtain ⟨t, ht, hlane⟩ := (Option.any_eq_true ..).mp htemplate
  obtain ⟨e, he, hmints⟩ := (Option.any_eq_true ..).mp hminted
  obtain ⟨f, hf, hcounted⟩ := (Option.any_eq_true ..).mp hcounted
  obtain ⟨r, hr, hwork⟩ := (Option.any_eq_true ..).mp hcounted
  obtain ⟨hmined, hkey, hnet, hpos⟩ := of_decide_eq_true hwork
  exact ⟨w, hw, ⟨t, ht, of_decide_eq_true hlane⟩,
    ⟨e, he, of_decide_eq_true hmints⟩, f, r, hf, hmined, hr, hkey, hnet, hpos⟩

end M1n3Protocol
