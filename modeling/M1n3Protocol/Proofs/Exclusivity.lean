/-
Share pay: which lanes pay an accepted share, and when the same share is
paid twice.

# The books of a share

A share sits under its (miner, round) key, in the stats object of that
key. `ShareBooks` says what the object's two counters are: `work` is the
difficulty of every share under the key, `sold_work` the difficulty of
the minted ones. A record issued for the key therefore carries the shares
that were not minted, whether or not an order paid for them: the pay
lanes never call `record_sold_share`.

# Where the law holds

`ordersUncounted` asks that no accumulator counts an object with an
order-paid share in it. Under it no share is paid twice
(`share_paid_once`).
-/
import M1n3Protocol.Proofs.Rounds

namespace M1n3Protocol

open Checked

-- =============================================================== the books

/-- The difficulty of all shares under a key. -/
def Mining.shareWork (m : Mining) (k : MinerRoundKey) : Nat :=
  m.shares.sum fun e => if e.key = k then e.difficulty.toNat else 0

/-- The difficulty of the minted shares under a key. -/
def Mining.mintedWork (m : Mining) (k : MinerRoundKey) : Nat :=
  m.shares.sum fun e => if e.key = k then e.mints * e.difficulty.toNat else 0

/-- A live receipt's share: not minted, not paid, and what the receipt
says it is. -/
structure ReceiptFor (r : ShareReceipt) (e : ShareEntry) : Prop where
  unminted : e.mints = 0
  unpaid : e.payment = none
  key : e.key = ⟨r.miner, r.roundId⟩
  difficulty : e.difficulty = r.difficulty

structure ShareBooks (m : Mining) : Prop where
  shares_registered : m.shares.All fun e => e.key ∈ m.roundRegistry
  receipts_for : ∀ i r, m.receipts.get i = some r →
    ∃ e, m.shares.get r.share = some e ∧ ReceiptFor r.receipt e
  receipts_inj : m.receipts.KeyInj ReceiptObject.share
  mints_le : m.shares.All fun e => e.mints ≤ 1
  paid_unminted : m.shares.All fun e => e.payment.isSome = true → e.mints = 0
  stats_work : m.roundStats.All fun s => s.work.toNat = m.shareWork s.key
  stats_sold : m.roundStats.All fun s =>
    s.soldWork.toNat = m.mintedWork s.key
  issued_work : m.issued.All fun r =>
    r.netWork.toNat + m.mintedWork r.key = m.shareWork r.key

theorem ShareBooks.init (admin : Address) :
    ShareBooks (Mining.init admin) where
  shares_registered := .empty
  receipts_for _ _ h := by cases h
  receipts_inj := .empty
  mints_le := .empty
  paid_unminted := .empty
  stats_work := .empty
  stats_sold := .empty
  issued_work := .empty

variable {H : HashFn} {ctx : TxContext} {m m' : Mining}

/-- Minted shares are part of the shares. -/
theorem ShareBooks.minted_le (hb : ShareBooks m) (k : MinerRoundKey) :
    m.mintedWork k ≤ m.shareWork k := by
  refine ObjStore.sum_le_sum fun i e hi => ?_
  have hle := hb.mints_le i e hi
  show (if e.key = k then _ else 0) ≤ if e.key = k then _ else 0
  split
  case isTrue => exact (Nat.mul_le_mul_right _ hle).trans_eq (Nat.one_mul _)
  case isFalse => exact Nat.le_refl _

/-- No work is booked under a key that was never registered. -/
theorem ShareBooks.unregistered (hb : ShareBooks m) {k : MinerRoundKey}
    (hk : k ∉ m.roundRegistry) : m.shareWork k = 0 := by
  refine ObjStore.sum_eq_zero fun i e hi => if_neg fun hkey => hk ?_
  exact hkey ▸ hb.shares_registered i e hi

-- =============================================================== the steps

/-- Steps that leave the shares alone, and of stats objects and receipts
at most remove some. -/
theorem ShareBooks.of_frame (hb : ShareBooks m)
    (hshares : m'.shares = m.shares)
    (hreg : ∀ k ∈ m.roundRegistry, k ∈ m'.roundRegistry)
    (hstats : ∀ s mrs, m'.roundStats.get s = some mrs →
      m.roundStats.get s = some mrs)
    (hreceipts : ∀ i r, m'.receipts.get i = some r →
      m.receipts.get i = some r)
    (hissued : m'.issued = m.issued) : ShareBooks m' := by
  have hwork : m'.shareWork = m.shareWork := by
    unfold Mining.shareWork
    rw [hshares]
  have hminted : m'.mintedWork = m.mintedWork := by
    unfold Mining.mintedWork
    rw [hshares]
  constructor
  · rw [hshares]
    exact hb.shares_registered.imp fun e he => hreg _ he
  · rw [hshares]
    exact fun i r hi => hb.receipts_for i r (hreceipts i r hi)
  · exact fun i j a b hi hj =>
      hb.receipts_inj i j a b (hreceipts i a hi) (hreceipts j b hj)
  · rw [hshares]
    exact hb.mints_le
  · rw [hshares]
    exact hb.paid_unminted
  · rw [hwork]
    exact fun s mrs hs => hb.stats_work s mrs (hstats s mrs hs)
  · rw [hminted]
    exact fun s mrs hs => hb.stats_sold s mrs (hstats s mrs hs)
  · rw [hissued, hwork, hminted]
    exact hb.issued_work

theorem ShareBooks.createRoundStats (hb : ShareBooks m) {r h : U64}
    {registry : List MinerRoundKey} {mrs : MinerRoundStats}
    (hok : createRoundStats m.roundRegistry r h ctx = .ok (registry, mrs)) :
    ShareBooks { m with
      roundRegistry := registry, roundStats := m.roundStats.alloc mrs } := by
  obtain ⟨hnew, rfl, hmrs⟩ := createRoundStats_ok hok
  have hzero := hb.unregistered hnew
  refine { hb with
    shares_registered := hb.shares_registered.imp fun e he =>
      List.mem_cons_of_mem _ he
    stats_work := hb.stats_work.alloc ?_
    stats_sold := hb.stats_sold.alloc ?_ }
  · show mrs.work.toNat = m.shareWork mrs.key
    rw [hzero, hmrs]
    rfl
  · have hle := hb.minted_le mrs.key
    rw [hzero] at hle
    show mrs.soldWork.toNat = m.mintedWork mrs.key
    rw [Nat.le_zero.mp hle, hmrs]
    rfl

/-- An accepted share adds its difficulty under the key of the object it
is recorded into. -/
theorem ShareBooks.share (hr : RoundBooks m) (hb : ShareBooks m)
    {mined : TemplateRef} {ids : ShareIds} {sub : Submission}
    {payment : Option Payment} {job : Job} {o : MinerObjects}
    {out : ShareOutcome} {receipts : ObjStore ReceiptObject}
    (h : m.Shared H ctx mined ids sub payment job o out receipts) :
    ShareBooks { m.recordShare ids mined job.height payment out with
      receipts } := by
  have hkey : out.objects.round.key = o.round.key :=
    key_of_recordShare h.accepted.record_ok
  obtain ⟨hround, hminer, -, -, -, -, hwork, -, hsold, -⟩ :=
    recordShare_ok h.accepted.record_ok
  -- The two sums under any key, after the share.
  have hshare : ∀ k, Mining.shareWork
      { m.recordShare ids mined job.height payment out with receipts } k
      = m.shareWork k + if out.objects.round.key = k
          then out.share.difficulty.toNat else 0 :=
    fun k => ObjStore.sum_alloc ..
  have hminted : ∀ k, Mining.mintedWork
      { m.recordShare ids mined job.height payment out with receipts } k
      = m.mintedWork k := by
    intro k
    refine (ObjStore.sum_alloc ..).trans ?_
    simp only [Nat.zero_mul, ite_self, Nat.add_zero]
    rfl
  constructor
  · apply hb.shares_registered.alloc
    show out.objects.round.key ∈ m.roundRegistry
    rw [hkey]
    exact hr.stats_registered _ _ h.round_get
  · intro i r hi
    have hold : m.receipts.get i = some r →
        ∃ e, (m.recordShare ids mined job.height payment out).shares.get
          r.share = some e ∧ ReceiptFor r.receipt e := by
      intro hi
      obtain ⟨e, he, hfor⟩ := hb.receipts_for i r hi
      exact ⟨e, ObjStore.get_alloc_of_some _ he, hfor⟩
    rcases h.receipt with ⟨-, hrs⟩ | ⟨hnone, tid, t, hmined, -, hrs⟩
    · exact hold (hrs ▸ hi)
    · replace hi : receipts.get i = some r := hi
      rw [hrs] at hi
      rcases ObjStore.get_alloc_eq_some hi with ⟨-, rfl⟩ | hi
      · refine ⟨_, ObjStore.get_alloc_self .., ⟨rfl, hnone, ?_, rfl⟩⟩
        show out.objects.round.key = ⟨ctx.sender, job.roundId⟩
        rw [hkey]
        subst hmined
        show (⟨o.round.miner, o.round.roundId⟩ : MinerRoundKey) = _
        rw [hround, hminer, h.accepted.stats_miner]
        rfl
      · exact hold hi
  · rcases h.receipt with ⟨-, hrs⟩ | ⟨-, tid, t, -, -, hrs⟩
    · show receipts.KeyInj _
      rw [hrs]
      exact hb.receipts_inj
    · show receipts.KeyInj _
      rw [hrs]
      refine hb.receipts_inj.alloc fun i r hi hshare => ?_
      obtain ⟨e, he, -⟩ := hb.receipts_for i r hi
      exact absurd (ObjStore.lt_next he) (by rw [hshare]; exact Nat.lt_irrefl _)
  · exact hb.mints_le.alloc (Nat.zero_le 1)
  · exact hb.paid_unminted.alloc fun _ => rfl
  · intro s mrs hs
    rw [hshare]
    rcases hr.stats_inj.get_put h.round_get hs with ⟨-, rfl⟩ | ⟨hs, hne⟩
    · rw [if_pos rfl, hwork, hb.stats_work _ _ h.round_get, hkey]
    · rw [hkey, if_neg hne, Nat.add_zero]
      exact hb.stats_work s mrs hs
  · intro s mrs hs
    rw [hminted]
    rcases hr.stats_inj.get_put h.round_get hs with ⟨-, rfl⟩ | ⟨hs, -⟩
    · rw [hsold, hb.stats_sold _ _ h.round_get, hkey]
    · exact hb.stats_sold s mrs hs
  · intro i r hi
    rw [hshare, hminted, if_neg, Nat.add_zero]
    · exact hb.issued_work i r hi
    · rw [hkey]
      exact hr.issued_spent i r _ _ hi h.round_get

/-- A mint sells the receipt's share: both its entry and the stats object
of its key count its difficulty as sold. -/
theorem ShareBooks.mint (hr : RoundBooks m) (hb : ShareBooks m)
    {rid sid : ID} {r : ReceiptObject} {mrs mrs' : MinerRoundStats}
    (hrid : m.receipts.get rid = some r)
    (hsid : m.roundStats.get sid = some mrs)
    (hok : recordSoldShare mrs r.receipt.miner r.receipt.difficulty
      r.receipt.roundId = .ok mrs') :
    ShareBooks (m.recordMint rid sid r.share mrs') := by
  obtain ⟨e, he, hfor⟩ := hb.receipts_for rid r hrid
  have hkey : mrs'.key = mrs.key := key_of_recordSoldShare hok
  obtain ⟨hround, hminer, -, -, hwork, -, hsold, -⟩ := recordSoldShare_ok hok
  have hmrs : mrs.key = e.key := by
    rw [hfor.key, ← hround, ← hminer]
    rfl
  have hshares : (m.recordMint rid sid r.share mrs').shares
      = m.shares.put r.share { e with mints := e.mints + 1 } := by
    simp only [Mining.recordMint, he]
  have hshare : ∀ k,
      (m.recordMint rid sid r.share mrs').shareWork k = m.shareWork k := by
    intro k
    have := ObjStore.sum_put he { e with mints := e.mints + 1 }
      (fun e => if e.key = k then e.difficulty.toNat else 0)
    rw [← hshares] at this
    exact Nat.add_right_cancel this
  have hminted : ∀ k, (m.recordMint rid sid r.share mrs').mintedWork k
      = m.mintedWork k + if e.key = k then e.difficulty.toNat else 0 := by
    intro k
    have := ObjStore.sum_put he { e with mints := e.mints + 1 }
      (fun e => if e.key = k then e.mints * e.difficulty.toNat else 0)
    rw [← hshares, hfor.unminted] at this
    simp only [Nat.zero_mul, ite_self, Nat.add_zero, Nat.zero_add,
      Nat.one_mul] at this
    exact this
  have hlive : ∀ i rec, m.issued.get i = some rec → e.key ≠ rec.key := by
    intro i rec hi
    rw [← hmrs]
    exact hr.issued_spent i rec sid mrs hi hsid
  constructor
  · rw [hshares]
    exact hb.shares_registered.put (hb.shares_registered _ e he)
  · intro i q hi
    obtain ⟨hne, hi⟩ := ObjStore.get_erase_eq_some hi
    obtain ⟨e', he', hfor'⟩ := hb.receipts_for i q hi
    have hne' : q.share ≠ r.share :=
      fun heq => hne (hb.receipts_inj i rid q r hi hrid heq)
    refine ⟨e', ?_, hfor'⟩
    rw [hshares, ObjStore.get_put_ne _ hne', he']
  · exact hb.receipts_inj.erase
  · rw [hshares]
    apply hb.mints_le.put
    show e.mints + 1 ≤ 1
    rw [hfor.unminted]
  · rw [hshares]
    refine hb.paid_unminted.put fun hpaid => ?_
    have hunpaid : e.payment.isSome = true := hpaid
    rw [hfor.unpaid] at hunpaid
    cases hunpaid
  · intro s b hs
    rw [hshare]
    rcases hr.stats_inj.get_put hsid hs with ⟨-, rfl⟩ | ⟨hs, -⟩
    · rw [hwork, hkey]
      exact hb.stats_work _ _ hsid
    · exact hb.stats_work s b hs
  · intro s b hs
    rw [hminted]
    rcases hr.stats_inj.get_put hsid hs with ⟨-, rfl⟩ | ⟨hs, hne⟩
    · rw [hsold, hkey, if_pos hmrs.symm, hb.stats_sold _ _ hsid,
        hfor.difficulty]
    · rw [← hmrs, if_neg hne, Nat.add_zero]
      exact hb.stats_sold s b hs
  · intro i rec hi
    rw [hshare, hminted, if_neg (hlive i rec hi), Nat.add_zero]
    exact hb.issued_work i rec hi

/-- A counted object's record carries the unsold work of its key. -/
theorem ShareBooks.count (hb : ShareBooks m) {sid : ID}
    {mrs : MinerRoundStats} {acc : ObjStore RoundAccumulator}
    {recs : ObjStore MinerWorkRecord}
    (hsid : m.roundStats.get sid = some mrs) :
    ShareBooks { m with
      accumulators := acc
      roundStats := m.roundStats.erase sid
      workRecords := recs
      issued :=
        if 0 < netWork mrs then
          m.issued.alloc ⟨mrs.roundId, mrs.miner, netWork mrs⟩
        else m.issued } := by
  refine { hb with
    stats_work := hb.stats_work.erase
    stats_sold := hb.stats_sold.erase
    issued_work := ?_ }
  show ObjStore.All (if 0 < netWork mrs then _ else _) _
  split
  case isFalse => exact hb.issued_work
  case isTrue =>
    apply hb.issued_work.alloc
    show (netWork mrs).toNat + m.mintedWork mrs.key = m.shareWork mrs.key
    have hle := hb.minted_le mrs.key
    rw [toNat_netWork, hb.stats_work sid mrs hsid, hb.stats_sold sid mrs hsid]
    omega

theorem ShareBooks.step {ev : MiningEvent} (hr : RoundBooks m)
    (hb : ShareBooks m) (hs : Mining.Step H ctx m ev m') : ShareBooks m' := by
  cases hs with
  | createRoundStats hok => exact hb.createRoundStats hok
  | share h => exact hb.share hr h
  | mint hrid hsid hok => exact hb.mint hr hrid hsid hok
  | count hacc hsid => exact hb.count hsid
  | closeRoundStats | skip =>
      exact hb.of_frame rfl (fun _ h => h)
        (fun _ _ h => (ObjStore.get_erase_eq_some h).2) (fun _ _ h => h) rfl
  | clearReceipts =>
      refine hb.of_frame rfl (fun _ h => h) (fun _ _ h => h) ?_ rfl
      intro i r hi
      cases hi
  | quiet | createDedup | dropHashes | deleteDedup | openAccumulator
  | finalize | consume =>
      exact hb.of_frame rfl (fun _ h => h) (fun _ _ h => h) (fun _ _ h => h)
        rfl

/-- The share books hold on every reachable chain. -/
theorem shareBooks_of_reach {publisher : Address} {w : World}
    (h : Machine.Reach (contract H publisher) w) : ShareBooks w.mining :=
  (mining_invariant_always (I := fun m => RoundBooks m ∧ ShareBooks m)
    ⟨.init publisher, .init publisher⟩
    (fun _ _ _ _ hb hs => ⟨hb.1.step hs, hb.2.step hb.1 hs⟩) h).2

-- ============================================================ the condition

/-- A counted object has no order-paid share in it. -/
def ordersUncounted (m : Mining) : MiningEvent → Prop
  | .accumulate accId sid => ∀ acc mrs, m.accumulators.get accId = some acc →
      m.roundStats.get sid = some mrs → mrs.roundId = acc.roundId →
      ∀ i e, m.shares.get i = some e → e.key = mrs.key → e.payment = none
  | _ => True

/-- No record was issued for the key of an order-paid share. -/
def OrdersApart (m : Mining) : Prop :=
  ∀ i r j e, m.issued.get i = some r → m.shares.get j = some e →
    e.key = r.key → e.payment = none

theorem OrdersApart.step {ev : MiningEvent} (hr : RoundBooks m)
    (hb : ShareBooks m) (ho : OrdersApart m) (hcond : ordersUncounted m ev)
    (hs : Mining.Step H ctx m ev m') : OrdersApart m' := by
  cases hs with
  | share h =>
      intro i r j e hi hj hkey
      rcases ObjStore.get_alloc_eq_some hj with ⟨-, rfl⟩ | hj
      · refine absurd ?_ (hr.issued_spent i r _ _ hi h.round_get)
        exact (key_of_recordShare h.accepted.record_ok).symm.trans hkey
      · exact ho i r j e hi hj hkey
  | @mint rid sid r mrs mrs' hrid hsid hok =>
      intro i rec j e hi hj hkey
      obtain ⟨e₀, he₀, hfor⟩ := hb.receipts_for _ _ hrid
      simp only [Mining.recordMint, he₀] at hj
      rcases ObjStore.get_put_eq_some hj with ⟨-, rfl, -⟩ | ⟨-, hj⟩
      · exact hfor.unpaid
      · exact ho i rec j e hi hj hkey
  | @count accId sid acc acc' mrs hacc hsid hmine heq =>
      intro i r j e hi hj hkey
      replace hi : ObjStore.get (if 0 < netWork mrs then _ else _) i
        = some r := hi
      split at hi
      case isTrue =>
        rcases ObjStore.get_alloc_eq_some hi with ⟨-, rfl⟩ | hi
        · exact hcond acc mrs hacc hsid heq j e hj hkey
        · exact ho i r j e hi hj hkey
      case isFalse => exact ho i r j e hi hj hkey
  | quiet | createRoundStats | closeRoundStats | createDedup | dropHashes
  | deleteDedup | clearReceipts | openAccumulator | skip | finalize
  | consume => exact ho

/-- Counting one object leaves the condition on another as it was. -/
theorem ordersUncounted_keep {accId sid accId' sid' : ID}
    (hcond : ordersUncounted m (.accumulate accId' sid'))
    (hs : Mining.Step H ctx m (.accumulate accId sid) m') :
    ordersUncounted m' (.accumulate accId' sid') := by
  have main : ∀ acc acc' : RoundAccumulator, m.accumulators.get accId
      = some acc → acc'.roundId = acc.roundId →
      ∀ a b, (m.accumulators.put accId acc').get accId' = some a →
        (m.roundStats.erase sid).get sid' = some b → b.roundId = a.roundId →
        ∀ i e, m.shares.get i = some e → e.key = b.key → e.payment = none := by
    intro acc acc' hacc hround a b ha hb heq
    have hb' := (ObjStore.get_erase_eq_some hb).2
    rcases ObjStore.get_put_eq_some ha with ⟨rfl, rfl, -⟩ | ⟨-, ha⟩
    · exact hcond acc b hacc hb' (heq.trans hround)
    · exact hcond a b ha hb' heq
  cases hs with
  | skip hacc => exact main _ _ hacc rfl
  | count hacc hsid hmine heq hround => exact main _ _ hacc hround

/-- What holds of every state reached without counting an order-paid
share. -/
structure ExclusiveBooks (m : Mining) : Prop where
  rounds : RoundBooks m
  shares : ShareBooks m
  apart : OrdersApart m

theorem exclusiveBooks_of_reach {publisher : Address} {w : World}
    (h : Machine.ReachVia (contract H publisher) (Call.meets ordersUncounted)
      w) : ExclusiveBooks w.mining :=
  mining_invariant
    ⟨.init publisher, .init publisher, fun _ _ _ _ hi => by cases hi⟩
    (fun _ _ _ _ hb hcond hs =>
      ⟨hb.rounds.step hs, hb.shares.step hb.rounds hs,
        hb.apart.step hb.rounds hb.shares hcond hs⟩)
    (fun _ _ _ _ _ _ _ hcond hs => ordersUncounted_keep hcond hs) h

-- ============================================================= the payments

/-- One payment if an order paid for the share. -/
def ShareEntry.orderPayments (e : ShareEntry) : Nat :=
  if e.payment.isSome then 1 else 0

/-- How many records pay for an unminted share: those of its key. A
minted share was taken out of the work its record carries. -/
def Mining.poolPayments (m : Mining) (e : ShareEntry) : Nat :=
  if e.mints = 0 then m.issued.sum fun r => if r.key = e.key then 1 else 0
  else 0

/-- All the times the share is paid. -/
def Mining.payments (m : Mining) (e : ShareEntry) : Nat :=
  e.orderPayments + e.mints + m.poolPayments e

def Mining.acceptedWorkOf (m : Mining) (a : Address) : Nat :=
  m.shares.sum fun e => if e.miner = a then e.difficulty.toNat else 0

def Mining.orderWorkOf (m : Mining) (a : Address) : Nat :=
  m.shares.sum fun e =>
    if e.miner = a then e.orderPayments * e.difficulty.toNat else 0

def Mining.mintedWorkOf (m : Mining) (a : Address) : Nat :=
  m.shares.sum fun e => if e.miner = a then e.mints * e.difficulty.toNat else 0

def Mining.poolWorkOf (m : Mining) (a : Address) : Nat :=
  m.issued.sum fun r => if r.miner = a then r.netWork.toNat else 0

/-- Keys are issued at most once, so the pool pays a share at most
once. -/
theorem RoundBooks.issued_count_le (hr : RoundBooks m) (k : MinerRoundKey) :
    (m.issued.sum fun r => if r.key = k then 1 else 0) ≤ 1 := by
  by_cases hex : ∃ i r, m.issued.get i = some r ∧ r.key = k
  · obtain ⟨i, r, hi, hkey⟩ := hex
    have hrest : ∑ j ∈ (Finset.range m.issued.next).erase i,
        (m.issued.get j).elim 0 (fun r => if r.key = k then 1 else 0) = 0 := by
      refine Finset.sum_eq_zero fun j hj => ?_
      cases hget : m.issued.get j with
      | none => rfl
      | some b =>
          refine if_neg fun hb => Finset.ne_of_mem_erase hj ?_
          exact hr.issued_inj j i b r hget hi (by rw [hb, hkey])
    rw [ObjStore.sum_split hi, if_pos hkey, hrest]
  · rw [ObjStore.sum_eq_zero]
    · exact Nat.zero_le 1
    · exact fun i r hi => if_neg fun hkey => hex ⟨i, r, hi, hkey⟩

/-- The net work of a key's record is the difficulty of its unminted
shares: what the pool pays for. -/
theorem ShareBooks.netWork_eq (hb : ShareBooks m) {i : ID}
    {r : MinerWorkRecord} (hi : m.issued.get i = some r) :
    r.netWork.toNat = m.shares.sum fun e =>
      if e.key = r.key ∧ e.mints = 0 then e.difficulty.toNat else 0 := by
  have hsplit : m.shareWork r.key = m.mintedWork r.key
      + m.shares.sum fun e =>
        if e.key = r.key ∧ e.mints = 0 then e.difficulty.toNat else 0 := by
    unfold Mining.shareWork Mining.mintedWork
    rw [← ObjStore.sum_add]
    refine ObjStore.sum_congr fun j e hj => ?_
    have hle := hb.mints_le j e hj
    by_cases hkey : e.key = r.key
    · rcases Nat.le_one_iff_eq_zero_or_eq_one.mp hle with hm | hm
      · simp [hkey, hm]
      · simp [hkey, hm]
    · simp [hkey]
  have := hb.issued_work i r hi
  omega

/-- A miner's records carry exactly the work the pool pays for. -/
theorem ShareBooks.poolWorkOf_eq (hb : ShareBooks m) (a : Address) :
    m.poolWorkOf a = m.shares.sum fun e =>
      if e.miner = a then m.poolPayments e * e.difficulty.toNat else 0 := by
  have hrecord : m.poolWorkOf a = m.issued.sum fun r => m.shares.sum fun e =>
      if r.miner = a ∧ e.key = r.key ∧ e.mints = 0
        then e.difficulty.toNat else 0 := by
    refine ObjStore.sum_congr fun i r hi => ?_
    by_cases ha : r.miner = a
    · simp only [ha, true_and, if_true]
      exact hb.netWork_eq hi
    · simp only [ha, false_and, if_false]
      exact (ObjStore.sum_eq_zero fun _ _ _ => rfl).symm
  rw [hrecord, ObjStore.sum_comm]
  refine ObjStore.sum_congr fun j e hj => ?_
  show (m.issued.sum fun r => if r.miner = a ∧ e.key = r.key ∧ e.mints = 0
    then e.difficulty.toNat else 0) = _
  have hminer : ∀ r : MinerWorkRecord, e.key = r.key → r.miner = e.miner := by
    intro r hkey
    exact (congrArg MinerRoundKey.miner hkey).symm
  unfold Mining.poolPayments
  by_cases hm : e.mints = 0
  · by_cases ha : e.miner = a
    · rw [if_pos ha, if_pos hm, Nat.mul_comm, ← ObjStore.sum_mul_left]
      refine ObjStore.sum_congr fun i r _ => ?_
      by_cases hkey : e.key = r.key
      · simp [hkey, hm, (hminer r hkey).trans ha]
      · simp [hkey, Ne.symm hkey]
    · rw [if_neg ha]
      refine ObjStore.sum_eq_zero fun i r _ => if_neg ?_
      rintro ⟨hra, hkey, -⟩
      exact ha (by rw [← hra, hminer r hkey])
  · rw [if_neg hm, Nat.zero_mul, ite_self]
    exact ObjStore.sum_eq_zero fun i r _ => if_neg fun h => hm h.2.2

/-- With orders and records apart, a share is paid at most once. -/
theorem ExclusiveBooks.payments_le (hx : ExclusiveBooks m) {j : ID}
    {e : ShareEntry} (hj : m.shares.get j = some e) : m.payments e ≤ 1 := by
  have hmints := hx.shares.mints_le j e hj
  have hpool := hx.rounds.issued_count_le e.key
  unfold Mining.payments ShareEntry.orderPayments Mining.poolPayments
  cases hpay : e.payment with
  | none =>
      simp only [Option.isSome_none, Bool.false_eq_true, if_false]
      split
      case isTrue hm => omega
      case isFalse => omega
  | some p =>
      have hpaid : e.payment.isSome = true := by rw [hpay]; rfl
      have hm := hx.shares.paid_unminted j e hj hpaid
      have hnone : (m.issued.sum fun r => if r.key = e.key then 1 else 0)
          = 0 := by
        refine ObjStore.sum_eq_zero fun i r hi => if_neg fun hkey => ?_
        have := hx.apart i r j e hi hj hkey.symm
        rw [hpay] at this
        cases this
      simp [hm, hnone]

/-- In every state reached without counting an order-paid share, every
share is paid at most once, records carry exactly the shares the pool
pays, and no miner is paid for more than its shares. -/
theorem share_paid_once {publisher : Address} {w : World}
    (h : Machine.ReachVia (contract H publisher) (Call.meets ordersUncounted)
      w) :
    (∀ i e, w.mining.shares.get i = some e → w.mining.payments e ≤ 1)
      ∧ (∀ i r, w.mining.issued.get i = some r →
          r.netWork.toNat = w.mining.shares.sum fun e =>
            if e.key = r.key ∧ e.mints = 0 then e.difficulty.toNat else 0)
      ∧ (∀ a, w.mining.poolWorkOf a + w.mining.mintedWorkOf a
          + w.mining.orderWorkOf a ≤ w.mining.acceptedWorkOf a) := by
  have hx := exclusiveBooks_of_reach h
  refine ⟨fun i e hi => hx.payments_le hi,
    fun i r hi => hx.shares.netWork_eq hi,
    fun a => ?_⟩
  rw [hx.shares.poolWorkOf_eq]
  unfold Mining.mintedWorkOf Mining.orderWorkOf Mining.acceptedWorkOf
  rw [← ObjStore.sum_add, ← ObjStore.sum_add]
  refine ObjStore.sum_le_sum fun j e hj => ?_
  have hle := hx.payments_le hj
  by_cases ha : e.miner = a
  · simp only [ha, if_true]
    unfold Mining.payments at hle
    calc w.mining.poolPayments e * e.difficulty.toNat
          + e.mints * e.difficulty.toNat
          + e.orderPayments * e.difficulty.toNat
        = (w.mining.poolPayments e + e.mints + e.orderPayments)
            * e.difficulty.toNat := by rw [Nat.add_mul, Nat.add_mul]
      _ ≤ 1 * e.difficulty.toNat := Nat.mul_le_mul_right _ (by omega)
      _ = e.difficulty.toNat := Nat.one_mul _
  · simp [ha]

/-- A share paid from a hashpower order, in a round nobody has closed. -/
def orderPaidShare : List Call :=
  [.admin (.registerTemplate block125552),
   .order (.placeHashpowerOrder 0 100_000_000_000 1 none false),
   .beginTx 1 0 0,
   .mining (.registerMiner []),
   .mining (.createRoundStats 0 0),
   .mining (.createShareDedup 0),
   .pay (.submitShareForPay 0 0 ⟨0, 0, 0⟩ solution125552)]

/-- A call that counts no object. -/
def noCount (_ : Mining) : MiningEvent → Bool
  | .accumulate .. => false
  | _ => true

theorem ordersUncounted_of_noCount (m : Mining) (ev : MiningEvent)
    (h : noCount m ev = true) : ordersUncounted m ev := by
  cases ev with
  | accumulate => cases h
  | _ => exact trivial

/-- The order's payment is the only one while the object is uncounted. -/
theorem share_paid_once_uncounted :
    ∃ w, Machine.ReachVia (contract sha256 0) (Call.meets ordersUncounted) w
      ∧ ∃ e, w.mining.shares.get 0 = some e ∧ e.orderPayments = 1
        ∧ w.mining.payments e ≤ 1 := by
  have hrun : (contract sha256 0).endsFrom (Call.passes noCount)
      (fun w => (w.mining.shares.get 0).any fun e =>
        decide (e.orderPayments = 1)) orderPaidShare (World.init 0) = true := by
    decide +kernel
  obtain ⟨w, hw, hcheck⟩ := Machine.reachVia_of_endsFrom
    (Call.meets_of_passes ordersUncounted_of_noCount) .init hrun
  obtain ⟨e, hget, hpaid⟩ := (Option.any_eq_true ..).mp hcheck
  exact ⟨w, hw, e, hget, of_decide_eq_true hpaid,
    (share_paid_once hw).1 0 e hget⟩

/-- The block it found opens the accumulator, and the object is counted:
the order and the pool both pay the one share. -/
theorem order_paid_share_counted :
    ∃ w, Machine.Reach (contract sha256 0) w
      ∧ (∃ e, w.mining.shares.get 0 = some e ∧ w.mining.payments e = 2)
      ∧ w.mining.acceptedWorkOf 1 < w.mining.poolWorkOf 1
          + w.mining.mintedWorkOf 1 + w.mining.orderWorkOf 1 := by
  have hrun : (contract sha256 0).endsIn
      (orderPaidShare ++ [.mining (.openRoundAccumulatorFromClaim 0),
        .mining (.accumulateMinerStats 0 [0])])
      (fun w => ((w.mining.shares.get 0).any fun e =>
          decide (w.mining.payments e = 2))
        && decide (w.mining.acceptedWorkOf 1 < w.mining.poolWorkOf 1
          + w.mining.mintedWorkOf 1 + w.mining.orderWorkOf 1)) = true := by
    decide +kernel
  obtain ⟨w, hw, hcheck⟩ := Machine.reach_of_endsIn hrun
  rw [Bool.and_eq_true] at hcheck
  obtain ⟨e, hget, hpaid⟩ := (Option.any_eq_true ..).mp hcheck.1
  exact ⟨w, hw, ⟨e, hget, of_decide_eq_true hpaid⟩,
    of_decide_eq_true hcheck.2⟩

end M1n3Protocol
