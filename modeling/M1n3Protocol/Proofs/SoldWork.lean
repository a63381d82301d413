/-
Sold work: a stats object never counts more as sold than it counts as
done, neither in work nor in shares.

# Why

A receipt exists for one recorded share and is spent once. `ShareBooks`
has this for the two work counters; `CountBooks` says it of the two share
counters: they number the shares under the object's key, and the minted
ones among them. So what an accumulator takes from an object is a plain
difference, and its guard against a negative one never cuts anything.
-/
import M1n3Protocol.Proofs.Exclusivity
import M1n3Protocol.Proofs.Supply

namespace M1n3Protocol

open Checked

/-- How many shares are under a key. -/
def Mining.shareCount (m : Mining) (k : MinerRoundKey) : Nat :=
  m.shares.sum fun e => if e.key = k then 1 else 0

/-- How many mints there were of shares under a key. -/
def Mining.mintedCount (m : Mining) (k : MinerRoundKey) : Nat :=
  m.shares.sum fun e => if e.key = k then e.mints else 0

structure CountBooks (m : Mining) : Prop where
  stats_shares : m.roundStats.All fun s =>
    s.shares.toNat = m.shareCount s.key
  stats_sold : m.roundStats.All fun s =>
    s.soldShares.toNat = m.mintedCount s.key

theorem CountBooks.init (admin : Address) :
    CountBooks (Mining.init admin) where
  stats_shares := .empty
  stats_sold := .empty

variable {H : HashFn} {ctx : TxContext} {m m' : Mining}

/-- A share is minted at most once, so no more are minted than there
are. -/
theorem ShareBooks.mintedCount_le (hb : ShareBooks m) (k : MinerRoundKey) :
    m.mintedCount k ≤ m.shareCount k := by
  refine ObjStore.sum_le_sum fun i e hi => ?_
  have hle := hb.mints_le i e hi
  show (if e.key = k then e.mints else 0) ≤ if e.key = k then 1 else 0
  split
  case isTrue => exact hle
  case isFalse => exact Nat.le_refl _

/-- Under a key that was never registered there is nothing to count. -/
theorem ShareBooks.shareCount_unregistered (hb : ShareBooks m)
    {k : MinerRoundKey} (hk : k ∉ m.roundRegistry) : m.shareCount k = 0 := by
  refine ObjStore.sum_eq_zero fun i e hi => if_neg fun hkey => hk ?_
  exact hkey ▸ hb.shares_registered i e hi

-- =============================================================== the steps

theorem CountBooks.of_frame (hb : CountBooks m)
    (hshares : m'.shares = m.shares)
    (hstats : ∀ s mrs, m'.roundStats.get s = some mrs →
      m.roundStats.get s = some mrs) : CountBooks m' := by
  constructor
  · intro s mrs hs
    unfold Mining.shareCount
    rw [hshares]
    exact hb.stats_shares s mrs (hstats s mrs hs)
  · intro s mrs hs
    unfold Mining.mintedCount
    rw [hshares]
    exact hb.stats_sold s mrs (hstats s mrs hs)

theorem CountBooks.createRoundStats (hsh : ShareBooks m) (hb : CountBooks m)
    {r h : U64} {registry : List MinerRoundKey} {mrs : MinerRoundStats}
    (hok : createRoundStats m.roundRegistry r h ctx = .ok (registry, mrs)) :
    CountBooks { m with
      roundRegistry := registry, roundStats := m.roundStats.alloc mrs } := by
  obtain ⟨hnew, rfl, hmrs⟩ := createRoundStats_ok hok
  have hzero := hsh.shareCount_unregistered hnew
  constructor
  · apply hb.stats_shares.alloc
    show mrs.shares.toNat = m.shareCount mrs.key
    rw [hzero, hmrs]
    rfl
  · have hle := hsh.mintedCount_le mrs.key
    rw [hzero] at hle
    apply hb.stats_sold.alloc
    show mrs.soldShares.toNat = m.mintedCount mrs.key
    rw [Nat.le_zero.mp hle, hmrs]
    rfl

/-- An accepted share counts once under the key of its object. -/
theorem CountBooks.share (hr : RoundBooks m) (hb : CountBooks m)
    {mined : TemplateRef} {ids : ShareIds} {sub : Submission}
    {payment : Option Payment} {job : Job} {o : MinerObjects}
    {out : ShareOutcome} {receipts : ObjStore ReceiptObject}
    (h : m.Shared H ctx mined ids sub payment job o out receipts) :
    CountBooks { m.recordShare ids mined job.height payment out with
      receipts } := by
  have hkey : out.objects.round.key = o.round.key :=
    key_of_recordShare h.accepted.record_ok
  obtain ⟨-, -, -, -, -, -, -, hshares, -, hsold, -⟩ :=
    recordShare_ok h.accepted.record_ok
  have hcount : ∀ k, Mining.shareCount
      { m.recordShare ids mined job.height payment out with receipts } k
      = m.shareCount k + if out.objects.round.key = k then 1 else 0 :=
    fun k => ObjStore.sum_alloc ..
  have hminted : ∀ k, Mining.mintedCount
      { m.recordShare ids mined job.height payment out with receipts } k
      = m.mintedCount k := by
    intro k
    refine (ObjStore.sum_alloc ..).trans ?_
    simp only [ite_self, Nat.add_zero]
    rfl
  constructor
  · intro s mrs hs
    rw [hcount]
    rcases hr.stats_inj.get_put h.round_get hs with ⟨-, rfl⟩ | ⟨hs, hne⟩
    · rw [if_pos rfl, hshares, hb.stats_shares _ _ h.round_get, hkey]
    · rw [hkey, if_neg hne, Nat.add_zero]
      exact hb.stats_shares s mrs hs
  · intro s mrs hs
    rw [hminted]
    rcases hr.stats_inj.get_put h.round_get hs with ⟨-, rfl⟩ | ⟨hs, -⟩
    · rw [hsold, hb.stats_sold _ _ h.round_get, hkey]
    · exact hb.stats_sold s mrs hs

/-- A mint counts one share as sold, in its entry and in the object of
its key. -/
theorem CountBooks.mint (hr : RoundBooks m) (hsh : ShareBooks m)
    (hb : CountBooks m) {rid sid : ID} {r : ReceiptObject}
    {mrs mrs' : MinerRoundStats} (hrid : m.receipts.get rid = some r)
    (hsid : m.roundStats.get sid = some mrs)
    (hok : recordSoldShare mrs r.receipt.miner r.receipt.difficulty
      r.receipt.roundId = .ok mrs') :
    CountBooks (m.recordMint rid sid r.share mrs') := by
  obtain ⟨e, he, hfor⟩ := hsh.receipts_for rid r hrid
  have hkey : mrs'.key = mrs.key := key_of_recordSoldShare hok
  obtain ⟨hround, hminer, -, -, -, hshares, -, hsold, -⟩ :=
    recordSoldShare_ok hok
  have hmrs : mrs.key = e.key := by
    rw [hfor.key, ← hround, ← hminer]
    rfl
  have hput : (m.recordMint rid sid r.share mrs').shares
      = m.shares.put r.share { e with mints := e.mints + 1 } := by
    simp only [Mining.recordMint, he]
  have hcount : ∀ k,
      (m.recordMint rid sid r.share mrs').shareCount k = m.shareCount k := by
    intro k
    have := ObjStore.sum_put he { e with mints := e.mints + 1 }
      (fun e => if e.key = k then 1 else 0)
    rw [← hput] at this
    exact Nat.add_right_cancel this
  have hminted : ∀ k, (m.recordMint rid sid r.share mrs').mintedCount k
      = m.mintedCount k + if e.key = k then 1 else 0 := by
    intro k
    have := ObjStore.sum_put he { e with mints := e.mints + 1 }
      (fun e => if e.key = k then e.mints else 0)
    rw [← hput, hfor.unminted] at this
    simp only [ite_self, Nat.add_zero, Nat.zero_add] at this
    exact this
  constructor
  · intro s b hs
    rw [hcount]
    rcases hr.stats_inj.get_put hsid hs with ⟨-, rfl⟩ | ⟨hs, -⟩
    · rw [hshares, hkey]
      exact hb.stats_shares _ _ hsid
    · exact hb.stats_shares s b hs
  · intro s b hs
    rw [hminted]
    rcases hr.stats_inj.get_put hsid hs with ⟨-, rfl⟩ | ⟨hs, hne⟩
    · rw [hsold, hkey, if_pos hmrs.symm, hb.stats_sold _ _ hsid]
    · rw [← hmrs, if_neg hne, Nat.add_zero]
      exact hb.stats_sold s b hs

theorem CountBooks.step {ev : MiningEvent} (hr : RoundBooks m)
    (hsh : ShareBooks m) (hb : CountBooks m)
    (hs : Mining.Step H ctx m ev m') : CountBooks m' := by
  cases hs with
  | createRoundStats hok => exact hb.createRoundStats hsh hok
  | share h => exact hb.share hr h
  | mint hrid hsid hok => exact hb.mint hr hsh hrid hsid hok
  | closeRoundStats | skip | count =>
      exact hb.of_frame rfl fun _ _ h => (ObjStore.get_erase_eq_some h).2
  | quiet | createDedup | dropHashes | deleteDedup | clearReceipts
  | openAccumulator | finalize | consume =>
      exact hb.of_frame rfl fun _ _ h => h

theorem countBooks_of_reach {publisher : Address} {w : World}
    (h : Machine.Reach (contract H publisher) w) : CountBooks w.mining :=
  (mining_invariant_always
    (I := fun m => RoundBooks m ∧ ShareBooks m ∧ CountBooks m)
    ⟨.init publisher, .init publisher, .init publisher⟩
    (fun _ _ _ _ hb hs => ⟨hb.1.step hs, hb.2.1.step hb.1 hs,
      hb.2.2.step hb.1 hb.2.1 hs⟩) h).2.2

-- ===================================================== exact subtraction

/-- Nothing is cut off when no more is sold than done. -/
theorem netWork_exact {mrs : MinerRoundStats} (h : mrs.soldWork ≤ mrs.work) :
    (netWork mrs).toNat + mrs.soldWork.toNat = mrs.work.toNat := by
  have hle : mrs.soldWork.toNat ≤ mrs.work.toNat := h
  rw [toNat_netWork]
  omega

theorem netShares_exact {mrs : MinerRoundStats}
    (h : mrs.soldShares ≤ mrs.shares) :
    (netShares mrs).toNat + mrs.soldShares.toNat = mrs.shares.toNat := by
  have hle : mrs.soldShares.toNat ≤ mrs.shares.toNat := h
  unfold netShares
  split
  case isTrue hge =>
    have hge' : mrs.shares.toNat ≤ mrs.soldShares.toNat := hge
    show 0 + _ = _
    omega
  case isFalse =>
    rw [BitVec.toNat_sub_of_le h]
    omega

/-- A pass over an object of the round moves into the accumulator what
the object has done and not sold. -/
theorem accumulateStats_exact {acc acc' : RoundAccumulator}
    {mrs : MinerRoundStats} {caller : Address}
    {record : Option MinerWorkRecord} (hwork : mrs.soldWork ≤ mrs.work)
    (hshares : mrs.soldShares ≤ mrs.shares)
    (hround : mrs.roundId = acc.roundId)
    (hok : accumulateStats acc mrs caller = .ok (acc', record)) :
    acc'.totalWork.toNat + mrs.soldWork.toNat
        = acc.totalWork.toNat + mrs.work.toNat
      ∧ acc'.totalShares.toNat + mrs.soldShares.toNat
        = acc.totalShares.toNat + mrs.shares.toNat
      ∧ ∀ r, record = some r →
        r.netWork.toNat + mrs.soldWork.toNat = mrs.work.toNat := by
  simp only [accumulateStats, if_pos hround, bind_eq_ok, require_eq_ok,
    pure_eq_ok, add_eq_ok] at hok
  obtain ⟨-, -, tw, htw, ts, hts, heq⟩ := hok
  injection heq with hacc hrec
  have hw := netWork_exact hwork
  have hn := netShares_exact hshares
  refine ⟨?_, ?_, fun r hr => ?_⟩
  · rw [← hacc]
    show tw.toNat + _ = _
    omega
  · rw [← hacc]
    show ts.toNat + _ = _
    omega
  · rw [← hrec] at hr
    split at hr
    case isTrue =>
      cases hr
      exact hw
    case isFalse => cases hr

/-- In every reachable state no stats object has sold more than it has
done, and its net work is the plain difference, whatever pass over it
succeeds. -/
theorem sold_within_done {publisher : Address} {w : World}
    (h : Machine.Reach (contract H publisher) w) :
    w.mining.roundStats.All fun mrs =>
      mrs.soldWork ≤ mrs.work ∧ mrs.soldShares ≤ mrs.shares
        ∧ (netWork mrs).toNat + mrs.soldWork.toNat = mrs.work.toNat
        ∧ (netShares mrs).toNat + mrs.soldShares.toNat = mrs.shares.toNat
        ∧ mrs.work.toNat = w.mining.shareWork mrs.key
        ∧ mrs.shares.toNat = w.mining.shareCount mrs.key
        ∧ ∀ acc acc' caller record,
          accumulateStats acc mrs caller = .ok (acc', record) →
          mrs.roundId = acc.roundId →
          acc'.totalWork.toNat + mrs.soldWork.toNat
              = acc.totalWork.toNat + mrs.work.toNat
            ∧ acc'.totalShares.toNat + mrs.soldShares.toNat
              = acc.totalShares.toNat + mrs.shares.toNat
            ∧ ∀ r, record = some r →
              r.netWork.toNat + mrs.soldWork.toNat = mrs.work.toNat := by
  have hsh := shareBooks_of_reach h
  have hb := countBooks_of_reach h
  intro i mrs hi
  have hwork : mrs.soldWork ≤ mrs.work := by
    rw [BitVec.le_def, hsh.stats_work i mrs hi, hsh.stats_sold i mrs hi]
    exact hsh.minted_le mrs.key
  have hshares : mrs.soldShares ≤ mrs.shares := by
    rw [BitVec.le_def, hb.stats_shares i mrs hi, hb.stats_sold i mrs hi]
    exact hsh.mintedCount_le mrs.key
  exact ⟨hwork, hshares, netWork_exact hwork, netShares_exact hshares,
    hsh.stats_work i mrs hi, hb.stats_shares i mrs hi,
    fun acc acc' caller record hok hround =>
      accumulateStats_exact hwork hshares hround hok⟩

/-- The one share minted above is all its object has done and all it has
sold. -/
theorem sold_within_done_mintedShare :
    ∃ w, Machine.Reach (contract sha256 0) w
      ∧ ∃ mrs, w.mining.roundStats.get 0 = some mrs ∧ mrs.soldShares = 1
        ∧ mrs.soldShares ≤ mrs.shares ∧ mrs.soldWork ≤ mrs.work := by
  have hrun : (contract sha256 0).endsIn mintedShare (fun w =>
      (w.mining.roundStats.get 0).any fun mrs =>
        decide (mrs.soldShares = 1)) = true := by
    decide +kernel
  obtain ⟨w, hw, hcheck⟩ := Machine.reach_of_endsIn hrun
  obtain ⟨mrs, hget, hsold⟩ := (Option.any_eq_true ..).mp hcheck
  obtain ⟨hwork, hshares, -⟩ := sold_within_done hw 0 mrs hget
  exact ⟨w, hw, mrs, hget, of_decide_eq_true hsold, hshares, hwork⟩

end M1n3Protocol
