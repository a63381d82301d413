/-
Reward batches: every record of a finalized round can be claimed for the
floor of its share, in any order, and the batch never runs dry.

# The invariant

A round's records are live, or were claimed: `work_eq` says that their
work together is what was ever issued, which for a finalized round is the
total work of its history. A batch has paid the shares of the records
claimed on it, so with one more record of its round, claimed or not, the
shares still come to at most its total (`RewardBooks.claim_fits`). That
one bound is why a claim finds its balance, and why a batch that has
nothing left owes nothing to anyone.
-/
import M1n3Protocol.Proofs.Vault
import M1n3Protocol.Lib.ProRata

namespace M1n3Protocol

open Checked

/-- The work of the records of round `r` not consumed yet. -/
def Mining.liveWork (m : Mining) (r : U64) : Nat :=
  m.workRecords.sum fun rec => if rec.roundId = r then rec.netWork.toNat else 0

/-- The work of the records of round `r` consumed by claims. -/
def Hashi.claimedWork (h : Hashi) (r : U64) : Nat :=
  h.claimed.sum fun c =>
    if c.record.roundId = r then c.record.netWork.toNat else 0

/-- What the claims on a batch were paid. -/
def Hashi.paidOn (h : Hashi) (bid : ID) : Nat :=
  h.claimed.sum fun c => if c.batch = bid then c.amount.toNat else 0

/-- The satoshis of a batch that is closed for good. -/
def HashiRewardBatch.finishedSats (b : HashiRewardBatch) : Nat :=
  if b.status = .completed ∨ b.status = .expired then b.totalSats.toNat else 0

theorem HashiRewardBatch.finishedSats_of_funded {b : HashiRewardBatch}
    (h : b.status = .funded) : b.finishedSats = 0 := by
  rw [finishedSats, h]
  rfl

theorem HashiRewardBatch.finishedSats_of_ended {b : HashiRewardBatch}
    (h : b.status = .completed ∨ b.status = .expired) :
    b.finishedSats = b.totalSats.toNat := if_pos h

/-- A funded batch replaced adds what its replacement closes with. -/
theorem sum_finishedSats_put {batches : ObjStore HashiRewardBatch} {bid : ID}
    {b : HashiRewardBatch} (hget : batches.get bid = some b)
    (hfunded : b.status = .funded) (b' : HashiRewardBatch) :
    (batches.put bid b').sum HashiRewardBatch.finishedSats
      = batches.sum HashiRewardBatch.finishedSats + b'.finishedSats := by
  have hput := ObjStore.sum_put hget b' HashiRewardBatch.finishedSats
  rw [HashiRewardBatch.finishedSats_of_funded hfunded] at hput
  exact hput

variable {H : HashFn} {ctx : TxContext} {m m' : Mining}

-- ======================================= the mining side between claims

/-- Between claims, histories stay and the records that come are live. -/
structure Mining.Grown (m m' : Mining) : Prop where
  histories : ∀ i rh, m.histories.get i = some rh →
    m'.histories.get i = some rh
  records : ∀ r, ∃ d, m'.liveWork r = m.liveWork r + d
    ∧ m'.issuedWork r = m.issuedWork r + d

theorem Mining.Grown.of_frame (hhist : m'.histories = m.histories)
    (hrec : m'.workRecords = m.workRecords) (hissued : m'.issued = m.issued) :
    m.Grown m' := by
  refine ⟨fun i rh h => by rw [hhist]; exact h, fun r => ⟨0, ?_, ?_⟩⟩
  · unfold Mining.liveWork
    rw [hrec]
    rfl
  · unfold Mining.issuedWork
    rw [hissued]
    rfl

theorem Mining.Grown.trans {m'' : Mining} (h : m.Grown m')
    (h' : m'.Grown m'') : m.Grown m'' := by
  refine ⟨fun i rh hi => h'.histories i rh (h.histories i rh hi), fun r => ?_⟩
  obtain ⟨d, hlive, hissued⟩ := h.records r
  obtain ⟨d', hlive', hissued'⟩ := h'.records r
  exact ⟨d + d', by omega, by omega⟩

theorem Mining.Step.grown {ev : MiningEvent} (hs : Mining.Step H ctx m ev m')
    (hev : ∀ rid, ev ≠ .consume rid) : m.Grown m' := by
  cases hs with
  | quiet | createRoundStats | closeRoundStats | createDedup | dropHashes
  | deleteDedup | share | clearReceipts | mint | openAccumulator
  | skip => exact .of_frame rfl rfl rfl
  | @count accId sid acc acc' mrs hacc hs hmine heq hround hwork =>
      refine ⟨fun i rh h => h, fun r => ?_⟩
      by_cases hpos : 0 < netWork mrs
      · refine ⟨if mrs.roundId = r then (netWork mrs).toNat else 0, ?_, ?_⟩
        · unfold Mining.liveWork
          simp only [if_pos hpos]
          exact ObjStore.sum_alloc ..
        · unfold Mining.issuedWork
          simp only [if_pos hpos]
          exact ObjStore.sum_alloc ..
      · refine ⟨0, ?_, ?_⟩
        · unfold Mining.liveWork
          simp only [if_neg hpos]
          rfl
        · unfold Mining.issuedWork
          simp only [if_neg hpos]
          rfl
  | finalize hacc hok =>
      exact ⟨fun i rh h => ObjStore.get_alloc_of_some _ h,
        fun r => ⟨0, rfl, rfl⟩⟩
  | consume => exact absurd rfl (hev _)

/-- A call off the hBTC side consumes no record. -/
theorem Call.events_ne_consume {c : Call} (hc : c.onHashi = false) :
    ∀ ev ∈ c.events, ∀ rid, ev ≠ .consume rid := by
  intro ev hev rid
  rintro rfl
  cases c with
  | mining c =>
      cases c with
      | accumulateMinerStats acc sids =>
          obtain ⟨sid, -, h⟩ := List.mem_map.mp hev
          cases h
      | _ => cases List.mem_singleton.mp hev
  | pay c => cases c <;> cases List.mem_singleton.mp hev
  | claimReward => cases hc
  | beginTx | admin | mintShare => cases List.mem_singleton.mp hev
  | _ => cases hev

theorem Mining.grown_of_trace {evs : List MiningEvent}
    (h : Trace (Mining.Step H ctx) m evs m')
    (hevs : ∀ ev ∈ evs, ∀ rid, ev ≠ .consume rid) : m.Grown m' := by
  refine (Trace.invariant (P := fun m₁ evs => m.Grown m₁
    ∧ ∀ ev ∈ evs, ∀ rid, ev ≠ .consume rid) ?_ h
    ⟨.of_frame rfl rfl rfl, hevs⟩).1
  rintro m₁ ev evs m₂ ⟨hgrown, hall⟩ hR
  exact ⟨hgrown.trans (hR.grown (hall ev (List.mem_cons_self ..))),
    fun ev' hev' => hall ev' (List.mem_cons_of_mem _ hev')⟩

-- ========================================================== the invariant

structure RewardBooks (w : World) : Prop where
  work_eq : ∀ r, w.mining.liveWork r + w.hashi.claimedWork r
    = w.mining.issuedWork r
  batch_round : w.hashi.batches.All fun b =>
    ∃ i rh, w.mining.histories.get i = some rh ∧ rh.roundId = b.roundId
  claim_batch : w.hashi.claimed.All fun c =>
    ∃ b, w.hashi.batches.get c.batch = some b ∧ c.record.roundId = b.roundId
      ∧ c.amount.toNat = ProRata.share c.record.netWork.toNat
          b.totalSats.toNat (w.mining.issuedWork b.roundId)
  paid_eq : ∀ i b, w.hashi.batches.get i = some b →
    b.claimedSats.toNat = w.hashi.paidOn i
  held : w.hashi.batches.All fun b => b.status ≠ .expired →
    b.balance.toNat + b.claimedSats.toNat = b.totalSats.toNat
  within : w.hashi.batches.All fun b =>
    b.claimedSats.toNat ≤ b.totalSats.toNat
  drained : w.hashi.batches.All fun b =>
    b.status = .completed → b.balance.toNat = 0
  booked : w.hashi.rewards.totalSatsDistributed.toNat
      + w.hashi.rewards.totalSatsExpired.toNat
    = w.hashi.batches.sum HashiRewardBatch.finishedSats
  counted : w.hashi.rewards.totalBatches.toNat = w.hashi.batches.next

theorem RewardBooks.init (publisher : Address) :
    RewardBooks (World.init publisher) where
  work_eq _ := rfl
  batch_round := .empty
  claim_batch := .empty
  paid_eq _ _ h := by cases h
  held := .empty
  within := .empty
  drained := .empty
  booked := rfl
  counted := rfl

-- ====================================================== what a claim costs

variable {w w' : World}

/-- The shares paid on a batch and the share of any live record of its
round fit in the batch together. -/
theorem RewardBooks.claim_fits (hb : RewardBooks w) {bid rid : ID}
    {b : HashiRewardBatch} {r : MinerWorkRecord}
    (hget : w.hashi.batches.get bid = some b)
    (hr : w.mining.workRecords.get rid = some r)
    (hround : r.roundId = b.roundId) :
    b.claimedSats.toNat + ProRata.share r.netWork.toNat b.totalSats.toNat
      (w.mining.issuedWork b.roundId) ≤ b.totalSats.toNat := by
  -- The claims as they would be with `r` claimed on the batch too.
  let weight : ClaimEntry → Nat := fun c =>
    if c.batch = bid then c.record.netWork.toNat else 0
  have hmine : ∀ c : ClaimEntry, c.batch = bid →
      weight c = c.record.netWork.toNat := fun c hc => if_pos hc
  have hother : ∀ c : ClaimEntry, c.batch ≠ bid → weight c = 0 :=
    fun c hc => if_neg hc
  have hwork : (w.hashi.claimed.alloc ⟨bid, r, 0⟩).sum weight
      ≤ w.mining.issuedWork b.roundId := by
    have hclaimed : w.hashi.claimed.sum weight
        ≤ w.hashi.claimedWork b.roundId := by
      refine ObjStore.sum_le_sum fun i c hc => ?_
      obtain ⟨b', hb', hcround, -⟩ := hb.claim_batch i c hc
      by_cases hbid : c.batch = bid
      · rw [hbid, hget] at hb'
        cases hb'
        rw [hmine c hbid, if_pos hcround]
      · rw [hother c hbid]
        exact Nat.zero_le _
    have hlive := ObjStore.le_sum hr fun rec =>
      if rec.roundId = b.roundId then rec.netWork.toNat else 0
    simp only [if_pos hround] at hlive
    have htotal := hb.work_eq b.roundId
    rw [ObjStore.sum_alloc, hmine _ rfl]
    show _ + r.netWork.toNat ≤ _
    unfold Mining.liveWork at htotal
    omega
  have hshares := ProRata.sum_share_le _ weight b.totalSats.toNat hwork
  rw [ObjStore.sum_alloc, hmine _ rfl] at hshares
  have hpaid : w.hashi.paidOn bid = w.hashi.claimed.sum fun c =>
      ProRata.share (weight c) b.totalSats.toNat
        (w.mining.issuedWork b.roundId) := by
    refine ObjStore.sum_congr fun i c hc => ?_
    obtain ⟨b', hb', -, hamount⟩ := hb.claim_batch i c hc
    by_cases hbid : c.batch = bid
    · rw [hbid, hget] at hb'
      cases hb'
      rw [hmine c hbid, if_pos hbid, hamount]
    · rw [hother c hbid, if_neg hbid, ProRata.share_zero]
  rw [hb.paid_eq bid b hget, hpaid]
  exact hshares

-- =============================================================== the steps

/-- Off the hBTC side: the rounds of the batches are finalized, so what
was issued for them no longer changes. -/
theorem RewardBooks.grow (hb : RewardBooks w) (hr : RoundBooks w.mining)
    (hr' : RoundBooks w'.mining) (hgrown : w.mining.Grown w'.mining)
    (hhashi : w'.hashi = w.hashi) : RewardBooks w' := by
  have hissued : ∀ b i rh, w.mining.histories.get i = some rh →
      rh.roundId = b →
      w'.mining.issuedWork b = w.mining.issuedWork b := by
    rintro _ i rh hi rfl
    rw [← hr.history_work i rh hi,
      ← hr'.history_work i rh (hgrown.histories i rh hi)]
  refine {
    work_eq := fun r => ?_
    batch_round := ?_
    claim_batch := ?_
    paid_eq := by rw [hhashi]; exact hb.paid_eq
    held := by rw [hhashi]; exact hb.held
    within := by rw [hhashi]; exact hb.within
    drained := by rw [hhashi]; exact hb.drained
    booked := by rw [hhashi]; exact hb.booked
    counted := by rw [hhashi]; exact hb.counted }
  · obtain ⟨d, hlive, hiss⟩ := hgrown.records r
    have := hb.work_eq r
    rw [hhashi]
    omega
  · rw [hhashi]
    intro i b hi
    obtain ⟨j, rh, hj, hround⟩ := hb.batch_round i b hi
    exact ⟨j, rh, hgrown.histories j rh hj, hround⟩
  · rw [hhashi]
    intro i c hi
    obtain ⟨b, hbatch, hround, hamount⟩ := hb.claim_batch i c hi
    obtain ⟨j, rh, hj, hrh⟩ := hb.batch_round _ b hbatch
    exact ⟨b, hbatch, hround, by rw [hissued _ j rh hj hrh]; exact hamount⟩

/-- No claim is on a batch yet to be opened. -/
theorem RewardBooks.paidOn_next (hb : RewardBooks w) :
    w.hashi.paidOn w.hashi.batches.next = 0 := by
  refine ObjStore.sum_eq_zero fun i c hc => if_neg fun hbid => ?_
  obtain ⟨b, hbatch, -⟩ := hb.claim_batch i c hc
  rw [hbid, ObjStore.get_next] at hbatch
  cases hbatch

theorem RewardBooks.openBatch (hb : RewardBooks w) {hid rid : ID}
    {rh : RoundHistory} {r : RecordObject} {out : BatchOpened}
    (hhist : w.mining.histories.get hid = some rh)
    (hok : OpenedBatch w.hashi.rewards w.hashi.vault rh r.record
      w.hashi.batches.next out) :
    RewardBooks { w with hashi := { w.hashi with
      rewards := out.registry
      vault := out.vault
      records := w.hashi.records.put rid { r with record := out.record }
      batches := w.hashi.batches.alloc out.batch } } := by
  have hzero : (0 : U64).toNat = 0 := rfl
  refine {
    work_eq := hb.work_eq
    batch_round := hb.batch_round.alloc ⟨hid, rh, hhist, hok.batch_round.symm⟩
    claim_batch := ?_
    paid_eq := ?_
    held := hb.held.alloc fun _ => ?_
    within := hb.within.alloc ?_
    drained := hb.drained.alloc fun hs => ?_
    booked := ?_
    counted := ?_ }
  · intro i c hi
    obtain ⟨b, hbatch, hround, hamount⟩ := hb.claim_batch i c hi
    exact ⟨b, ObjStore.get_alloc_of_some _ hbatch, hround, hamount⟩
  · intro i b hi
    rcases ObjStore.get_alloc_eq_some hi with ⟨rfl, rfl⟩ | hi
    · rw [hok.batch_claimed, hzero]
      exact hb.paidOn_next.symm
    · exact hb.paid_eq i b hi
  · rw [hok.batch_balance, hok.batch_claimed, hok.batch_total]
    rfl
  · rw [hok.batch_claimed]
    exact Nat.zero_le _
  · rw [hok.batch_status] at hs
    cases hs
  · dsimp only
    rw [hok.distributed, hok.expired, ObjStore.sum_alloc,
      HashiRewardBatch.finishedSats_of_funded hok.batch_status]
    exact hb.booked
  · have := hb.counted
    have := hok.batches
    dsimp only
    rw [ObjStore.next_alloc]
    omega

/-- A batch replaced by one of its round and total keeps its claims. -/
theorem RewardBooks.claim_batch_put (hb : RewardBooks w) {bid : ID}
    {b b' : HashiRewardBatch} (hget : w.hashi.batches.get bid = some b)
    (hround : b'.roundId = b.roundId) (htotal : b'.totalSats = b.totalSats) :
    w.hashi.claimed.All fun c =>
      ∃ b₁, (w.hashi.batches.put bid b').get c.batch = some b₁
        ∧ c.record.roundId = b₁.roundId
        ∧ c.amount.toNat = ProRata.share c.record.netWork.toNat
            b₁.totalSats.toNat (w.mining.issuedWork b₁.roundId) := by
  intro i c hi
  obtain ⟨b₀, hb₀, hcround, hamount⟩ := hb.claim_batch i c hi
  by_cases hbid : c.batch = bid
  · rw [hbid, hget] at hb₀
    cases hb₀
    refine ⟨b', ?_, ?_, ?_⟩
    · rw [hbid]
      exact ObjStore.get_put_self _ hget
    · rw [hround]
      exact hcround
    · rw [hround, htotal]
      exact hamount
  · refine ⟨b₀, ?_, hcround, hamount⟩
    rw [ObjStore.get_put_ne _ hbid]
    exact hb₀

/-- A claim moves its record's work from the live to the claimed side and
pays the record's share; a batch it empties is booked in full. -/
theorem RewardBooks.claim (hb : RewardBooks w) (hrb : RoundBooks w.mining)
    {bid rid hid : ID} {b b' : HashiRewardBatch} {r : MinerWorkRecord}
    {rh : RoundHistory} {reg : HashiRewardRegistry} {amount : U64}
    (hget : w.hashi.batches.get bid = some b)
    (hr : w.mining.workRecords.get rid = some r)
    (hhist : w.mining.histories.get hid = some rh)
    (hok : Claimed w.hashi.rewards b r rh w.ctx reg b' amount) :
    RewardBooks { w with
      mining := { w.mining with
        workRecords := w.mining.workRecords.erase rid }
      hashi := { w.hashi with
        rewards := reg
        batches := w.hashi.batches.put bid b'
        claimed := w.hashi.claimed.alloc ⟨bid, r, amount⟩
        paidOut := w.hashi.paidOut + amount.toNat } } := by
  have hlive : b.status ≠ .expired := by
    rw [hok.was_funded]
    exact fun h => by cases h
  have hheld := hb.held bid b hget hlive
  have hbal := hok.balance_eq
  have hcl := hok.claimed_eq
  have htot : b'.totalSats.toNat = b.totalSats.toNat := by rw [hok.total_eq]
  have hshare : amount.toNat = ProRata.share r.netWork.toNat
      b'.totalSats.toNat (w.mining.issuedWork b'.roundId) := by
    rw [hok.amount_eq, htot, hok.round_eq, ← hok.round_batch,
      hok.round_history, ← hrb.history_work hid rh hhist]
    rfl
  refine {
    work_eq := fun s => ?_
    batch_round := hb.batch_round.put ?_
    claim_batch := ObjStore.All.alloc
      (hb.claim_batch_put hget hok.round_eq hok.total_eq) ?_
    paid_eq := ?_
    held := hb.held.put fun _ => by omega
    within := hb.within.put (by omega)
    drained := hb.drained.put fun hs => ?_
    booked := ?_
    counted := ?_ }
  · have h1 := hb.work_eq s
    have h2 := ObjStore.sum_erase hr fun rec =>
      if rec.roundId = s then rec.netWork.toNat else 0
    have h3 := ObjStore.sum_alloc w.hashi.claimed ⟨bid, r, amount⟩ fun c =>
      if c.record.roundId = s then c.record.netWork.toNat else 0
    unfold Mining.liveWork Hashi.claimedWork Mining.issuedWork at *
    dsimp only at *
    omega
  · rw [hok.round_eq]
    exact hb.batch_round bid b hget
  · exact ⟨b', ObjStore.get_put_self _ hget,
      by rw [hok.round_eq]; exact hok.round_batch, hshare⟩
  · intro i b₀ hi
    show _ = (w.hashi.claimed.alloc ⟨bid, r, amount⟩).sum _
    rw [ObjStore.sum_alloc]
    rcases ObjStore.get_put_eq_some hi with ⟨rfl, rfl, -⟩ | ⟨hne, hi⟩
    · have := hb.paid_eq i b hget
      unfold Hashi.paidOn at this
      simp only [if_true]
      omega
    · have := hb.paid_eq i b₀ hi
      unfold Hashi.paidOn at this
      simp only [if_neg (Ne.symm hne)]
      omega
  · rcases hok.ending with ⟨hz, -⟩ | ⟨-, hfunded, -⟩
    · exact hz
    · rw [hfunded] at hs
      cases hs
  · have hbook := hb.booked
    dsimp only
    rw [sum_finishedSats_put hget hok.was_funded, hok.expired_eq]
    rcases hok.ending with ⟨hz, hcomp, hdist⟩ | ⟨-, hfunded, hdist⟩
    · rw [HashiRewardBatch.finishedSats_of_ended (.inl hcomp), htot]
      omega
    · rw [HashiRewardBatch.finishedSats_of_funded hfunded, hdist]
      exact hbook
  · dsimp only
    rw [hok.batches_eq, ObjStore.next_put]
    exact hb.counted

/-- A sweep books what was paid and what was left. -/
theorem RewardBooks.recycle (hb : RewardBooks w) {bid : ID}
    {b b' : HashiRewardBatch} {reg : HashiRewardRegistry}
    {vault : HashiVault} (hget : w.hashi.batches.get bid = some b)
    (hok : recycleExpiredToVault w.hashi.rewards b w.hashi.vault w.ctx
      = .ok (reg, b', vault)) :
    RewardBooks { w with hashi := { w.hashi with
      rewards := reg, vault, batches := w.hashi.batches.put bid b' } } := by
  obtain ⟨hfunded, -, -, rfl, hn, hdist, hexp⟩ := recycleExpiredToVault_ok hok
  have hheld := hb.held bid b hget (by rw [hfunded]; exact fun h => by cases h)
  refine { hb with
    batch_round := hb.batch_round.put (hb.batch_round bid b hget)
    claim_batch := hb.claim_batch_put hget rfl rfl
    paid_eq := ?_
    held := hb.held.put fun h => absurd rfl h
    within := hb.within.put (hb.within bid b hget)
    drained := hb.drained.put fun h => by cases h
    booked := ?_
    counted := ?_ }
  · intro i b₀ hi
    rcases ObjStore.get_put_eq_some hi with ⟨rfl, rfl, -⟩ | ⟨-, hi⟩
    · exact hb.paid_eq i b hget
    · exact hb.paid_eq i b₀ hi
  · have hbook := hb.booked
    dsimp only
    rw [sum_finishedSats_put hget hfunded,
      HashiRewardBatch.finishedSats_of_ended (.inr rfl)]
    dsimp only
    omega
  · dsimp only
    rw [hn, ObjStore.next_put]
    exact hb.counted

theorem RewardBooks.step {c : Call} (hb : RewardBooks w)
    (hrb : RoundBooks w.mining) (hs : World.HashiStep w c w') :
    RewardBooks w' := by
  cases hs with
  | openBatch hhist hget hok => exact hb.openBatch hhist hok
  | claim hget hr hhist hok => exact hb.claim hrb hget hr hhist hok
  | recycleBatch hget hok => exact hb.recycle hget hok
  | initializeConfig | config | mark | confirm | record | credit
  | transferCoin | receive | collect | openRedemption | redeem
  | recycleRedemption => exact { hb with }

theorem rewardBooks_of_reach {publisher : Address}
    (h : Machine.Reach (contract H publisher) w) : RewardBooks w := by
  refine Machine.ReachVia.invariant_given
    (I := RewardBooks) (J := fun w => RoundBooks w.mining)
    (fun _ h => roundBooks_of_reach h) (RewardBooks.init publisher) ?_ h
  intro w c w' hr hr' hb _ hs
  rcases World.exec_hashi hs with ⟨-, hstep⟩ | ⟨hoff, hsame, -⟩
  · exact hb.step hr hstep
  · exact hb.grow hr hr' (Mining.grown_of_trace (World.exec_mining hs)
      (Call.events_ne_consume hoff)) hsame

-- ================================================================ solvency

/-- The registry has room to book any batch still open. -/
theorem RewardBooks.distributed_lt (hb : RewardBooks w) {bid : ID}
    {b : HashiRewardBatch} (hget : w.hashi.batches.get bid = some b)
    (hfunded : b.status = .funded) :
    w.hashi.rewards.totalSatsDistributed.toNat + b.totalSats.toNat
      < 2 ^ 128 := by
  have hput := sum_finishedSats_put hget hfunded
    { b with status := .completed }
  rw [HashiRewardBatch.finishedSats_of_ended (.inl rfl)] at hput
  dsimp only at hput
  have hmax : (w.hashi.batches.put bid { b with status := .completed }).sum
      HashiRewardBatch.finishedSats
      ≤ w.hashi.batches.next * (2 ^ 64 - 1) := by
    refine ObjStore.sum_le_mul fun i b' _ => ?_
    have := b'.totalSats.isLt
    show (if _ then _ else _) ≤ _
    split
    case isTrue => omega
    case isFalse => exact Nat.zero_le _
  have hnext : w.hashi.batches.next ≤ 2 ^ 64 - 1 := by
    have := w.hashi.rewards.totalBatches.isLt
    have := hb.counted
    omega
  have hbook := hb.booked
  have hmul := Nat.mul_le_mul_right (2 ^ 64 - 1) hnext
  omega

/-- A round with a live record has work. -/
theorem history_work_pos (hrb : RoundBooks w.mining) {rid hid : ID}
    {r : MinerWorkRecord} {rh : RoundHistory}
    (hr : w.mining.workRecords.get rid = some r)
    (hhist : w.mining.histories.get hid = some rh)
    (hround : r.roundId = rh.roundId) : 0 < rh.totalWork.toNat := by
  have hissued := hrb.records_issued rid r hr
  have hle := ObjStore.le_sum hissued fun rec =>
    if rec.roundId = rh.roundId then rec.netWork.toNat else 0
  simp only [if_pos hround] at hle
  rw [hrb.history_work hid rh hhist]
  exact (hrb.issued_pos rid r hissued).trans_le hle

/-- On every reachable chain: a claim of a live record on a funded batch
of its round before the deadline succeeds and pays the floor of its
share; every claim made was paid that; a batch holds what it has not
paid until it is swept, and never pays more than its total; a completed
one owes nothing to the records still live; and the registry has booked
exactly the completed and the expired batches. -/
theorem rewards_solvent {publisher : Address}
    (h : Machine.Reach (contract H publisher) w) :
    (∀ bid rid hid b r rh, w.hashi.batches.get bid = some b →
        w.mining.workRecords.get rid = some r →
        w.mining.histories.get hid = some rh →
        b.status = .funded → w.ctx.timestampMs < b.claimDeadlineMs →
        r.roundId = b.roundId → r.roundId = rh.roundId →
        r.miner = w.ctx.sender →
        ∃ w', w.exec H (.claimReward bid rid hid) = .ok w'
          ∧ w'.hashi.paidOut = w.hashi.paidOut
            + r.netWork.toNat * b.totalSats.toNat / rh.totalWork.toNat)
      ∧ (∀ i c, w.hashi.claimed.get i = some c →
          ∃ b hid rh, w.hashi.batches.get c.batch = some b
            ∧ w.mining.histories.get hid = some rh
            ∧ rh.roundId = b.roundId ∧ c.record.roundId = b.roundId
            ∧ c.amount.toNat = c.record.netWork.toNat * b.totalSats.toNat
                / rh.totalWork.toNat)
      ∧ (∀ bid b, w.hashi.batches.get bid = some b →
          b.claimedSats.toNat = w.hashi.paidOn bid
            ∧ b.claimedSats.toNat ≤ b.totalSats.toNat
            ∧ (b.status ≠ .expired →
                b.balance.toNat = b.totalSats.toNat - b.claimedSats.toNat))
      ∧ (∀ bid rid hid b r rh, w.hashi.batches.get bid = some b →
          w.mining.workRecords.get rid = some r →
          w.mining.histories.get hid = some rh →
          b.status = .completed → r.roundId = b.roundId →
          r.roundId = rh.roundId →
          r.netWork.toNat * b.totalSats.toNat / rh.totalWork.toNat = 0)
      ∧ w.hashi.rewards.totalSatsDistributed.toNat
          + w.hashi.rewards.totalSatsExpired.toNat
        = w.hashi.batches.sum HashiRewardBatch.finishedSats := by
  have hb := rewardBooks_of_reach h
  have hrb := roundBooks_of_reach h
  -- The share of a live record, over the history its round closed with.
  have hfits : ∀ bid rid hid b r rh, w.hashi.batches.get bid = some b →
      w.mining.workRecords.get rid = some r →
      w.mining.histories.get hid = some rh → r.roundId = b.roundId →
      r.roundId = rh.roundId → b.claimedSats.toNat
        + r.netWork.toNat * b.totalSats.toNat / rh.totalWork.toNat
          ≤ b.totalSats.toNat := by
    intro bid rid hid b r rh hget hr hhist hround hrh
    have hfits := hb.claim_fits hget hr hround
    rw [← hround, hrh, ← hrb.history_work hid rh hhist] at hfits
    exact hfits
  refine ⟨?_, ?_, ?_, ?_, hb.booked⟩
  · intro bid rid hid b r rh hget hr hhist hs hdl hround hrh hm
    have hheld := hb.held bid b hget (by rw [hs]; exact fun h => by cases h)
    have hpos := history_work_pos hrb hr hhist hrh
    obtain ⟨⟨reg, b', amount⟩, hok⟩ := claimReward_of_fits hs hdl hround hrh
      hm hpos hheld (hfits bid rid hid b r rh hget hr hhist hround hrh)
      (hb.distributed_lt hget hs)
    rw [← (claimReward_ok hok).amount_eq]
    simp only [World.exec, World.claimReward, bind_eq_ok, load_eq_ok,
      pure_eq_ok]
    exact ⟨_, ⟨b, hget, r, hr, rh, hhist, (reg, b', amount), hok, rfl⟩, rfl⟩
  · intro i c hi
    obtain ⟨b, hget, hround, hamount⟩ := hb.claim_batch i c hi
    obtain ⟨hid, rh, hhist, hrh⟩ := hb.batch_round _ b hget
    refine ⟨b, hid, rh, hget, hhist, hrh, hround, ?_⟩
    rw [hamount, ← hrh, ← hrb.history_work hid rh hhist]
    rfl
  · intro bid b hget
    refine ⟨hb.paid_eq bid b hget, hb.within bid b hget, fun hs => ?_⟩
    have := hb.held bid b hget hs
    omega
  · intro bid rid hid b r rh hget hr hhist hs hround hrh
    have hdrained := hb.drained bid b hget hs
    have hheld := hb.held bid b hget (by rw [hs]; exact fun h => by cases h)
    have hle := hfits bid rid hid b r rh hget hr hhist hround hrh
    generalize r.netWork.toNat * b.totalSats.toNat / rh.totalWork.toNat = n
      at hle ⊢
    omega

/-- Whether record 0 can be claimed on batch 0, for the whole of it. -/
def claimableInFull (w : World) : Bool :=
  match w.hashi.batches.get 0, w.mining.workRecords.get 0,
    w.mining.histories.get 0 with
  | some b, some r, some rh => decide (b.status = .funded
      ∧ w.ctx.timestampMs < b.claimDeadlineMs ∧ r.roundId = b.roundId
      ∧ r.roundId = rh.roundId ∧ r.miner = w.ctx.sender
      ∧ r.netWork.toNat * b.totalSats.toNat / rh.totalWork.toNat = 1000
      ∧ w.hashi.paidOut = 0)
  | _, _, _ => false

/-- The miner of the funded round above gets its 1000 sats. -/
theorem rewards_solvent_fundedRound :
    ∃ w, Machine.Reach (contract sha256 0) w
      ∧ ∃ w', w.exec sha256 (.claimReward 0 0 0) = .ok w'
        ∧ w'.hashi.paidOut = 1000 := by
  have hrun : (contract sha256 0).endsIn (fundedRound ++ [.beginTx 1 0 6000])
      claimableInFull = true := by
    decide +kernel
  obtain ⟨w, hw, hcheck⟩ := Machine.reach_of_endsIn hrun
  refine ⟨w, hw, ?_⟩
  unfold claimableInFull at hcheck
  split at hcheck
  case h_2 => cases hcheck
  case h_1 b r rh hget hr hhist =>
    obtain ⟨hs, hdl, hround, hrh, hm, hshare, hpaid⟩ := of_decide_eq_true hcheck
    obtain ⟨w', hexec, hpaid'⟩ := (rewards_solvent hw).1 0 0 0 b r rh hget hr
      hhist hs hdl hround hrh hm
    exact ⟨w', hexec, by rw [hpaid', hpaid, hshare]⟩

end M1n3Protocol
