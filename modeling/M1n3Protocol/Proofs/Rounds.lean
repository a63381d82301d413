/-
Round accounting: what the open accumulator and the frozen histories
total is exactly the work of the records ever issued.

# The invariant

`RoundBooks` follows a (miner, round) key through its life: it enters the
registry, lives in one stats object, and leaves it by at most one
record. Keys are never freed, so a second record under a key would need a
second stats object under it. `issuedWork r` sums the records of round
`r`; the accumulator of the current round and each history carry that
sum, and a round nobody has opened has issued nothing.
-/
import M1n3Protocol.Chain.MiningStep
import M1n3Protocol.Lib.Bytes

namespace M1n3Protocol

open Checked

/-- The work of all records ever issued for round `r`. -/
def Mining.issuedWork (m : Mining) (r : U64) : Nat :=
  m.issued.sum fun rec => if rec.roundId = r then rec.netWork.toNat else 0

structure RoundBooks (m : Mining) : Prop where
  stats_registered : m.roundStats.All fun s => s.key ∈ m.roundRegistry
  stats_inj : m.roundStats.KeyInj MinerRoundStats.key
  issued_registered : m.issued.All fun r => r.key ∈ m.roundRegistry
  issued_inj : m.issued.KeyInj MinerWorkRecord.key
  issued_pos : m.issued.All fun r => 0 < r.netWork.toNat
  issued_spent : ∀ i r s mrs, m.issued.get i = some r →
    m.roundStats.get s = some mrs → mrs.key ≠ r.key
  records_next : m.workRecords.next = m.issued.next
  records_issued : ∀ i r, m.workRecords.get i = some r →
    m.issued.get i = some r
  acc_open : m.pool.accumulatorOpen = true
    ↔ ∃ i a, m.accumulators.get i = some a
  acc_unique : ∀ i j a b, m.accumulators.get i = some a →
    m.accumulators.get j = some b → i = j
  acc_round : m.accumulators.All fun a => a.roundId = m.pool.currentRound
  acc_work : m.accumulators.All fun a =>
    a.totalWork.toNat = m.issuedWork a.roundId
  unopened_work : ∀ r, m.pool.currentRound ≤ r →
    (r = m.pool.currentRound → m.pool.accumulatorOpen = false) →
    m.issuedWork r = 0
  history_past : m.histories.All fun rh => rh.roundId < m.pool.currentRound
  history_inj : m.histories.KeyInj RoundHistory.roundId
  history_work : m.histories.All fun rh =>
    rh.totalWork.toNat = m.issuedWork rh.roundId
  history_all : ∀ r, r < m.pool.currentRound →
    ∃ i rh, m.histories.get i = some rh ∧ rh.roundId = r

theorem RoundBooks.init (admin : Address) :
    RoundBooks (Mining.init admin) where
  stats_registered := .empty
  stats_inj := .empty
  issued_registered := .empty
  issued_inj := .empty
  issued_pos := .empty
  issued_spent _ _ _ _ h := by cases h
  records_next := rfl
  records_issued _ _ h := by cases h
  acc_open := by
    constructor
    · intro h
      cases h
    · rintro ⟨i, a, h⟩
      cases h
  acc_unique _ _ _ _ h := by cases h
  acc_round := .empty
  acc_work := .empty
  unopened_work _ _ _ := rfl
  history_past := .empty
  history_inj := .empty
  history_work := .empty
  history_all r h := absurd h (BitVec.not_lt_zero)

-- ============================================================== the steps

variable {H : HashFn} {ctx : TxContext} {m m' : Mining}

/-- Nothing a quiet step, a share, a mint or a dedup call writes is in
the books, apart from the contents of a stats object. -/
theorem RoundBooks.of_frame (hb : RoundBooks m)
    (hround : m'.pool.currentRound = m.pool.currentRound)
    (hopen : m'.pool.accumulatorOpen = m.pool.accumulatorOpen)
    (hreg : m'.roundRegistry = m.roundRegistry)
    (hstats : ∀ s mrs, m'.roundStats.get s = some mrs →
      ∃ mrs₀, m.roundStats.get s = some mrs₀ ∧ mrs.key = mrs₀.key)
    (hrec : ∀ i r, m'.workRecords.get i = some r →
      m.workRecords.get i = some r)
    (hnext : m'.workRecords.next = m.workRecords.next)
    (hissued : m'.issued = m.issued)
    (hacc : m'.accumulators = m.accumulators)
    (hhist : m'.histories = m.histories) : RoundBooks m' := by
  have hwork : ∀ r, m'.issuedWork r = m.issuedWork r := by
    intro r
    unfold Mining.issuedWork
    rw [hissued]
  constructor
  · intro s mrs hs
    obtain ⟨mrs₀, hs₀, hkey⟩ := hstats s mrs hs
    rw [hkey, hreg]
    exact hb.stats_registered s mrs₀ hs₀
  · intro s t a b hs ht hkey
    obtain ⟨a₀, hs₀, ha⟩ := hstats s a hs
    obtain ⟨b₀, ht₀, hb₀⟩ := hstats t b ht
    exact hb.stats_inj s t a₀ b₀ hs₀ ht₀ (by rw [← ha, ← hb₀, hkey])
  · rw [hissued, hreg]
    exact hb.issued_registered
  · rw [hissued]
    exact hb.issued_inj
  · rw [hissued]
    exact hb.issued_pos
  · intro i r s mrs hi hs
    obtain ⟨mrs₀, hs₀, hkey⟩ := hstats s mrs hs
    rw [hkey]
    exact hb.issued_spent i r s mrs₀ (hissued ▸ hi) hs₀
  · rw [hnext, hissued]
    exact hb.records_next
  · intro i r hi
    rw [hissued]
    exact hb.records_issued i r (hrec i r hi)
  · rw [hopen, hacc]
    exact hb.acc_open
  · rw [hacc]
    exact hb.acc_unique
  · rw [hacc, hround]
    exact hb.acc_round
  · rw [hacc]
    exact hb.acc_work.imp fun a ha => by rw [hwork]; exact ha
  · intro r hr hr'
    rw [hwork]
    rw [hround] at hr hr'
    exact hb.unopened_work r hr fun he => hopen ▸ hr' he
  · rw [hhist, hround]
    exact hb.history_past
  · rw [hhist]
    exact hb.history_inj
  · rw [hhist]
    exact hb.history_work.imp fun rh hrh => by rw [hwork]; exact hrh
  · rw [hround, hhist]
    exact hb.history_all

/-- An object that is replaced under its key keeps every key. -/
theorem get_put_key {κ α : Type} {s : ObjStore α} {key : α → κ} {i : ID}
    {a c : α} (hc : s.get i = some c) (hkey : key a = key c) {j : ID} {b : α}
    (h : (s.put i a).get j = some b) :
    ∃ b₀, s.get j = some b₀ ∧ key b = key b₀ := by
  rcases ObjStore.get_put_eq_some h with ⟨rfl, rfl, -⟩ | ⟨-, h⟩
  · exact ⟨c, hc, hkey⟩
  · exact ⟨b, h, rfl⟩

theorem key_of_recordShare {stats stats' : MinerStats}
    {mrs mrs' : MinerRoundStats} {d r h : U64} {b : Bool}
    (hok : recordShare stats mrs d b r h = .ok (stats', mrs')) :
    mrs'.key = mrs.key := by
  obtain ⟨-, -, -, -, hr, hm, -⟩ := recordShare_ok hok
  unfold MinerRoundStats.key
  rw [hr, hm]

theorem key_of_recordSoldShare {mrs mrs' : MinerRoundStats} {a : Address}
    {d r : U64} (hok : recordSoldShare mrs a d r = .ok mrs') :
    mrs'.key = mrs.key := by
  obtain ⟨-, -, hr, hm, -⟩ := recordSoldShare_ok hok
  unfold MinerRoundStats.key
  rw [hr, hm]

/-- A new stats object is under a key no record was issued for. -/
theorem RoundBooks.createRoundStats (hb : RoundBooks m) {r h : U64}
    {registry : List MinerRoundKey} {mrs : MinerRoundStats}
    (hok : createRoundStats m.roundRegistry r h ctx = .ok (registry, mrs)) :
    RoundBooks { m with
      roundRegistry := registry, roundStats := m.roundStats.alloc mrs } := by
  obtain ⟨hnew, rfl, -⟩ := createRoundStats_ok hok
  refine { hb with
    stats_registered := ?_
    stats_inj := hb.stats_inj.alloc fun i s hs hkey => ?_
    issued_registered := hb.issued_registered.imp fun r hr =>
      List.mem_cons_of_mem _ hr
    issued_spent := ?_ }
  · refine ObjStore.All.alloc (hb.stats_registered.imp fun s hs => ?_) ?_
    · exact List.mem_cons_of_mem _ hs
    · exact List.mem_cons_self ..
  · exact hnew (hkey ▸ hb.stats_registered i s hs)
  · intro i rec s mrs' hi hs hkey
    rcases ObjStore.get_alloc_eq_some hs with ⟨-, rfl⟩ | hs
    · exact hnew (hkey ▸ hb.issued_registered i rec hi)
    · exact hb.issued_spent i rec s mrs' hi hs hkey

theorem RoundBooks.openAccumulator (hb : RoundBooks m)
    {acc : RoundAccumulator} {opening : Opening}
    (hclosed : m.pool.accumulatorOpen = false)
    (hround : acc.roundId = m.pool.currentRound)
    (hwork : acc.totalWork = 0) :
    RoundBooks { m with
      pool := { m.pool with accumulatorOpen := true }
      accumulators := m.accumulators.alloc acc
      openings := m.openings.alloc opening } := by
  have hnone : ∀ i a, m.accumulators.get i ≠ some a := by
    intro i a hi
    have := hb.acc_open.mpr ⟨i, a, hi⟩
    rw [hclosed] at this
    cases this
  refine { hb with
    acc_open := ⟨fun _ => ⟨_, acc, ObjStore.get_alloc_self ..⟩, fun _ => rfl⟩
    acc_unique := ?_
    acc_round := ObjStore.All.alloc (fun i a hi => absurd hi (hnone i a))
      hround
    acc_work := ObjStore.All.alloc (fun i a hi => absurd hi (hnone i a)) ?_
    unopened_work := ?_ }
  · intro i j a b hi hj
    rcases ObjStore.get_alloc_eq_some hi with ⟨hi, -⟩ | hi
    · rcases ObjStore.get_alloc_eq_some hj with ⟨hj, -⟩ | hj
      · rw [hi, hj]
      · exact absurd hj (hnone j b)
    · exact absurd hi (hnone i a)
  · show acc.totalWork.toNat = m.issuedWork acc.roundId
    rw [hwork, hround, hb.unopened_work _ (BitVec.le_refl _) fun _ => hclosed]
    rfl
  · intro r hr hr'
    refine hb.unopened_work r hr fun he => ?_
    exact absurd (hr' he) (by simp)

/-- Replacing the one open accumulator leaves its replacement only. -/
theorem RoundBooks.get_put_accumulator (hb : RoundBooks m) {id j : ID}
    {acc acc' b : RoundAccumulator} (hacc : m.accumulators.get id = some acc)
    (h : (m.accumulators.put id acc').get j = some b) : j = id ∧ b = acc' := by
  rcases ObjStore.get_put_eq_some h with ⟨hj, hb', -⟩ | ⟨hne, hj⟩
  · exact ⟨hj, hb'⟩
  · exact absurd (hb.acc_unique _ _ _ _ hj hacc) hne

/-- The open accumulator may be replaced by one of the same round and
total. -/
theorem RoundBooks.putAccumulator (hb : RoundBooks m) {id : ID}
    {acc acc' : RoundAccumulator} (hacc : m.accumulators.get id = some acc)
    (hround : acc'.roundId = acc.roundId)
    (hwork : acc'.totalWork.toNat = acc.totalWork.toNat) :
    RoundBooks { m with accumulators := m.accumulators.put id acc' } := by
  refine { hb with
    acc_open := ⟨fun _ => ⟨id, acc', ObjStore.get_put_self _ hacc⟩,
      fun _ => hb.acc_open.mpr ⟨id, acc, hacc⟩⟩
    acc_unique := ?_
    acc_round := ?_
    acc_work := ?_ }
  · intro i j a b hi hj
    rw [(hb.get_put_accumulator hacc hi).1, (hb.get_put_accumulator hacc hj).1]
  · intro i a hi
    obtain ⟨-, rfl⟩ := hb.get_put_accumulator hacc hi
    show a.roundId = m.pool.currentRound
    rw [hround]
    exact hb.acc_round _ _ hacc
  · intro i a hi
    obtain ⟨-, rfl⟩ := hb.get_put_accumulator hacc hi
    show a.totalWork.toNat = m.issuedWork a.roundId
    rw [hwork, hround]
    exact hb.acc_work _ _ hacc

/-- A record is issued for a key with no live stats and no record yet,
and its net work goes into the open accumulator. -/
theorem RoundBooks.issue (hb : RoundBooks m) {id : ID}
    {acc acc' : RoundAccumulator} {rec : MinerWorkRecord}
    (hacc : m.accumulators.get id = some acc)
    (hrec : rec.roundId = acc.roundId) (hpos : 0 < rec.netWork.toNat)
    (hreg : rec.key ∈ m.roundRegistry)
    (hspent : ∀ s mrs, m.roundStats.get s = some mrs → mrs.key ≠ rec.key)
    (hfresh : ∀ i r, m.issued.get i = some r → r.key ≠ rec.key)
    (hround : acc'.roundId = acc.roundId)
    (hwork : acc'.totalWork.toNat
      = acc.totalWork.toNat + rec.netWork.toNat) :
    RoundBooks { m with
      accumulators := m.accumulators.put id acc'
      workRecords := m.workRecords.alloc rec
      issued := m.issued.alloc rec } := by
  have hcur : acc.roundId = m.pool.currentRound := hb.acc_round _ _ hacc
  have hsum : ∀ r, (m.issued.alloc rec).sum (fun rec =>
      if rec.roundId = r then rec.netWork.toNat else 0)
        = m.issuedWork r + if rec.roundId = r then rec.netWork.toNat else 0 :=
    fun r => ObjStore.sum_alloc ..
  -- The record is of the open round, so no other round's sum moves.
  have hother : ∀ r, r ≠ m.pool.currentRound →
      (m.issued.alloc rec).sum (fun rec =>
        if rec.roundId = r then rec.netWork.toNat else 0)
        = m.issuedWork r := by
    intro r hr
    rw [hsum, if_neg (fun h => hr (by rw [← h, hrec, hcur])), Nat.add_zero]
  refine { hb with
    issued_registered := hb.issued_registered.alloc hreg
    issued_inj := hb.issued_inj.alloc hfresh
    issued_pos := hb.issued_pos.alloc hpos
    issued_spent := ?_
    records_next := ?_
    records_issued := ?_
    acc_open := ⟨fun _ => ⟨id, acc', ObjStore.get_put_self _ hacc⟩,
      fun _ => hb.acc_open.mpr ⟨id, acc, hacc⟩⟩
    acc_unique := ?_
    acc_round := ?_
    acc_work := ?_
    unopened_work := ?_
    history_work := ?_ }
  · intro i r s mrs hi hs
    rcases ObjStore.get_alloc_eq_some hi with ⟨-, rfl⟩ | hi
    · exact hspent s mrs hs
    · exact hb.issued_spent i r s mrs hi hs
  · show (m.workRecords.alloc rec).next = (m.issued.alloc rec).next
    rw [ObjStore.next_alloc, ObjStore.next_alloc, hb.records_next]
  · intro i r hi
    show (m.issued.alloc rec).get i = some r
    rcases ObjStore.get_alloc_eq_some hi with ⟨rfl, rfl⟩ | hi
    · rw [hb.records_next, ObjStore.get_alloc_self]
    · exact ObjStore.get_alloc_of_some _ (hb.records_issued i r hi)
  · intro i j a b hi hj
    rw [(hb.get_put_accumulator hacc hi).1, (hb.get_put_accumulator hacc hj).1]
  · intro i a hi
    obtain ⟨-, rfl⟩ := hb.get_put_accumulator hacc hi
    show a.roundId = m.pool.currentRound
    rw [hround, hcur]
  · intro i a hi
    obtain ⟨-, rfl⟩ := hb.get_put_accumulator hacc hi
    show a.totalWork.toNat = (m.issued.alloc rec).sum _
    rw [hsum, hwork, hround, if_pos hrec, hb.acc_work _ _ hacc]
  · intro r hr hr'
    have hopen : m.pool.accumulatorOpen = true :=
      hb.acc_open.mpr ⟨id, acc, hacc⟩
    have hne : r ≠ m.pool.currentRound := by
      intro h
      have := hr' h
      rw [hopen] at this
      cases this
    exact (hother r hne).trans (hb.unopened_work r hr hr')
  · intro i rh hi
    have hpast : rh.roundId < m.pool.currentRound := hb.history_past i rh hi
    exact (hb.history_work i rh hi).trans
      (hother _ (BitVec.ne_of_lt hpast)).symm

/-- Counting an object moves its key from the stats to the records and
its net work into both sums; without net work there is no record. -/
theorem RoundBooks.count (hb : RoundBooks m) {accId sid : ID}
    {acc acc' : RoundAccumulator} {mrs : MinerRoundStats}
    (hacc : m.accumulators.get accId = some acc)
    (hs : m.roundStats.get sid = some mrs) (heq : mrs.roundId = acc.roundId)
    (hround : acc'.roundId = acc.roundId)
    (hwork : acc'.totalWork.toNat = acc.totalWork.toNat
      + (mrs.work.toNat - mrs.soldWork.toNat)) :
    RoundBooks { m with
      accumulators := m.accumulators.put accId acc'
      roundStats := m.roundStats.erase sid
      workRecords :=
        if 0 < netWork mrs then
          m.workRecords.alloc ⟨mrs.roundId, mrs.miner, netWork mrs⟩
        else m.workRecords
      issued :=
        if 0 < netWork mrs then
          m.issued.alloc ⟨mrs.roundId, mrs.miner, netWork mrs⟩
        else m.issued } := by
  have herased : RoundBooks { m with roundStats := m.roundStats.erase sid } :=
    hb.of_frame rfl rfl rfl
      (fun _ mrs h => ⟨mrs, (ObjStore.get_erase_eq_some h).2, rfl⟩)
      (fun _ _ h => h) rfl rfl rfl rfl
  have hnet := toNat_netWork mrs
  by_cases hpos : 0 < netWork mrs
  · simp only [if_pos hpos]
    refine herased.issue hacc heq (BitVec.lt_def.mp hpos)
      (hb.stats_registered sid mrs hs) ?_ ?_ hround (by rw [hwork, hnet])
    · intro t mrs' ht hkey
      obtain ⟨hne, ht⟩ := ObjStore.get_erase_eq_some ht
      exact hne (hb.stats_inj _ _ _ _ ht hs hkey)
    · intro i r hi hkey
      exact hb.issued_spent i r sid mrs hi hs hkey.symm
  · have hz : (netWork mrs).toNat = 0 := by
      rw [BitVec.lt_def] at hpos
      exact Nat.eq_zero_of_not_pos hpos
    simp only [if_neg hpos]
    exact herased.putAccumulator hacc hround (by omega)

/-- Finalizing freezes the open accumulator's total as the history of the
round it closes. -/
theorem RoundBooks.finalize (hb : RoundBooks m) {id : ID}
    {acc : RoundAccumulator} {pool : Pool} {rh : RoundHistory}
    (hacc : m.accumulators.get id = some acc)
    (hok : finalizeRound m.pool acc ctx = .ok (pool, rh)) :
    RoundBooks { m with
      pool
      accumulators := m.accumulators.erase id
      histories := m.histories.alloc rh } := by
  obtain ⟨hcur, hclosed, hnext, -, -, hrh, hrhw, -⟩ := finalizeRound_ok hok
  have hnone : ∀ i a, (m.accumulators.erase id).get i ≠ some a := by
    intro i a hi
    obtain ⟨hne, hi⟩ := ObjStore.get_erase_eq_some hi
    exact hne (hb.acc_unique _ _ _ _ hi hacc)
  have hlt : ∀ r, r < pool.currentRound ↔
      r < m.pool.currentRound ∨ r = m.pool.currentRound := by
    intro r
    rw [BitVec.lt_def, BitVec.lt_def, hnext, ← BitVec.toNat_inj]
    omega
  refine { hb with
    acc_open := ⟨fun h => ?_, fun hlive => ?_⟩
    acc_unique := fun i _ a _ hi => absurd hi (hnone i a)
    acc_round := fun i a hi => absurd hi (hnone i a)
    acc_work := fun i a hi => absurd hi (hnone i a)
    unopened_work := ?_
    history_past := ObjStore.All.alloc ?_ ?_
    history_inj := hb.history_inj.alloc ?_
    history_work := hb.history_work.alloc ?_
    history_all := ?_ }
  · rw [hclosed] at h
    cases h
  · obtain ⟨i, a, hi⟩ := hlive
    exact absurd hi (hnone i a)
  · intro r hr _
    have hpast : m.pool.currentRound < r := by
      have h1 : pool.currentRound.toNat ≤ r.toNat := hr
      rw [BitVec.lt_def]
      omega
    refine hb.unopened_work r (BitVec.le_of_lt hpast) fun he => ?_
    exact absurd he (BitVec.ne_of_lt hpast).symm
  · exact hb.history_past.imp fun rh' h => (hlt _).mpr (.inl h)
  · exact (hlt _).mpr (.inr (by rw [hrh, hcur]))
  · intro i rh' hi heq
    refine absurd (hb.history_past i rh' hi) ?_
    show ¬ rh'.roundId < m.pool.currentRound
    rw [heq, hrh, hcur]
    exact BitVec.lt_irrefl _
  · show rh.totalWork.toNat = m.issuedWork rh.roundId
    rw [hrhw, hrh]
    exact hb.acc_work id acc hacc
  · intro r hr
    rcases (hlt r).mp hr with hr | rfl
    · obtain ⟨i, rh', hi, hrr⟩ := hb.history_all r hr
      exact ⟨i, rh', ObjStore.get_alloc_of_some _ hi, hrr⟩
    · exact ⟨_, rh, ObjStore.get_alloc_self .., by rw [hrh, hcur]⟩

theorem RoundBooks.step {ev : MiningEvent} (hb : RoundBooks m)
    (hs : Mining.Step H ctx m ev m') : RoundBooks m' := by
  cases hs with
  | quiet h =>
      exact hb.of_frame h.round h.is_open rfl (fun _ mrs h => ⟨mrs, h, rfl⟩)
        (fun _ _ h => h) rfl rfl rfl rfl
  | createRoundStats hok => exact hb.createRoundStats hok
  | closeRoundStats hget =>
      exact hb.of_frame rfl rfl rfl
        (fun _ mrs h => ⟨mrs, (ObjStore.get_erase_eq_some h).2, rfl⟩)
        (fun _ _ h => h) rfl rfl rfl rfl
  | createDedup | dropHashes | deleteDedup | clearReceipts =>
      exact hb.of_frame rfl rfl rfl (fun _ mrs h => ⟨mrs, h, rfl⟩)
        (fun _ _ h => h) rfl rfl rfl rfl
  | share h =>
      have hkey := key_of_recordShare h.accepted.record_ok
      exact hb.of_frame rfl rfl rfl
        (fun _ _ hj => get_put_key h.round_get hkey hj)
        (fun _ _ h => h) rfl rfl rfl rfl
  | mint hr hs hok =>
      exact hb.of_frame rfl rfl rfl
        (fun _ _ hj => get_put_key hs (key_of_recordSoldShare hok) hj)
        (fun _ _ h => h) rfl rfl rfl rfl
  | openAccumulator hget hround hclosed hacc =>
      subst hacc
      exact hb.openAccumulator hclosed rfl rfl
  | skip hacc hs hmine hne =>
      have hsame : m.accumulators.put _ _ = m.accumulators :=
        ObjStore.put_self hacc
      exact hb.of_frame rfl rfl rfl
        (fun _ mrs h => ⟨mrs, (ObjStore.get_erase_eq_some h).2, rfl⟩)
        (fun _ _ h => h) rfl rfl hsame rfl
  | count hacc hs hmine heq hround hwork =>
      exact hb.count hacc hs heq hround hwork
  | finalize hacc hok => exact hb.finalize hacc hok
  | consume hget =>
      exact hb.of_frame rfl rfl rfl (fun _ mrs h => ⟨mrs, h, rfl⟩)
        (fun _ _ h => (ObjStore.get_erase_eq_some h).2) rfl rfl rfl rfl

/-- The books hold on every reachable chain. -/
theorem roundBooks_of_reach {publisher : Address} {w : World}
    (h : Machine.Reach (contract H publisher) w) : RoundBooks w.mining :=
  mining_invariant_always (RoundBooks.init publisher)
    (fun _ _ _ _ hb hs => hb.step hs) h

-- ====================================================== work conservation

/-- At most one record is ever issued for a (miner, round); each
finalized round has one history, which totals the work of all its
records; and until then the open accumulator does. -/
theorem work_conserved {publisher : Address} {w : World}
    (h : Machine.Reach (contract H publisher) w) :
    w.mining.issued.KeyInj MinerWorkRecord.key
      ∧ (∀ i r, w.mining.workRecords.get i = some r →
          w.mining.issued.get i = some r)
      ∧ (∀ r, r < w.mining.pool.currentRound →
          ∃! i, ∃ rh, w.mining.histories.get i = some rh ∧ rh.roundId = r)
      ∧ (∀ i rh, w.mining.histories.get i = some rh →
          rh.roundId < w.mining.pool.currentRound
            ∧ w.mining.issuedWork rh.roundId = rh.totalWork.toNat)
      ∧ (∀ i acc, w.mining.accumulators.get i = some acc →
          acc.roundId = w.mining.pool.currentRound
            ∧ w.mining.issuedWork acc.roundId = acc.totalWork.toNat)
      ∧ (∀ r, w.mining.pool.currentRound ≤ r →
          (∀ i acc, w.mining.accumulators.get i = some acc →
            acc.roundId ≠ r) → w.mining.issuedWork r = 0) := by
  have hb := roundBooks_of_reach h
  refine ⟨hb.issued_inj, hb.records_issued, fun r hr => ?_, fun i rh hi => ?_,
    fun i acc hi => ?_, fun r hr hno => ?_⟩
  · obtain ⟨i, rh, hi, hrr⟩ := hb.history_all r hr
    refine ⟨i, ⟨rh, hi, hrr⟩, ?_⟩
    rintro j ⟨rh', hj, hrr'⟩
    exact hb.history_inj j i rh' rh hj hi (by rw [hrr, hrr'])
  · exact ⟨hb.history_past i rh hi, (hb.history_work i rh hi).symm⟩
  · exact ⟨hb.acc_round i acc hi, (hb.acc_work i acc hi).symm⟩
  · refine hb.unopened_work r hr fun he => ?_
    by_contra hopen
    obtain ⟨i, acc, hi⟩ := hb.acc_open.mp (by simpa using hopen)
    exact hno i acc hi (by rw [hb.acc_round i acc hi, he])

-- A real header to run on: block 125552, with the two inner nodes of its
-- transaction tree in the place of a coinbase.

def block125552 : TemplateArgs where
  height := 125552
  prevBlockHash := leBytes 32
    0x00000000000008a3a41b85b8b29ad444def299fee21793cd8b9e567eab02cd81
  coinbase1 := leBytes 32
    0x0d0eb1b4c4b49fd27d100e9cce555d4110594661b1b8ac05a4b8879c84959bd4
  coinbase2 := leBytes 32
    0xbfae954bdb9653ceba3721e85a122fba3a585c5762b5ca5abe117b30c36c995e
  merkleBranches := []
  version := 1
  nbits := 0x1a44b9f2
  ntime := 0x4dd7f5c7

def solution125552 : Submission where
  extranonce1 := []
  extranonce2 := []
  ntime := 0x4dd7f5c7
  nonce := 0x9546a142
  version := 1

/-- One miner's block, from the template to the finalized round. -/
def closedRound : List Call :=
  [.admin (.registerTemplate block125552),
   .beginTx 1 0 0,
   .mining (.registerMiner []),
   .mining (.createRoundStats 0 0),
   .mining (.createShareDedup 0),
   .mining (.submitShare 0 ⟨0, 0, 0⟩ solution125552),
   .mining (.openRoundAccumulatorFromClaim 0),
   .mining (.accumulateMinerStats 0 [0]),
   .beginTx 1 0 5000,
   .mining (.finalizeRound 0)]

/-- In the round closed above, the one record carries the history's whole
work. -/
theorem work_conserved_closedRound :
    ∃ w, Machine.Reach (contract sha256 0) w
      ∧ ∃ rh, w.mining.histories.get 0 = some rh
        ∧ rh.totalWork = 35_987_218_905
        ∧ w.mining.issuedWork rh.roundId = rh.totalWork.toNat := by
  have hrun : (contract sha256 0).endsIn closedRound (fun w =>
      (w.mining.histories.get 0).any fun rh =>
        decide (rh.totalWork = 35_987_218_905)) = true := by
    decide +kernel
  obtain ⟨w, hw, hcheck⟩ := Machine.reach_of_endsIn hrun
  obtain ⟨rh, hget, htotal⟩ := (Option.any_eq_true ..).mp hcheck
  obtain ⟨-, -, -, hhist, -⟩ := work_conserved hw
  exact ⟨w, hw, rh, hget, of_decide_eq_true htotal, (hhist 0 rh hget).2⟩

end M1n3Protocol
