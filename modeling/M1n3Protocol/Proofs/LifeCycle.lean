/-
The life cycle of a round: claimed, opened, accumulated, finalized, and
the next one begun.

# The invariant

`RoundBooks` has at most one accumulator, there exactly while the pool's
flag is up, and only for the current round. `CycleBooks` counts: the
current round, the blocks and the histories move together, so the n-th
history ever frozen is that of round n. It also follows the block finder
and the height from a claim through the accumulator into the history. A
claim opens an accumulator only in its own round, and claims are frozen,
so the claim is still there to compare with.
-/
import M1n3Protocol.Proofs.Rounds

namespace M1n3Protocol

/-- There is a claim tagged with round `r` that names this finder and this
height. -/
def Mining.HasClaim (m : Mining) (r : U64) (finder : Address)
    (height : U64) : Prop :=
  ∃ i c, m.claims.get i = some c ∧ c.claim.roundId = r
    ∧ c.claim.blockFinder = finder ∧ c.claim.height = height

structure CycleBooks (m : Mining) : Prop where
  blocks : m.pool.totalBlocks = m.pool.currentRound
  count : m.histories.sum (fun _ => 1) = m.pool.currentRound.toNat
  next : m.histories.next = m.pool.currentRound.toNat
  in_order : ∀ i, i < m.histories.next →
    ∃ rh, m.histories.get i = some rh ∧ rh.roundId.toNat = i
  acc_claimed : m.accumulators.All fun a =>
    m.HasClaim a.roundId a.blockFinder a.blockFoundHeight
  history_claimed : m.histories.All fun rh =>
    m.HasClaim rh.roundId rh.blockFinder rh.blockFoundHeight

theorem CycleBooks.init (admin : Address) :
    CycleBooks (Mining.init admin) where
  blocks := rfl
  count := rfl
  next := rfl
  in_order _ h := absurd h (Nat.not_lt_zero _)
  acc_claimed := .empty
  history_claimed := .empty

-- ============================================================== the steps

variable {H : HashFn} {ctx : TxContext} {m m' : Mining}

theorem Mining.HasClaim.step {ev : MiningEvent} {r height : U64}
    {finder : Address} (h : m.HasClaim r finder height)
    (hs : Mining.Step H ctx m ev m') : m'.HasClaim r finder height := by
  obtain ⟨i, c, hi, hr, hf, hh⟩ := h
  exact ⟨i, c, hs.claims_kept hi, hr, hf, hh⟩

/-- A step that leaves the counters and the histories alone owes only the
claims of its accumulators. -/
theorem CycleBooks.of_frame {ev : MiningEvent} (hb : CycleBooks m)
    (hs : Mining.Step H ctx m ev m')
    (hround : m'.pool.currentRound = m.pool.currentRound)
    (hblocks : m'.pool.totalBlocks = m.pool.totalBlocks)
    (hhist : m'.histories = m.histories)
    (hacc : m'.accumulators.All fun a =>
      m'.HasClaim a.roundId a.blockFinder a.blockFoundHeight) :
    CycleBooks m' := by
  constructor
  · rw [hround, hblocks]
    exact hb.blocks
  · rw [hround, hhist]
    exact hb.count
  · rw [hround, hhist]
    exact hb.next
  · rw [hhist]
    exact hb.in_order
  · exact hacc
  · rw [hhist]
    exact hb.history_claimed.imp fun rh h => h.step hs

/-- Finalizing numbers the history with the round it closes, which is the
next in order. -/
theorem CycleBooks.finalize (hb : CycleBooks m) {id : ID}
    {acc : RoundAccumulator} {pool : Pool} {rh : RoundHistory}
    (hacc : m.accumulators.get id = some acc)
    (hok : finalizeRound m.pool acc ctx = .ok (pool, rh)) :
    CycleBooks { m with
      pool
      accumulators := m.accumulators.erase id
      histories := m.histories.alloc rh } := by
  obtain ⟨hcur, -, hround, hblocks, -, hrh, -, hf, hh⟩ := finalizeRound_ok hok
  have hclaim : m.HasClaim rh.roundId rh.blockFinder rh.blockFoundHeight := by
    rw [hrh, hf, hh]
    exact hb.acc_claimed id acc hacc
  constructor
  · show pool.totalBlocks = pool.currentRound
    rw [← BitVec.toNat_inj, hblocks, hround, hb.blocks]
  · show (m.histories.alloc rh).sum _ = pool.currentRound.toNat
    rw [ObjStore.sum_alloc, hb.count, hround]
  · show (m.histories.alloc rh).next = pool.currentRound.toNat
    rw [ObjStore.next_alloc, hb.next, hround]
  · intro i hi
    rcases Nat.lt_succ_iff_lt_or_eq.mp hi with hlt | rfl
    · obtain ⟨rh', hget, hnum⟩ := hb.in_order i hlt
      exact ⟨rh', ObjStore.get_alloc_of_some _ hget, hnum⟩
    · refine ⟨rh, ObjStore.get_alloc_self .., ?_⟩
      rw [hrh, hcur, hb.next]
  · exact hb.acc_claimed.erase
  · exact hb.history_claimed.alloc hclaim

theorem CycleBooks.step {ev : MiningEvent} (hb : CycleBooks m)
    (hs : Mining.Step H ctx m ev m') : CycleBooks m' := by
  have hframe := hb.of_frame hs
  have hkept := hb.acc_claimed.imp fun _ h => h.step hs
  cases hs with
  | quiet h => exact hframe h.round h.blocks rfl hkept
  | openAccumulator hget hround hclosed hacc =>
      subst hacc
      refine hframe rfl rfl rfl (hkept.alloc ?_)
      exact ⟨_, _, hget, hround, rfl, rfl⟩
  | skip hacc => exact hframe rfl rfl rfl (hkept.put (hkept _ _ hacc))
  | count hacc hsid hmine heq hround hwork hcreated hf hh =>
      refine hframe rfl rfl rfl (hkept.put ?_)
      rw [hround, hf, hh]
      exact hkept _ _ hacc
  | finalize hacc hok => exact hb.finalize hacc hok
  | createRoundStats | closeRoundStats | createDedup | dropHashes
  | deleteDedup | share | mint | clearReceipts | consume =>
      exact hframe rfl rfl rfl hkept

theorem cycleBooks_of_reach {publisher : Address} {w : World}
    (h : Machine.Reach (contract H publisher) w) : CycleBooks w.mining :=
  mining_invariant_always (CycleBooks.init publisher)
    (fun _ _ _ _ hb hs => hb.step hs) h

-- ============================================================ life cycle

/-- The flag is up exactly while there is exactly one accumulator, and
there is never a second; it is of the current round. The current round
counts the blocks and the histories; histories are numbered in the order
they were frozen, and the i-th is that of round i; and each carries the
block finder and the height of a claim tagged with its round. -/
theorem round_life_cycle {publisher : Address} {w : World}
    (h : Machine.Reach (contract H publisher) w) :
    (w.mining.pool.accumulatorOpen = true
        ↔ ∃! i, ∃ a, w.mining.accumulators.get i = some a)
      ∧ (w.mining.pool.accumulatorOpen = false →
          ∀ i, w.mining.accumulators.get i = none)
      ∧ (∀ i a, w.mining.accumulators.get i = some a →
          a.roundId = w.mining.pool.currentRound
            ∧ w.mining.HasClaim a.roundId a.blockFinder a.blockFoundHeight)
      ∧ w.mining.pool.totalBlocks = w.mining.pool.currentRound
      ∧ w.mining.histories.sum (fun _ => 1)
          = w.mining.pool.currentRound.toNat
      ∧ w.mining.histories.next = w.mining.pool.currentRound.toNat
      ∧ (∀ i, i < w.mining.histories.next →
          ∃ rh, w.mining.histories.get i = some rh ∧ rh.roundId.toNat = i)
      ∧ (∀ i rh, w.mining.histories.get i = some rh →
          w.mining.HasClaim rh.roundId rh.blockFinder rh.blockFoundHeight) := by
  have hr := roundBooks_of_reach h
  have hb := cycleBooks_of_reach h
  refine ⟨⟨fun hopen => ?_, fun hunique => ?_⟩, fun hclosed i => ?_,
    fun i a hi => ⟨hr.acc_round i a hi, hb.acc_claimed i a hi⟩,
    hb.blocks, hb.count, hb.next, hb.in_order, hb.history_claimed⟩
  · obtain ⟨i, a, hi⟩ := hr.acc_open.mp hopen
    refine ⟨i, ⟨a, hi⟩, ?_⟩
    rintro j ⟨b, hj⟩
    exact hr.acc_unique j i b a hj hi
  · obtain ⟨i, ⟨a, hi⟩, -⟩ := hunique
    exact hr.acc_open.mpr ⟨i, a, hi⟩
  · cases hget : w.mining.accumulators.get i with
    | none => rfl
    | some a =>
        have hopen := hr.acc_open.mpr ⟨i, a, hget⟩
        rw [hclosed] at hopen
        cases hopen

/-- In the round closed above, the one history carries the finder and the
height of the block's claim. -/
theorem round_life_cycle_closedRound :
    ∃ w, Machine.Reach (contract sha256 0) w
      ∧ w.mining.pool.currentRound = 1
      ∧ ∃ rh, w.mining.histories.get 0 = some rh
        ∧ w.mining.HasClaim rh.roundId rh.blockFinder rh.blockFoundHeight := by
  have hrun : (contract sha256 0).endsIn closedRound (fun w =>
      decide (w.mining.pool.currentRound = 1)
        && (w.mining.histories.get 0).isSome) = true := by
    decide +kernel
  obtain ⟨w, hw, hcheck⟩ := Machine.reach_of_endsIn hrun
  rw [Bool.and_eq_true, decide_eq_true_eq] at hcheck
  obtain ⟨hround, hsome⟩ := hcheck
  obtain ⟨rh, hget⟩ := Option.isSome_iff_exists.mp hsome
  obtain ⟨-, -, -, -, -, -, -, hclaimed⟩ := round_life_cycle hw
  exact ⟨w, hw, hround, rh, hget, hclaimed 0 rh hget⟩

end M1n3Protocol
