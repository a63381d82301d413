/-
One header, one credit: when a proof of work is credited once over all
miners and all rounds.

# What ties a header to a miner

Nothing in the header does. The extranonces, the template and the round
are arguments anyone can copy from an accepted submission, and the table
a header is checked against is the submitter's own, of its own round. So
a second miner is credited for the same header, and so is the same miner
in a later round, where the template is registered again.
`freshElsewhere` asks that nobody does that. It is as weak as it can be:
any accepted submission that breaks it is a second credit.
-/
import M1n3Protocol.Proofs.Dedup

namespace M1n3Protocol

open Checked

/-- A header that is submitted has been credited, if at all, to the same
miner and in the same round. -/
def freshElsewhere (H : HashFn) (m : Mining) : MiningEvent → Prop
  | .share mined ids sub => ∀ job mrs, m.job mined = some job →
      m.roundStats.get ids.round = some mrs →
      ∀ i e, m.shares.get i = some e → e.shareHash = job.shareHash H sub →
        e.key = mrs.key
  | _ => True

/-- What is asked of a submission and of the dedup tables. -/
structure CreditedOnce (H : HashFn) (m : Mining) (ev : MiningEvent) :
    Prop where
  dedup : dedupKept m ev
  fresh : freshElsewhere H m ev

structure UniqueBooks (m : Mining) : Prop where
  books : DistinctBooks m
  unique : m.shares.KeyInj ShareEntry.shareHash

variable {H : HashFn} {ctx : TxContext} {m m' : Mining}

theorem UniqueBooks.init (admin : Address) :
    UniqueBooks (Mining.init admin) where
  books := ⟨.init admin, .init admin, .init admin⟩
  unique := .empty

/-- Two shares with one hash were both there before, or the later one was
just accepted; then the condition puts them under one key. -/
theorem UniqueBooks.step {ev : MiningEvent} (hb : UniqueBooks m)
    (hcond : CreditedOnce H m ev) (hs : Mining.Step H ctx m ev m') :
    UniqueBooks m' := by
  have hbooks : DistinctBooks m' :=
    ⟨hb.books.rounds.step hs, hb.books.shares.step hb.books.rounds hs,
      hb.books.dedups.step hb.books.shares hcond.dedup hs⟩
  -- A share with the hash of a new one is under the new one's key.
  have hnew : ∀ i e j f, m'.shares.get i = some e →
      m'.shares.get j = some f → e.shareHash = f.shareHash →
      (∃ e₀, m.shares.get i = some e₀) → m.shares.get j = none →
      e.key = f.key := by
    intro i e j f hi hj hhash hold hnone
    rcases hs.share_from hj with ⟨f₀, hj₀, -⟩ | hshare
    · rw [hnone] at hj₀
      cases hj₀
    · obtain ⟨mined, ids, sub, payment, job, o, out, receipts, rfl, h, -,
        rfl⟩ := hshare
      rcases hs.share_from hi with ⟨e₀, hi₀, he, -⟩ | hshare'
      · have hkey := hcond.fresh job o.round h.job_eq h.round_get i e₀ hi₀
        have hhash₀ : e₀.shareHash = e.shareHash := by rw [he]
        have hkey₀ : e₀.key = e.key := by
          rw [he]
          rfl
        rw [← hkey₀, hkey (by rw [hhash₀, hhash, h.accepted.hash_eq])]
        exact (key_of_recordShare h.accepted.record_ok).symm
      · obtain ⟨-, -, -, -, -, -, -, -, -, -, hnext, -⟩ := hshare'
        obtain ⟨e₀, hi₀⟩ := hold
        rw [hnext, ObjStore.get_next] at hi₀
        cases hi₀
  refine ⟨hbooks, fun i j e f hi hj hhash => ?_⟩
  by_contra hne
  have hkeys : e.key ≠ f.key := fun hkey =>
    hne (hbooks.dedups.distinct i j e f hi hj (Prod.ext hkey hhash))
  cases hi₀ : m.shares.get i with
  | some e₀ =>
      cases hj₀ : m.shares.get j with
      | some f₀ =>
          obtain ⟨n, hi', -⟩ := hs.share_kept hi₀
          obtain ⟨k, hj', -⟩ := hs.share_kept hj₀
          rw [hi] at hi'
          rw [hj] at hj'
          cases hi'
          cases hj'
          exact hne (hb.unique i j e₀ f₀ hi₀ hj₀ hhash)
      | none => exact hkeys (hnew i e j f hi hj hhash ⟨e₀, hi₀⟩ hj₀)
  | none =>
      cases hj₀ : m.shares.get j with
      | some f₀ =>
          exact hkeys (hnew j f i e hj hi hhash.symm ⟨f₀, hj₀⟩ hi₀).symm
      | none =>
          -- Only one share is new.
          rcases hs.share_from hi with ⟨e₀, he₀, -⟩ | hi'
          · rw [hi₀] at he₀
            cases he₀
          · rcases hs.share_from hj with ⟨f₀, hf₀, -⟩ | hj'
            · rw [hj₀] at hf₀
              cases hf₀
            · obtain ⟨-, -, -, -, -, -, -, -, -, -, hin, -⟩ := hi'
              obtain ⟨-, -, -, -, -, -, -, -, -, -, hjn, -⟩ := hj'
              exact hne (hin.trans hjn.symm)

/-- An accepted submission of a header credited elsewhere is credited
again. -/
theorem credited_again {ev : MiningEvent} (hs : Mining.Step H ctx m ev m')
    (hstale : ¬ freshElsewhere H m ev) :
    ∃ i j e f, m'.shares.get i = some e ∧ m'.shares.get j = some f ∧ i ≠ j
      ∧ e.shareHash = f.shareHash := by
  cases hs with
  | @share mined ids sub payment job o out receipts h =>
      unfold freshElsewhere at hstale
      simp only [Classical.not_forall] at hstale
      obtain ⟨job', mrs, hjob, hmrs, i, e, hi, hhash, -⟩ := hstale
      rw [h.job_eq] at hjob
      cases hjob
      refine ⟨i, m.shares.next, e, _, ObjStore.get_alloc_of_some _ hi,
        ObjStore.get_alloc_self .., Nat.ne_of_lt (ObjStore.lt_next hi), ?_⟩
      exact hhash.trans h.accepted.hash_eq.symm
  | quiet | createRoundStats | closeRoundStats | createDedup | dropHashes
  | deleteDedup | clearReceipts | mint | openAccumulator | skip | count
  | finalize | consume => exact absurd trivial hstale

-- ============================================================= one credit

/-- While headers are only submitted again, if at all, by the miner they
were credited to and in the same round, and the dedup tables are kept, no
two shares have one hash, over all miners and rounds. The first accepted
submission that does otherwise makes two that have. -/
theorem headers_credited_once {publisher : Address} {w : World}
    (h : Machine.ReachVia (contract H publisher)
      (Call.meets (CreditedOnce H)) w) :
    (∀ i j e f, w.mining.shares.get i = some e →
        w.mining.shares.get j = some f → i ≠ j →
        e.shareHash ≠ f.shareHash)
      ∧ ∀ ctx ev m', Mining.Step H ctx w.mining ev m' →
        ¬ freshElsewhere H w.mining ev →
        ∃ i j e f, m'.shares.get i = some e ∧ m'.shares.get j = some f
          ∧ i ≠ j ∧ e.shareHash = f.shareHash := by
  have hb : UniqueBooks w.mining := by
    refine mining_invariant (C := CreditedOnce H) (I := UniqueBooks)
      (.init publisher) ?_ (fun _ _ _ _ _ _ _ _ _ => ⟨trivial, trivial⟩) h
    exact fun _ _ _ _ hb hcond hs => hb.step hcond hs
  refine ⟨fun i j e f hi hj hne heq => hne (hb.unique i j e f hi hj heq), ?_⟩
  exact fun _ _ _ hs hstale => credited_again hs hstale

/-- A call that drops no hash, and submits nothing once there is a
share. -/
def firstShareOnly (m : Mining) : MiningEvent → Bool
  | .dropHashes .. | .share (.derived _) .. => false
  | .share (.direct _) .. => decide (m.shares.next = 0)
  | _ => true

theorem creditedOnce_of_firstShareOnly (m : Mining) (ev : MiningEvent)
    (h : firstShareOnly m ev = true) : CreditedOnce H m ev := by
  cases ev with
  | dropHashes => cases h
  | share mined ids sub =>
      cases mined with
      | derived => cases h
      | direct id =>
          refine ⟨trivial, fun job mrs _ _ i e hi _ => ?_⟩
          have hnext : m.shares.next = 0 := of_decide_eq_true h
          have hlt := ObjStore.lt_next hi
          rw [hnext] at hlt
          exact absurd hlt (Nat.not_lt_zero i)
  | _ => exact ⟨trivial, trivial⟩

/-- In the round closed above the one share's hash is no other's, and a
submission of it elsewhere would be. -/
theorem headers_credited_once_closedRound :
    ∃ w, Machine.ReachVia (contract sha256 0)
        (Call.meets (CreditedOnce sha256)) w
      ∧ w.mining.shares.next = 1
      ∧ ∀ i j e f, w.mining.shares.get i = some e →
        w.mining.shares.get j = some f → i ≠ j →
        e.shareHash ≠ f.shareHash := by
  have hrun : (contract sha256 0).endsFrom (Call.passes firstShareOnly)
      (fun w => decide (w.mining.shares.next = 1)) closedRound (World.init 0)
        = true := by
    decide +kernel
  obtain ⟨w, hw, hcheck⟩ := Machine.reachVia_of_endsFrom
    (Call.meets_of_passes creditedOnce_of_firstShareOnly) .init hrun
  exact ⟨w, hw, of_decide_eq_true hcheck, (headers_credited_once hw).1⟩

/-- Miner 2 submits the very arguments of miner 1's accepted share. -/
def copiedShare : List Call :=
  [.admin (.registerTemplate block125552),
   .beginTx 1 0 0,
   .mining (.registerMiner []),
   .mining (.createRoundStats 0 0),
   .mining (.createShareDedup 0),
   .mining (.submitShare 0 ⟨0, 0, 0⟩ solution125552),
   .beginTx 2 0 0,
   .mining (.registerMiner []),
   .mining (.createRoundStats 0 0),
   .mining (.createShareDedup 0),
   .mining (.submitShare 0 ⟨1, 1, 1⟩ solution125552)]

/-- Both are credited for the one header. -/
theorem header_credited_twice :
    ∃ w, Machine.Reach (contract sha256 0) w
      ∧ ∃ e f, w.mining.shares.get 0 = some e
        ∧ w.mining.shares.get 1 = some f
        ∧ e.miner = 1 ∧ f.miner = 2 ∧ e.shareHash = f.shareHash := by
  have hrun : (contract sha256 0).endsIn copiedShare (fun w =>
      (w.mining.shares.get 0).any fun e =>
        (w.mining.shares.get 1).any fun f =>
          decide (e.miner = 1 ∧ f.miner = 2 ∧ e.shareHash = f.shareHash))
        = true := by
    decide +kernel
  obtain ⟨w, hw, hcheck⟩ := Machine.reach_of_endsIn hrun
  obtain ⟨e, he, hcheck⟩ := (Option.any_eq_true ..).mp hcheck
  obtain ⟨f, hf, hboth⟩ := (Option.any_eq_true ..).mp hcheck
  obtain ⟨hone, htwo, hhash⟩ := of_decide_eq_true hboth
  exact ⟨w, hw, e, f, he, hf, hone, htwo, hhash⟩

end M1n3Protocol
