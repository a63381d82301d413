/-
Where block claims come from: which templates can open a round's
accumulator or make its deposit record.

# The trail

An accumulator is opened with a claim, a claim is frozen from a share, a
share is mined on a template, and a template keeps the entry it was
registered through. `ClaimBooks` follows the trail back from the openings
and the deposit records; none of its links ever changes.

# Where it leads elsewhere

Claims are frozen on any template. A buyer's template carries the round
of its registration, and the derived lanes tag their claims with round 0.
`onlyOperatorBlocks` asks that no accepted share on such a template
reaches the template's network difficulty.
-/
import M1n3Protocol.Proofs.Dedup
import M1n3Protocol.Chain.HashiStep

namespace M1n3Protocol

open Checked

/-- The claim was frozen from a share mined on a template registered with
the `PoolAdminCap` for round `r`. -/
structure FromOperator (m : Mining) (claim : ID) (r : U64) : Prop where
  trail : ∃ c e tid t, m.claims.get claim = some c
    ∧ m.shares.get c.share = some e ∧ e.mined = .direct tid
    ∧ m.templates.get tid = some t ∧ t.lane = .operator
    ∧ t.template.roundId = r ∧ c.claim.roundId = r
    ∧ c.claim.shareHash = e.shareHash

/-- A share on a template of another kind stays below the network
difficulty. -/
def onlyOperatorBlocks (H : HashFn) (m : Mining) : MiningEvent → Prop
  | .share mined _ sub =>
      (∃ id t, mined = .direct id ∧ m.templates.get id = some t
        ∧ t.lane = .operator)
      ∨ ∀ job d, m.job mined = some job →
          difficultyFromHash (job.shareHash H sub) = .ok d →
          d < job.cachedNetworkDifficulty
  | _ => True

structure ClaimBooks (m : Mining) : Prop where
  claims_from : ∀ i c, m.claims.get i = some c →
    FromOperator m i c.claim.roundId
  openings_from : m.openings.All fun o =>
    ∃ c, m.claims.get o.claim = some c ∧ c.claim.roundId = o.roundId
  acc_opened : m.accumulators.All fun a =>
    ∃ i o, m.openings.get i = some o ∧ o.roundId = a.roundId
  history_opened : m.histories.All fun rh =>
    ∃ i o, m.openings.get i = some o ∧ o.roundId = rh.roundId

theorem ClaimBooks.init (admin : Address) :
    ClaimBooks (Mining.init admin) where
  claims_from _ _ h := by cases h
  openings_from := .empty
  acc_opened := .empty
  history_opened := .empty

variable {H : HashFn} {ctx : TxContext} {m m' : Mining}

-- =============================================================== the steps

/-- Claims, shares and templates are only ever added to. -/
theorem FromOperator.mono {claim : ID} {r : U64} (h : FromOperator m claim r)
    (hclaims : ∀ i c, m.claims.get i = some c → m'.claims.get i = some c)
    (hshares : ∀ i e, m.shares.get i = some e → ∃ e',
      m'.shares.get i = some e' ∧ e'.mined = e.mined
        ∧ e'.shareHash = e.shareHash)
    (htemplates : ∀ i t, m.templates.get i = some t →
      m'.templates.get i = some t) : FromOperator m' claim r := by
  obtain ⟨c, e, tid, t, hc, he, hmined, ht, hlane, hround, hcr, hhash⟩ :=
    h.trail
  obtain ⟨e', he', hm', hh'⟩ := hshares _ e he
  exact ⟨c, e', tid, t, hclaims _ c hc, he', hm'.trans hmined,
    htemplates _ t ht, hlane, hround, hcr, hhash.trans hh'.symm⟩

/-- Every step keeps the links of the trail. -/
theorem Mining.Step.links {ev : MiningEvent}
    (hs : Mining.Step H ctx m ev m') :
    (∀ i c, m.claims.get i = some c → m'.claims.get i = some c)
      ∧ (∀ i e, m.shares.get i = some e → ∃ e',
          m'.shares.get i = some e' ∧ e'.mined = e.mined
            ∧ e'.shareHash = e.shareHash)
      ∧ (∀ i t, m.templates.get i = some t →
          m'.templates.get i = some t) := by
  refine ⟨fun _ _ hc => hs.claims_kept hc, fun i e he => ?_,
    hs.templates_kept.1⟩
  obtain ⟨n, he', -⟩ := hs.share_kept he
  exact ⟨_, he', rfl, rfl⟩

/-- Steps that freeze no claim and open no accumulator, and of
accumulators at most update some. -/
theorem ClaimBooks.of_frame {ev : MiningEvent} (hb : ClaimBooks m)
    (hs : Mining.Step H ctx m ev m')
    (hclaims : m'.claims = m.claims) (hopenings : m'.openings = m.openings)
    (hacc : ∀ i a, m'.accumulators.get i = some a →
      ∃ j a₀, m.accumulators.get j = some a₀ ∧ a₀.roundId = a.roundId)
    (hhist : m'.histories = m.histories) : ClaimBooks m' := by
  obtain ⟨hc, he, ht⟩ := hs.links
  constructor
  · intro i c hi
    rw [hclaims] at hi
    exact (hb.claims_from i c hi).mono hc he ht
  · rw [hopenings, hclaims]
    exact hb.openings_from
  · intro i a hi
    obtain ⟨j, a₀, hj, hround⟩ := hacc i a hi
    obtain ⟨k, o, hk, ho⟩ := hb.acc_opened j a₀ hj
    exact ⟨k, o, by rw [hopenings, hk], ho.trans hround⟩
  · rw [hhist, hopenings]
    exact hb.history_opened

/-- A share freezes a claim only where it is a block, and there it was
mined on an operator's template of the claim's round. -/
theorem ClaimBooks.share (hb : ClaimBooks m)
    {mined : TemplateRef} {ids : ShareIds} {sub : Submission}
    {payment : Option Payment} {job : Job} {o : MinerObjects}
    {out : ShareOutcome} {receipts : ObjStore ReceiptObject}
    (hcond : onlyOperatorBlocks H m (.share mined ids sub))
    (h : m.Shared H ctx mined ids sub payment job o out receipts) :
    ClaimBooks { m.recordShare ids mined job.height payment out with
      receipts } := by
  obtain ⟨hc, he, ht⟩ := (Mining.Step.share h).links
  have hold : ∀ i c, m.claims.get i = some c →
      FromOperator { m.recordShare ids mined job.height payment out with
        receipts } i c.claim.roundId :=
    fun i c hi => (hb.claims_from i c hi).mono hc he ht
  refine { hb with claims_from := ?_, openings_from := ?_ }
  · intro i c hi
    cases hclaim : out.claim with
    | none =>
        simp only [Mining.recordShare, hclaim] at hi
        exact hold i c hi
    | some claim =>
        simp only [Mining.recordShare, hclaim] at hi
        rcases ObjStore.get_alloc_eq_some hi with ⟨hi', rfl⟩ | hi
        · -- The share is a block, so its template is the operator's.
          have hfreeze := h.claim_eq
          rw [hclaim] at hfreeze
          unfold maybeFreezeBlockClaim at hfreeze
          split at hfreeze
          case isFalse => cases hfreeze
          case isTrue hblock =>
            injection hfreeze with hfreeze
            rw [h.accepted.isBlock_eq, decide_eq_true_eq] at hblock
            rcases hcond with ⟨tid, t, rfl, htid, hlane⟩ | hbelow
            · have hjob : job = t.template.job := by
                have := h.job_eq
                rw [job_direct htid] at this
                exact (Option.some.inj this).symm
              refine ⟨⟨⟨claim, m.shares.next⟩, _, tid, t, ?_,
                ObjStore.get_alloc_self .., rfl, htid, hlane, ?_, rfl, ?_⟩⟩
              · simp only [Mining.recordShare, hclaim, hi']
                exact ObjStore.get_alloc_self ..
              · rw [hfreeze, hjob]
                rfl
              · rw [hfreeze]
            · have hd := h.accepted.difficulty_eq
              rw [h.accepted.hash_eq] at hd
              have hlt := hbelow job _ h.job_eq hd
              rw [BitVec.lt_def] at hlt
              rw [BitVec.le_def] at hblock
              omega
        · exact hold i c hi
  · refine hb.openings_from.imp fun o' hfrom => ?_
    obtain ⟨c, hget, hround⟩ := hfrom
    exact ⟨c, hc _ c hget, hround⟩

theorem ClaimBooks.step {ev : MiningEvent} (hb : ClaimBooks m)
    (hcond : onlyOperatorBlocks H m ev)
    (hs : Mining.Step H ctx m ev m') : ClaimBooks m' := by
  have hframe := hb.of_frame hs
  cases hs with
  | share h => exact hb.share hcond h
  | @openAccumulator id c acc hget hround hclosed hacc =>
      have hmore : ∀ i o, m.openings.get i = some o →
          (m.openings.alloc ⟨m.pool.currentRound, id⟩).get i = some o :=
        fun _ _ h => ObjStore.get_alloc_of_some _ h
      refine {
        claims_from := fun i c hi =>
          (hb.claims_from i c hi).mono (fun _ _ h => h)
            (fun _ e he => ⟨e, he, rfl, rfl⟩) (fun _ _ h => h)
        openings_from := hb.openings_from.alloc ⟨c, hget, hround⟩
        acc_opened := ObjStore.All.alloc (hb.acc_opened.imp ?_) ?_
        history_opened := hb.history_opened.imp ?_ }
      · rintro a ⟨i, o, hi, ho⟩
        exact ⟨i, o, hmore i o hi, ho⟩
      · exact ⟨_, _, ObjStore.get_alloc_self .., by rw [hacc]⟩
      · rintro rh ⟨i, o, hi, ho⟩
        exact ⟨i, o, hmore i o hi, ho⟩
  | @skip accId sid acc mrs hacc =>
      refine hframe rfl rfl (fun i a hi => ?_) rfl
      rcases ObjStore.get_put_eq_some hi with ⟨-, rfl, -⟩ | ⟨-, hi⟩
      · exact ⟨_, _, hacc, rfl⟩
      · exact ⟨i, a, hi, rfl⟩
  | @count accId sid acc acc' mrs hacc hsid hmine heq hround =>
      refine hframe rfl rfl (fun i a hi => ?_) rfl
      rcases ObjStore.get_put_eq_some hi with ⟨-, rfl, -⟩ | ⟨-, hi⟩
      · exact ⟨_, _, hacc, hround.symm⟩
      · exact ⟨i, a, hi, rfl⟩
  | @finalize id acc pool rh hacc hok =>
      obtain ⟨-, -, -, -, -, hrh, -⟩ := finalizeRound_ok hok
      obtain ⟨i, o, hi, ho⟩ := hb.acc_opened id acc hacc
      refine {
        claims_from := fun i c hi =>
          (hb.claims_from i c hi).mono (fun _ _ h => h)
            (fun _ e he => ⟨e, he, rfl, rfl⟩) (fun _ _ h => h)
        openings_from := hb.openings_from
        acc_opened := hb.acc_opened.erase
        history_opened := hb.history_opened.alloc
          ⟨i, o, hi, ho.trans hrh.symm⟩ }
  | quiet | createRoundStats | closeRoundStats | createDedup | dropHashes
  | deleteDedup | mint | clearReceipts | consume =>
      exact hframe rfl rfl (fun i a hi => ⟨i, a, hi, rfl⟩) rfl

-- ================================================================= records

/-- Every deposit record was made with a claim tagged with its round. -/
def RecordsClaimed (w : World) : Prop :=
  w.hashi.records.All fun r => ∃ c, w.mining.claims.get r.claim = some c
    ∧ c.claim.roundId = r.record.roundId

theorem RecordsClaimed.of_hashi {w w' : World} (hr : RecordsClaimed w)
    (hclaims : ∀ i c, w.mining.claims.get i = some c →
      w'.mining.claims.get i = some c)
    (hrecords : ∀ i r, w'.hashi.records.get i = some r →
      (∃ c, w.mining.claims.get r.claim = some c
        ∧ c.claim.roundId = r.record.roundId)
      ∨ ∃ j r₀, w.hashi.records.get j = some r₀ ∧ r.claim = r₀.claim
        ∧ r.record.roundId = r₀.record.roundId) : RecordsClaimed w' := by
  intro i r hi
  rcases hrecords i r hi with ⟨c, hc, hround⟩ | ⟨j, r₀, hj, hclaim, hround⟩
  · exact ⟨c, hclaims _ c hc, hround⟩
  · obtain ⟨c, hc, hcr⟩ := hr j r₀ hj
    exact ⟨c, hclaims _ c (hclaim ▸ hc), hcr.trans hround.symm⟩

/-- A record that is replaced keeps its claim and its round. -/
theorem get_put_record {s : ObjStore RecordObject} {id : ID}
    {r₀ : RecordObject} {r' : BlockDepositRecord}
    (hget : s.get id = some r₀) (hround : r'.roundId = r₀.record.roundId)
    {i : ID} {r : RecordObject}
    (hi : (s.put id { r₀ with record := r' }).get i = some r) :
    ∃ j r₁, s.get j = some r₁ ∧ r.claim = r₁.claim
      ∧ r.record.roundId = r₁.record.roundId := by
  rcases ObjStore.get_put_eq_some hi with ⟨-, rfl, -⟩ | ⟨-, hi⟩
  · exact ⟨id, r₀, hget, rfl, hround⟩
  · exact ⟨i, r, hi, rfl, rfl⟩

theorem RecordsClaimed.step {w w' : World} {c : Call}
    (hr : RecordsClaimed w) (hs : World.HashiStep w c w') :
    RecordsClaimed w' := by
  have hsame : ∀ i r, w.hashi.records.get i = some r →
      (∃ c, w.mining.claims.get r.claim = some c
        ∧ c.claim.roundId = r.record.roundId)
      ∨ ∃ j r₀, w.hashi.records.get j = some r₀ ∧ r.claim = r₀.claim
        ∧ r.record.roundId = r₀.record.roundId :=
    fun i r hi => .inr ⟨i, r, hi, rfl, rfl⟩
  cases hs with
  | mark hget hm =>
      exact hr.of_hashi (fun _ _ h => h) fun i r hi =>
        .inr (get_put_record hget hm.round hi)
  | confirm hc hget hok =>
      obtain ⟨-, heq, -⟩ := markHashiConfirmed_ok hok
      refine hr.of_hashi (fun _ _ h => h) fun i r hi =>
        .inr (get_put_record hget ?_ hi)
      rw [heq]
  | record hc hclaim hok =>
      obtain ⟨-, -, -, -, -, hround, -⟩ := recordBlockFound_ok hok
      refine hr.of_hashi (fun _ _ h => h) fun i r hi => ?_
      rcases ObjStore.get_alloc_eq_some hi with ⟨-, rfl⟩ | hi
      · exact .inl ⟨_, hclaim, hround.symm⟩
      · exact hsame i r hi
  | openBatch hhist hget hok =>
      refine hr.of_hashi (fun _ _ h => h) fun i r hi =>
        .inr (get_put_record hget ?_ hi)
      rw [hok.record_eq]
  | openRedemption hcap hhist hget hok =>
      refine hr.of_hashi (fun _ _ h => h) fun i r hi =>
        .inr (get_put_record hget ?_ hi)
      rw [hok.record_eq]
  | initializeConfig | config | credit | transferCoin | receive | collect
  | claim | recycleBatch | redeem | recycleRedemption =>
      exact hr.of_hashi (fun _ _ h => h) hsame

-- ============================================== only a pool block closes

/-- While no share on a buyer's, public or derived template is a block,
every accumulator ever opened, every finalized round and every deposit
record goes back to a share mined on an operator's template of the same
round. -/
theorem rounds_closed_by_pool_blocks {publisher : Address} {w : World}
    (h : Machine.ReachVia (contract H publisher)
      (Call.meets (onlyOperatorBlocks H)) w) :
    (∀ i o, w.mining.openings.get i = some o →
        FromOperator w.mining o.claim o.roundId)
      ∧ (∀ i a, w.mining.accumulators.get i = some a →
          ∃ j o, w.mining.openings.get j = some o ∧ o.roundId = a.roundId)
      ∧ (∀ i rh, w.mining.histories.get i = some rh →
          ∃ j o, w.mining.openings.get j = some o ∧ o.roundId = rh.roundId)
      ∧ (∀ i r, w.hashi.records.get i = some r →
          FromOperator w.mining r.claim r.record.roundId) := by
  have hb : ClaimBooks w.mining := by
    refine mining_invariant (C := onlyOperatorBlocks H) (I := ClaimBooks)
      (.init publisher) ?_ (fun _ _ _ _ _ _ _ _ _ => trivial) h
    exact fun _ _ _ _ hb hcond hs => hb.step hcond hs
  have hrec : RecordsClaimed w := by
    refine Machine.ReachVia.invariant (I := RecordsClaimed) ?_ ?_ h
    · intro i r hi
      cases hi
    · intro w c w' hrec _ hs
      rcases World.exec_hashi hs with ⟨-, hstep⟩ | ⟨-, hsame, -⟩
      · exact hrec.step hstep
      · refine hrec.of_hashi (fun _ _ hc => World.exec_claims_kept hs hc) ?_
        intro i r hi
        exact .inr ⟨i, r, hsame ▸ hi, rfl, rfl⟩
  refine ⟨fun i o hi => ?_, hb.acc_opened, hb.history_opened,
    fun i r hi => ?_⟩
  · obtain ⟨c, hc, hround⟩ := hb.openings_from i o hi
    exact hround ▸ hb.claims_from _ c hc
  · obtain ⟨c, hc, hround⟩ := hrec i r hi
    exact hround ▸ hb.claims_from _ c hc

/-- A call whose shares are on operators' templates. -/
def operatorShares (m : Mining) : MiningEvent → Bool
  | .share (.direct id) .. =>
      (m.templates.get id).any fun t => decide (t.lane = .operator)
  | .share .. => false
  | _ => true

theorem onlyOperatorBlocks_of_operatorShares (m : Mining) (ev : MiningEvent)
    (h : operatorShares m ev = true) : onlyOperatorBlocks H m ev := by
  cases ev with
  | share mined ids sub =>
      cases mined with
      | direct id =>
          obtain ⟨t, ht, hlane⟩ := (Option.any_eq_true ..).mp h
          exact .inl ⟨id, t, rfl, ht, of_decide_eq_true hlane⟩
      | derived => cases h
  | _ => exact trivial

/-- The operator's own block leads back to its template. -/
theorem rounds_closed_by_pool_blocks_closedRound :
    ∃ w, Machine.ReachVia (contract sha256 0)
        (Call.meets (onlyOperatorBlocks sha256)) w
      ∧ ∃ o, w.mining.openings.get 0 = some o
        ∧ FromOperator w.mining o.claim o.roundId := by
  have hrun : (contract sha256 0).endsFrom (Call.passes operatorShares)
      (fun w => (w.mining.openings.get 0).isSome) closedRound
      (World.init 0) = true := by
    decide +kernel
  obtain ⟨w, hw, hcheck⟩ := Machine.reachVia_of_endsFrom
    (Call.meets_of_passes onlyOperatorBlocks_of_operatorShares) .init hrun
  obtain ⟨o, ho⟩ := Option.isSome_iff_exists.mp hcheck
  exact ⟨w, hw, o, ho, (rounds_closed_by_pool_blocks hw).1 0 o ho⟩

/-- An outsider registers a template for the fee and finds a block on it:
its claim opens the pool's round and takes the round's deposit record. -/
def outsiderBlock : List Call :=
  [.hashiAdmin (.initializeConfig (leBytes 32 0)),
   .beginTx 1 0 0,
   .mining (.registerTemplatePublic 10_000_000 block125552),
   .mining (.registerMiner []),
   .mining (.createRoundStats 0 0),
   .mining (.createShareDedup 0),
   .mining (.submitShare 0 ⟨0, 0, 0⟩ solution125552),
   .mining (.openRoundAccumulatorFromClaim 0),
   .recordBlockFound 0 0 (leBytes 32 1) 0 5_000_000_000]

/-- Whether a claim's share was mined on a template of the public
entry. -/
def claimByOutsider (m : Mining) (claim : ID) : Bool :=
  (m.claims.get claim).any fun c => (m.shares.get c.share).any fun e =>
    match e.mined with
    | .direct id =>
        (m.templates.get id).any fun t => decide (t.lane = .permissionless)
    | .derived _ => true

theorem not_fromOperator {m : Mining} {claim : ID}
    (h : claimByOutsider m claim = true) (r : U64) :
    ¬ FromOperator m claim r := by
  rintro ⟨c, e, tid, t, hc, he, hmined, ht, hlane, -⟩
  rw [claimByOutsider, hc, Option.any_some, he, Option.any_some, hmined] at h
  simp only [ht, Option.any_some, hlane] at h
  cases h

theorem outsider_closes_round :
    ∃ w, Machine.Reach (contract sha256 0) w
      ∧ (∃ o, w.mining.openings.get 0 = some o
        ∧ ¬ FromOperator w.mining o.claim o.roundId)
      ∧ ∃ r, w.hashi.records.get 0 = some r
        ∧ ¬ FromOperator w.mining r.claim r.record.roundId := by
  have hrun : (contract sha256 0).endsIn outsiderBlock (fun w =>
      ((w.mining.openings.get 0).any fun o => claimByOutsider w.mining o.claim)
        && (w.hashi.records.get 0).any fun r =>
          claimByOutsider w.mining r.claim) = true := by
    decide +kernel
  obtain ⟨w, hw, hcheck⟩ := Machine.reach_of_endsIn hrun
  rw [Bool.and_eq_true] at hcheck
  obtain ⟨o, ho, hout⟩ := (Option.any_eq_true ..).mp hcheck.1
  obtain ⟨r, hr, hrout⟩ := (Option.any_eq_true ..).mp hcheck.2
  exact ⟨w, hw, ⟨o, ho, not_fromOperator hout _⟩,
    r, hr, not_fromOperator hrout _⟩

end M1n3Protocol
