/-
What one call can do to the mining side, said once.

# The relation

`Mining.Step` has a constructor for each effect a call can have there,
with everything the source checked on the way. The four paying lanes and
`submit_share` are one constructor; calls that only touch templates, the
pool's settings or the lifetime stats are one; a pass of
`accumulate_miner_stats` is two, for an object it counts and one it only
consumes. The label is the part of the call a condition may speak about.

# The inversion

`World.exec_mining` takes any successful call to a trace of such steps
with the labels `Call.events` reads off the call. Every invariant of the
mining side is proved by cases on `Mining.Step`, and
`mining_invariant` carries it to every reachable state of the chain.
-/
import M1n3Protocol.Chain.World

namespace M1n3Protocol

open Checked

-- ================================================================ labels

inductive MiningEvent
  | other
  | share (mined : TemplateRef) (ids : ShareIds) (sub : Submission)
  | dropHashes (dedup : ID) (hashes : List Bytes)
  | mint (receipt : ID)
  | accumulate (acc stats : ID)
  | consume (record : ID)

def MiningCall.events : MiningCall → List MiningEvent
  | .submitShare template ids sub => [.share (.direct template) ids sub]
  | .closeShareDedup dedup hashes => [.dropHashes dedup hashes]
  | .accumulateMinerStats acc mrsVec =>
      mrsVec.reverse.map (MiningEvent.accumulate acc)
  | _ => [.other]

def PayCall.events : PayCall → List MiningEvent
  | .submitShareForPay template _ ids sub => [.share (.direct template) ids sub]
  | .submitShareForPayDerived derived _ ids sub =>
      [.share (.derived derived) ids sub]
  | .submitShareForBuyerPay template _ ids sub =>
      [.share (.direct template) ids sub]
  | .submitShareForBuyerPayDerived derived _ _ ids sub =>
      [.share (.derived derived) ids sub]

/-- The labels of the steps a call takes on the mining side. -/
def Call.events : Call → List MiningEvent
  | .mining c => c.events
  | .pay c => c.events
  | .beginTx .. | .admin _ => [.other]
  | .mintShare _ receipt _ => [.mint receipt]
  | .claimReward _ record _ => [.consume record]
  | _ => []

-- =============================================================== the step

/-- The round a share's work is recorded under. -/
def TemplateRef.recordRound (job : Job) (mrs : MinerRoundStats) :
    TemplateRef → U64
  | .direct _ => job.roundId
  | .derived _ => mrs.roundId

/-- The round a share's claim is tagged with. -/
def TemplateRef.claimRound (job : Job) : TemplateRef → U64
  | .direct _ => job.roundId
  | .derived _ => 0

/-- A change to templates, settings or lifetime stats. -/
structure Mining.Quiet (ctx : TxContext) (m : Mining) (pool : Pool)
    (templates : ObjStore TemplateObject)
    (derived : ObjStore DerivedTemplate) : Prop where
  round : pool.currentRound = m.pool.currentRound
  is_open : pool.accumulatorOpen = m.pool.accumulatorOpen
  blocks : pool.totalBlocks = m.pool.totalBlocks
  difficulty : pool.globalMinDifficulty = m.pool.globalMinDifficulty
    ∨ (Const.minDifficulty ≤ pool.globalMinDifficulty
      ∧ pool.globalMinDifficulty ≤ Const.maxDifficulty)
  templates_kept : ∀ i t, m.templates.get i = some t →
    templates.get i = some t
  templates_new : ∀ i t, templates.get i = some t →
    m.templates.get i = some t ∨
      ∃ args pool', registerTemplateInner m.pool args ctx
        = .ok (pool', t.template)
  derived_kept : ∀ i d, m.derived.get i = some d → derived.get i = some d
  derived_new : ∀ i d, derived.get i = some d →
    m.derived.get i = some d ∨
      ∃ pid parent fee c1 c2 ntime, m.templates.get pid = some parent ∧
        registerDerivedTemplatePublic pid parent.template fee c1 c2 ntime ctx
          = .ok d
  height_le : m.pool.currentHeight ≤ pool.currentHeight
  height_reached : pool.currentHeight = m.pool.currentHeight
    ∨ ∃ i t, templates.get i = some t
      ∧ t.template.height = pool.currentHeight
  heights : ∀ i t, templates.get i = some t →
    m.templates.get i = some t ∨ t.template.height ≤ pool.currentHeight

/-- An accepted share: what was checked, the claim frozen for it, and
either the receipt an unpaid share gets or the payment of a paid one. -/
structure Mining.Shared (H : HashFn) (ctx : TxContext) (m : Mining)
    (mined : TemplateRef) (ids : ShareIds) (sub : Submission)
    (payment : Option Payment) (job : Job) (o : MinerObjects)
    (out : ShareOutcome) (receipts : ObjStore ReceiptObject) : Prop where
  job_eq : m.job mined = some job
  stats_get : m.minerStats.get ids.stats = some o.stats
  round_get : m.roundStats.get ids.round = some o.round
  dedup_get : m.dedups.get ids.dedup = some o.dedup
  accepted : Accepted H job (mined.recordRound job o.round) o sub ctx
    out.objects out.share
  claim_eq : out.claim = maybeFreezeBlockClaim out.share.isBlock
    (mined.claimRound job) job.height out.share.sender out.share.shareHash
    out.share.now
  receipt : (payment.isSome = true ∧ receipts = m.receipts)
    ∨ (payment = none ∧ ∃ id t, mined = .direct id
      ∧ m.templates.get id = some t
      ∧ receipts = m.receipts.alloc
          ⟨{ miner := ctx.sender, templateOwner := t.template.owner,
             difficulty := out.share.difficulty, roundId := job.roundId },
           m.shares.next⟩)

inductive Mining.Step (H : HashFn) (ctx : TxContext) (m : Mining) :
    MiningEvent → Mining → Prop
  | quiet {pool : Pool} {templates : ObjStore TemplateObject}
      {derived : ObjStore DerivedTemplate} {minerStats : ObjStore MinerStats}
      (h : m.Quiet ctx pool templates derived) :
      Step H ctx m .other { m with pool, templates, derived, minerStats }
  | createRoundStats {r h : U64} {registry : List MinerRoundKey}
      {mrs : MinerRoundStats}
      (hok : createRoundStats m.roundRegistry r h ctx = .ok (registry, mrs)) :
      Step H ctx m .other { m with
        roundRegistry := registry, roundStats := m.roundStats.alloc mrs }
  | closeRoundStats {id : ID} {mrs : MinerRoundStats}
      (hget : m.roundStats.get id = some mrs) :
      Step H ctx m .other { m with roundStats := m.roundStats.erase id }
  | createDedup {r : U64} {registry : List MinerRoundKey} {d : ShareDedup}
      (hok : createShareDedup m.dedupRegistry r ctx = .ok (registry, d)) :
      Step H ctx m .other { m with
        dedupRegistry := registry, dedups := m.dedups.alloc d }
  | dropHashes {id : ID} {hashes : List Bytes} {d d' : ShareDedup}
      (hget : m.dedups.get id = some d)
      (hok : closeShareDedup d hashes ctx = .ok d') :
      Step H ctx m (.dropHashes id hashes)
        { m with dedups := m.dedups.put id d' }
  | deleteDedup {id : ID} {d : ShareDedup} (hget : m.dedups.get id = some d)
      (hok : deleteShareDedup d ctx = .ok ()) :
      Step H ctx m .other { m with dedups := m.dedups.erase id }
  | share {mined : TemplateRef} {ids : ShareIds} {sub : Submission}
      {payment : Option Payment} {job : Job} {o : MinerObjects}
      {out : ShareOutcome} {receipts : ObjStore ReceiptObject}
      (h : m.Shared H ctx mined ids sub payment job o out receipts) :
      Step H ctx m (.share mined ids sub)
        { m.recordShare ids mined job.height payment out with receipts }
  | clearReceipts : Step H ctx m .other { m with receipts := .empty }
  | mint {rid sid : ID} {r : ReceiptObject} {mrs mrs' : MinerRoundStats}
      (hr : m.receipts.get rid = some r)
      (hs : m.roundStats.get sid = some mrs)
      (hok : recordSoldShare mrs r.receipt.miner r.receipt.difficulty
        r.receipt.roundId = .ok mrs') :
      Step H ctx m (.mint rid) (m.recordMint rid sid r.share mrs')
  | openAccumulator {id : ID} {c : ClaimObject} {acc : RoundAccumulator}
      (hget : m.claims.get id = some c)
      (hround : c.claim.roundId = m.pool.currentRound)
      (hclosed : m.pool.accumulatorOpen = false)
      (hacc : acc = { roundId := m.pool.currentRound, totalWork := 0,
                      totalShares := 0, createdAtMs := ctx.timestampMs,
                      blockFinder := c.claim.blockFinder,
                      blockFoundHeight := c.claim.height }) :
      Step H ctx m .other { m with
        pool := { m.pool with accumulatorOpen := true }
        accumulators := m.accumulators.alloc acc
        openings := m.openings.alloc ⟨m.pool.currentRound, id⟩ }
  | skip {accId sid : ID} {acc : RoundAccumulator} {mrs : MinerRoundStats}
      (hacc : m.accumulators.get accId = some acc)
      (hs : m.roundStats.get sid = some mrs)
      (hmine : mrs.miner = ctx.sender) (hne : mrs.roundId ≠ acc.roundId) :
      Step H ctx m (.accumulate accId sid) { m with
        accumulators := m.accumulators.put accId acc
        roundStats := m.roundStats.erase sid }
  | count {accId sid : ID} {acc acc' : RoundAccumulator}
      {mrs : MinerRoundStats}
      (hacc : m.accumulators.get accId = some acc)
      (hs : m.roundStats.get sid = some mrs)
      (hmine : mrs.miner = ctx.sender) (heq : mrs.roundId = acc.roundId)
      (hround : acc'.roundId = acc.roundId)
      (hwork : acc'.totalWork.toNat = acc.totalWork.toNat
        + (mrs.work.toNat - mrs.soldWork.toNat))
      (hcreated : acc'.createdAtMs = acc.createdAtMs)
      (hfinder : acc'.blockFinder = acc.blockFinder)
      (hheight : acc'.blockFoundHeight = acc.blockFoundHeight) :
      Step H ctx m (.accumulate accId sid) { m with
        accumulators := m.accumulators.put accId acc'
        roundStats := m.roundStats.erase sid
        workRecords :=
          if 0 < netWork mrs then
            m.workRecords.alloc ⟨mrs.roundId, mrs.miner, netWork mrs⟩
          else m.workRecords
        issued :=
          if 0 < netWork mrs then
            m.issued.alloc ⟨mrs.roundId, mrs.miner, netWork mrs⟩
          else m.issued }
  | finalize {id : ID} {acc : RoundAccumulator} {pool : Pool}
      {rh : RoundHistory} (hacc : m.accumulators.get id = some acc)
      (hok : finalizeRound m.pool acc ctx = .ok (pool, rh)) :
      Step H ctx m .other { m with
        pool
        accumulators := m.accumulators.erase id
        histories := m.histories.alloc rh }
  | consume {id : ID} {r : MinerWorkRecord}
      (hget : m.workRecords.get id = some r) :
      Step H ctx m (.consume id)
        { m with workRecords := m.workRecords.erase id }

-- ============================================================= inversion

variable {H : HashFn} {ctx : TxContext} {m m' : Mining}

theorem minerObjects_eq_ok {ids : ShareIds} {o : MinerObjects}
    (h : m.minerObjects ids = .ok o) :
    m.minerStats.get ids.stats = some o.stats
      ∧ m.roundStats.get ids.round = some o.round
      ∧ m.dedups.get ids.dedup = some o.dedup := by
  simp only [Mining.minerObjects, bind_eq_ok, load_eq_ok, pure_eq_ok] at h
  obtain ⟨s, hs, r, hr, d, hd, heq⟩ := h
  subst heq
  exact ⟨hs, hr, hd⟩

theorem job_direct {id : ID} {t : TemplateObject}
    (h : m.templates.get id = some t) :
    m.job (.direct id) = some t.template.job := by
  simp [Mining.job, h]

theorem job_derived {id : ID} {d : DerivedTemplate}
    (h : m.derived.get id = some d) : m.job (.derived id) = some d.job := by
  simp [Mining.job, h]

/-- Registering a template, by either entry, is quiet. -/
theorem Mining.Quiet.register {args : TemplateArgs} {pool : Pool}
    {t : Template} (lane : Lane)
    (h : registerTemplateInner m.pool args ctx = .ok (pool, t)) :
    m.Quiet ctx pool (m.templates.alloc ⟨t, lane⟩) m.derived := by
  obtain ⟨⟨height, hpool⟩, -⟩ := registerTemplateInner_ok h
  obtain ⟨hle, hnew, hreached⟩ := registerTemplateInner_height h
  refine {
    round := by rw [hpool]
    is_open := by rw [hpool]
    blocks := by rw [hpool]
    difficulty := .inl (by rw [hpool])
    templates_kept := fun i t' ht' => ObjStore.get_alloc_of_some _ ht'
    templates_new := ?_
    derived_kept := fun _ _ hd => hd
    derived_new := fun _ _ hd => .inl hd
    height_le := hle
    height_reached := hreached.imp_right fun heq =>
      ⟨_, _, ObjStore.get_alloc_self .., heq.symm⟩
    heights := ?_ }
  · intro i t' ht'
    rcases ObjStore.get_alloc_eq_some ht' with ⟨-, rfl⟩ | ht'
    · exact .inr ⟨args, pool, h⟩
    · exact .inl ht'
  · intro i t' ht'
    rcases ObjStore.get_alloc_eq_some ht' with ⟨-, rfl⟩ | ht'
    · exact .inr hnew
    · exact .inl ht'

/-- A change of nothing but the difficulty floor is quiet. -/
theorem Mining.Quiet.tune {d : U64}
    (hd : Const.minDifficulty ≤ d ∧ d ≤ Const.maxDifficulty) :
    m.Quiet ctx { m.pool with globalMinDifficulty := d } m.templates
      m.derived where
  round := rfl
  is_open := rfl
  blocks := rfl
  difficulty := .inr hd
  templates_kept _ _ h := h
  templates_new _ _ h := .inl h
  derived_kept _ _ h := h
  derived_new _ _ h := .inl h
  height_le := BitVec.le_refl _
  height_reached := .inl rfl
  heights _ _ h := .inl h

theorem Mining.Quiet.refl : m.Quiet ctx m.pool m.templates m.derived where
  round := rfl
  is_open := rfl
  blocks := rfl
  difficulty := .inl rfl
  templates_kept _ _ h := h
  templates_new _ _ h := .inl h
  derived_kept _ _ h := h
  derived_new _ _ h := .inl h
  height_le := BitVec.le_refl _
  height_reached := .inl rfl
  heights _ _ h := .inl h

theorem Mining.submitShare_step {template : ID} {ids : ShareIds}
    {sub : Submission}
    (h : m.submitShare H ctx template ids sub = .ok m') :
    Mining.Step H ctx m (.share (.direct template) ids sub) m' := by
  simp only [Mining.submitShare, bind_eq_ok, load_eq_ok, pure_eq_ok] at h
  obtain ⟨t, ht, o, ho, ⟨out, receipt⟩, hsub, heq⟩ := h
  subst heq
  obtain ⟨hs, hr, hd⟩ := minerObjects_eq_ok ho
  obtain ⟨hacc, hclaim, hreceipt⟩ := submitShare_ok hsub
  have hshared : m.Shared H ctx (.direct template) ids sub none
      t.template.job o out (m.receipts.alloc ⟨receipt, m.shares.next⟩) := {
    job_eq := job_direct ht
    stats_get := hs
    round_get := hr
    dedup_get := hd
    accepted := hacc
    claim_eq := hclaim
    receipt := .inr ⟨rfl, template, t, rfl, ht, by rw [hreceipt]; rfl⟩ }
  exact .share hshared

theorem Mining.accumulateOne_step {accId sid : ID}
    (h : Mining.accumulateOne ctx accId m sid = .ok m') :
    Mining.Step H ctx m (.accumulate accId sid) m' := by
  simp only [Mining.accumulateOne, bind_eq_ok, load_eq_ok, pure_eq_ok] at h
  obtain ⟨acc, hacc, mrs, hs, ⟨acc', record⟩, hok, heq⟩ := h
  subst heq
  obtain ⟨hmine, hcase⟩ := accumulateStats_ok hok
  rcases hcase with
    ⟨hne, rfl, rfl⟩ | ⟨heq, hround, hwork, hcreated, hf, hh, rfl⟩
  · exact .skip hacc hs hmine hne
  · have hstep := Mining.Step.count (H := H) hacc hs hmine heq hround hwork
      hcreated hf hh
    by_cases hpos : 0 < netWork mrs
    · simpa only [if_pos hpos] using hstep
    · simpa only [if_neg hpos] using hstep

theorem Mining.exec_trace {c : MiningCall} (h : m.exec H ctx c = .ok m') :
    Trace (Mining.Step H ctx) m c.events m' := by
  cases c with
  | registerTemplatePublic fee args =>
      simp only [Mining.exec, bind_eq_ok, pure_eq_ok] at h
      obtain ⟨⟨pool, t⟩, ht, heq⟩ := h
      subst heq
      exact .single (.quiet (.register _ (registerTemplatePublic_ok ht)))
  | registerDerivedTemplatePublic parent fee c1 c2 ntime =>
      simp only [Mining.exec, bind_eq_ok, load_eq_ok, pure_eq_ok] at h
      obtain ⟨t, ht, d, hd, heq⟩ := h
      subst heq
      have hquiet : m.Quiet ctx m.pool m.templates (m.derived.alloc d) := by
        refine { Mining.Quiet.refl with
          derived_kept := fun i d' hd' => ObjStore.get_alloc_of_some _ hd'
          derived_new := ?_ }
        intro i d' hd'
        rcases ObjStore.get_alloc_eq_some hd' with ⟨-, rfl⟩ | hd'
        · exact .inr ⟨parent, t, fee, c1, c2, ntime, ht, hd⟩
        · exact .inl hd'
      exact .single (.quiet hquiet)
  | registerMiner addr =>
      simp only [Mining.exec, pure_eq_ok] at h
      subst h
      exact .single (.quiet .refl)
  | setBtcPayoutAddress stats addr =>
      simp only [Mining.exec, bind_eq_ok, load_eq_ok, pure_eq_ok] at h
      obtain ⟨s, -, s', -, heq⟩ := h
      subst heq
      exact .single (.quiet .refl)
  | createRoundStats r hgt =>
      simp only [Mining.exec, bind_eq_ok, pure_eq_ok] at h
      obtain ⟨⟨reg, mrs⟩, hok, heq⟩ := h
      subst heq
      exact .single (.createRoundStats hok)
  | closeMinerRoundStats id =>
      simp only [Mining.exec, bind_eq_ok, load_eq_ok, pure_eq_ok] at h
      obtain ⟨mrs, hget, _, -, heq⟩ := h
      subst heq
      exact .single (.closeRoundStats hget)
  | createShareDedup r =>
      simp only [Mining.exec, bind_eq_ok, pure_eq_ok] at h
      obtain ⟨⟨reg, d⟩, hok, heq⟩ := h
      subst heq
      exact .single (.createDedup hok)
  | closeShareDedup id hashes =>
      simp only [Mining.exec, bind_eq_ok, load_eq_ok, pure_eq_ok] at h
      obtain ⟨d, hget, d', hok, heq⟩ := h
      subst heq
      exact .single (.dropHashes hget hok)
  | deleteShareDedup id =>
      simp only [Mining.exec, bind_eq_ok, load_eq_ok, pure_eq_ok] at h
      obtain ⟨d, hget, _, hok, heq⟩ := h
      subst heq
      exact .single (.deleteDedup hget hok)
  | submitShare template ids sub => exact .single (submitShare_step h)
  | openRoundAccumulatorFromClaim id =>
      simp only [Mining.exec, bind_eq_ok, load_eq_ok, pure_eq_ok] at h
      obtain ⟨c, hget, ⟨pool, acc⟩, hok, heq⟩ := h
      obtain ⟨hround, hcase⟩ := openRoundAccumulatorFromClaim_ok hok
      rcases hcase with ⟨-, rfl, rfl⟩ | ⟨hclosed, rfl, rfl⟩
      · subst heq
        exact .single (.quiet .refl)
      · subst heq
        exact .single (.openAccumulator hget hround hclosed rfl)
  | accumulateMinerStats acc mrsVec =>
      exact Trace.of_foldlM (fun _ _ _ h => accumulateOne_step h) h
  | finalizeRound id =>
      simp only [Mining.exec, bind_eq_ok, load_eq_ok, pure_eq_ok] at h
      obtain ⟨acc, hget, ⟨pool, rh⟩, hok, heq⟩ := h
      subst heq
      exact .single (.finalize hget hok)

theorem Mining.execAdmin_trace {c : AdminCall}
    (h : m.execAdmin ctx c = .ok m') :
    Trace (Mining.Step H ctx) m [.other] m' := by
  cases c with
  | registerTemplate args =>
      simp only [Mining.execAdmin, bind_eq_ok, pure_eq_ok] at h
      obtain ⟨⟨pool, t⟩, ht, heq⟩ := h
      subst heq
      exact .single (.quiet (.register _ ht))
  | resetDifficulty =>
      simp only [Mining.execAdmin, pure_eq_ok] at h
      subst h
      exact .single (.quiet (.tune (by decide)))
  | setDifficulty diff =>
      simp only [Mining.execAdmin, bind_eq_ok, pure_eq_ok] at h
      obtain ⟨pool, hok, heq⟩ := h
      subst heq
      obtain ⟨hlo, hhi, rfl⟩ := setDifficulty_ok hok
      exact .single (.quiet (.tune ⟨hlo, hhi⟩))

/-- A paid share, from any of the four lanes. -/
theorem Mining.step_of_paidBy {mined : TemplateRef} {ids : ShareIds}
    {sub : Submission} {order : OrderRef} {job : Job} {o : MinerObjects}
    {terms : OrderTerms} {paid : PaidOutcome}
    (hjob : m.job mined = some job) (ho : m.minerObjects ids = .ok o)
    (hpaid : PaidBy H job (mined.recordRound job o.round)
      (mined.claimRound job) terms o sub ctx paid) :
    Mining.Step H ctx m (.share mined ids sub)
      (m.recordShare ids mined job.height (some ⟨order, paid.payout⟩)
        paid.outcome) := by
  obtain ⟨hs, hr, hd⟩ := minerObjects_eq_ok ho
  have hshared : m.Shared H ctx mined ids sub (some ⟨order, paid.payout⟩)
      job o paid.outcome m.receipts := {
    job_eq := hjob
    stats_get := hs
    round_get := hr
    dedup_get := hd
    accepted := hpaid.accepted
    claim_eq := hpaid.claim_eq
    receipt := .inl ⟨rfl, rfl⟩ }
  exact .share hshared

theorem World.pay_trace {w w' : World} {c : PayCall}
    (h : w.pay H c = .ok w') :
    Trace (Mining.Step H w.ctx) w.mining c.events w'.mining := by
  cases c with
  | submitShareForPay template order ids sub =>
      simp only [World.pay, bind_eq_ok, load_eq_ok, pure_eq_ok] at h
      obtain ⟨t, ht, b, -, o, ho, paid, hpay, heq⟩ := h
      subst heq
      obtain ⟨-, hpaid⟩ := submitShareForPay_ok hpay
      exact .single (Mining.step_of_paidBy (job_direct ht) ho hpaid)
  | submitShareForPayDerived derived order ids sub =>
      simp only [World.pay, bind_eq_ok, load_eq_ok, pure_eq_ok] at h
      obtain ⟨d, hd, b, -, o, ho, paid, hpay, heq⟩ := h
      subst heq
      obtain ⟨-, hpaid⟩ := submitShareForPayDerived_ok hpay
      exact .single (Mining.step_of_paidBy (job_derived hd) ho hpaid)
  | submitShareForBuyerPay template order ids sub =>
      simp only [World.pay, bind_eq_ok, load_eq_ok, pure_eq_ok] at h
      obtain ⟨t, ht, b, -, o, ho, paid, hpay, heq⟩ := h
      subst heq
      obtain ⟨-, hpaid⟩ := submitShareForBuyerPay_ok hpay
      exact .single (Mining.step_of_paidBy (job_direct ht) ho hpaid)
  | submitShareForBuyerPayDerived derived parent order ids sub =>
      simp only [World.pay, bind_eq_ok, load_eq_ok, pure_eq_ok] at h
      obtain ⟨d, hd, p, -, b, -, o, ho, paid, hpay, heq⟩ := h
      subst heq
      obtain ⟨-, -, hpaid⟩ := submitShareForBuyerPayDerived_ok hpay
      exact .single (Mining.step_of_paidBy (job_derived hd) ho hpaid)

/-- Every call is a trace of steps on the mining side. -/
theorem World.exec_mining {w w' : World} {c : Call}
    (h : w.exec H c = .ok w') :
    Trace (Mining.Step H w.ctx) w.mining c.events w'.mining := by
  cases c with
  | beginTx sender epoch ts =>
      simp only [World.exec, World.beginTx, bind_eq_ok, pure_eq_ok] at h
      obtain ⟨_, -, heq⟩ := h
      subst heq
      exact .single .clearReceipts
  | transferAdminCap recipient =>
      simp only [World.exec, bind_eq_ok, pure_eq_ok] at h
      obtain ⟨_, -, heq⟩ := h
      subst heq
      exact .nil _
  | admin c =>
      simp only [World.exec, bind_eq_ok, pure_eq_ok] at h
      obtain ⟨_, -, mining, hm, heq⟩ := h
      subst heq
      exact Mining.execAdmin_trace hm
  | mining c =>
      simp only [World.exec, bind_eq_ok, pure_eq_ok] at h
      obtain ⟨mining, hm, heq⟩ := h
      subst heq
      exact Mining.exec_trace hm
  | order c =>
      simp only [World.exec, bind_eq_ok, pure_eq_ok] at h
      obtain ⟨orders, -, heq⟩ := h
      subst heq
      exact .nil _
  | pay c => exact World.pay_trace h
  | slotAdmin c =>
      simp only [World.exec, bind_eq_ok, pure_eq_ok] at h
      obtain ⟨_, -, slots, -, heq⟩ := h
      subst heq
      exact .nil _
  | slot c =>
      simp only [World.exec, bind_eq_ok, pure_eq_ok] at h
      obtain ⟨slots, -, heq⟩ := h
      subst heq
      exact .nil _
  | mintShare capId receiptId mrsId =>
      simp only [World.exec, World.mintShare, bind_eq_ok, load_eq_ok,
        pure_eq_ok] at h
      obtain ⟨cap, -, r, hr, mrs, hs, out, hmint, heq⟩ := h
      subst heq
      obtain ⟨-, hsold, -⟩ := mintShare_ok hmint
      exact .single (.mint hr hs hsold)
  | hashiAdmin c =>
      simp only [World.exec, bind_eq_ok, pure_eq_ok] at h
      obtain ⟨_, -, hashi, -, heq⟩ := h
      subst heq
      exact .nil _
  | hashi c =>
      simp only [World.exec, bind_eq_ok, pure_eq_ok] at h
      obtain ⟨hashi, -, heq⟩ := h
      subst heq
      exact .nil _
  | recordBlockFound config claim txid vout amount =>
      simp only [World.exec, World.recordBlockFound, bind_eq_ok, load_eq_ok,
        pure_eq_ok] at h
      obtain ⟨_, -, c, -, ⟨config', record⟩, -, heq⟩ := h
      subst heq
      exact .nil _
  | openAndFundRoundBatch history record =>
      simp only [World.exec, World.openAndFundRoundBatch, bind_eq_ok,
        load_eq_ok, pure_eq_ok] at h
      obtain ⟨rh, -, r, -, out, -, heq⟩ := h
      subst heq
      exact .nil _
  | claimReward batch record history =>
      simp only [World.exec, World.claimReward, bind_eq_ok, load_eq_ok,
        pure_eq_ok] at h
      obtain ⟨b, -, r, hr, rh, -, ⟨rewards, b', amount⟩, -, heq⟩ := h
      subst heq
      exact .single (.consume hr)
  | openRedemption cap history record =>
      simp only [World.exec, World.openRedemption, bind_eq_ok, load_eq_ok,
        pure_eq_ok] at h
      obtain ⟨c, -, rh, -, r, -, out, -, heq⟩ := h
      subst heq
      exact .nil _
  | redeem redemption cap coin =>
      simp only [World.exec, World.redeem, bind_eq_ok, load_eq_ok,
        pure_eq_ok] at h
      obtain ⟨r, -, c, -, k, -, _, -, out, -, heq⟩ := h
      subst heq
      exact .nil _

-- ================================================================ frames

/-- Claims are frozen: no step changes or removes one. -/
theorem Mining.Step.claims_kept {ev : MiningEvent}
    (hs : Mining.Step H ctx m ev m') {i : ID} {c : ClaimObject}
    (hi : m.claims.get i = some c) : m'.claims.get i = some c := by
  cases hs with
  | share h =>
      simp only [Mining.recordShare]
      split
      case h_1 => exact hi
      case h_2 => exact ObjStore.get_alloc_of_some _ hi
  | quiet | createRoundStats | closeRoundStats | createDedup | dropHashes
  | deleteDedup | clearReceipts | mint | openAccumulator | skip | count
  | finalize | consume => exact hi

/-- So are templates. -/
theorem Mining.Step.templates_kept {ev : MiningEvent}
    (hs : Mining.Step H ctx m ev m') :
    (∀ i t, m.templates.get i = some t → m'.templates.get i = some t)
      ∧ ∀ i d, m.derived.get i = some d → m'.derived.get i = some d := by
  cases hs with
  | quiet h => exact ⟨h.templates_kept, h.derived_kept⟩
  | share | createRoundStats | closeRoundStats | createDedup | dropHashes
  | deleteDedup | clearReceipts | mint | openAccumulator | skip | count
  | finalize | consume => exact ⟨fun _ _ ht => ht, fun _ _ hd => hd⟩

/-- A share that was there stays, up to its mints. -/
theorem Mining.Step.share_kept {ev : MiningEvent}
    (hs : Mining.Step H ctx m ev m') {i : ID} {e : ShareEntry}
    (hi : m.shares.get i = some e) :
    ∃ n, m'.shares.get i = some { e with mints := n } ∧ e.mints ≤ n := by
  cases hs with
  | share h =>
      exact ⟨e.mints, ObjStore.get_alloc_of_some _ hi, Nat.le_refl _⟩
  | @mint rid sid r mrs mrs' hr hsid hok =>
      simp only [Mining.recordMint]
      split
      case h_1 => exact ⟨e.mints, hi, Nat.le_refl _⟩
      case h_2 e₀ he₀ =>
        by_cases heq : i = r.share
        · subst heq
          rw [hi] at he₀
          cases he₀
          exact ⟨e.mints + 1, ObjStore.get_put_self _ hi, Nat.le_succ _⟩
        · exact ⟨e.mints, (ObjStore.get_put_ne _ heq).trans hi,
            Nat.le_refl _⟩
  | quiet | createRoundStats | closeRoundStats | createDedup | dropHashes
  | deleteDedup | clearReceipts | openAccumulator | skip | count | finalize
  | consume => exact ⟨e.mints, hi, Nat.le_refl _⟩

/-- A share after a step was there, up to its mints, or is the one the
step accepted. -/
theorem Mining.Step.share_from {ev : MiningEvent}
    (hs : Mining.Step H ctx m ev m') {i : ID} {e : ShareEntry}
    (hi : m'.shares.get i = some e) :
    (∃ e₀, m.shares.get i = some e₀ ∧ e = { e₀ with mints := e.mints }
        ∧ (e₀.mints = e.mints ∨ ∃ rid r, ev = .mint rid
          ∧ m.receipts.get rid = some r ∧ r.share = i))
      ∨ ∃ mined ids sub payment job o out receipts,
        ev = .share mined ids sub
          ∧ m.Shared H ctx mined ids sub payment job o out receipts
          ∧ i = m.shares.next
          ∧ e = { mined, miner := out.objects.round.miner,
                  roundId := out.objects.round.roundId, height := job.height,
                  shareHash := out.share.shareHash,
                  difficulty := out.share.difficulty, payment,
                  mints := 0 } := by
  cases hs with
  | @share mined ids sub payment job o out receipts h =>
      rcases ObjStore.get_alloc_eq_some hi with ⟨hnext, rfl⟩ | hi
      · exact .inr ⟨mined, ids, sub, payment, job, o, out, receipts, rfl, h,
          hnext, rfl⟩
      · exact .inl ⟨e, hi, rfl, .inl rfl⟩
  | @mint rid sid r mrs mrs' hr hsid hok =>
      refine .inl ?_
      simp only [Mining.recordMint] at hi
      split at hi
      case h_1 => exact ⟨e, hi, rfl, .inl rfl⟩
      case h_2 e₀ he₀ =>
        rcases ObjStore.get_put_eq_some hi with ⟨hshare, rfl, -⟩ | ⟨-, hi⟩
        · exact ⟨e₀, hshare ▸ he₀, rfl, .inr ⟨rid, r, rfl, hr, hshare.symm⟩⟩
        · exact ⟨e, hi, rfl, .inl rfl⟩
  | quiet | createRoundStats | closeRoundStats | createDedup | dropHashes
  | deleteDedup | clearReceipts | openAccumulator | skip | count | finalize
  | consume => exact .inl ⟨e, hi, rfl, .inl rfl⟩

-- Over a whole call.

section
variable {w w' : World} {c : Call} (h : w.exec H c = .ok w')
include h

theorem World.exec_claims_kept {i : ID} {c : ClaimObject}
    (hi : w.mining.claims.get i = some c) :
    w'.mining.claims.get i = some c :=
  (World.exec_mining h).preserves
    (P := fun m => m.claims.get i = some c)
    (fun _ _ _ hi hs => hs.claims_kept hi) hi

theorem World.exec_templates_kept :
    (∀ i t, w.mining.templates.get i = some t →
        w'.mining.templates.get i = some t)
      ∧ ∀ i d, w.mining.derived.get i = some d →
          w'.mining.derived.get i = some d := by
  refine (World.exec_mining h).preserves
    (P := fun m => (∀ i t, w.mining.templates.get i = some t →
        m.templates.get i = some t)
      ∧ ∀ i d, w.mining.derived.get i = some d → m.derived.get i = some d)
    ?_ ⟨fun _ _ ht => ht, fun _ _ hd => hd⟩
  rintro m ev m' ⟨ht, hd⟩ hs
  exact ⟨fun i t hi => hs.templates_kept.1 i t (ht i t hi),
    fun i d hi => hs.templates_kept.2 i d (hd i d hi)⟩

theorem World.exec_share_kept {i : ID} {e : ShareEntry}
    (hi : w.mining.shares.get i = some e) :
    ∃ n, w'.mining.shares.get i = some { e with mints := n } := by
  refine (World.exec_mining h).preserves
    (P := fun m => ∃ n, m.shares.get i = some { e with mints := n })
    ?_ ⟨e.mints, hi⟩
  rintro m ev m' ⟨n, hn⟩ hs
  obtain ⟨n', hn', -⟩ := hs.share_kept hn
  exact ⟨n', hn'⟩

end

-- ========================================================= the run rule

/-- A condition on events, asked of all the events of a call. -/
def Call.meets (cond : Mining → MiningEvent → Prop) (w : World) (c : Call) :
    Prop :=
  ∀ ev ∈ c.events, cond w.mining ev

/-- The condition, tested on all the events of a call. -/
def Call.passes (test : Mining → MiningEvent → Bool) (w : World) (c : Call) :
    Bool :=
  c.events.all (test w.mining)

theorem Call.meets_of_passes {cond : Mining → MiningEvent → Prop}
    {test : Mining → MiningEvent → Bool}
    (h : ∀ m ev, test m ev = true → cond m ev) (w : World) (c : Call)
    (hc : Call.passes test w c = true) : Call.meets cond w c := by
  intro ev hev
  exact h _ _ (List.all_eq_true.mp hc ev hev)

/-- An invariant of the mining side, kept by every step whose event meets
`C`, holds in every state reached by calls that meet it. `hkeep` is
asked because later passes of one `accumulate_miner_stats` start from a
state the earlier ones have changed. -/
theorem mining_invariant {publisher : Address}
    {C : Mining → MiningEvent → Prop} {I : Mining → Prop}
    (hinit : I (Mining.init publisher))
    (hstep : ∀ ctx m ev m', I m → C m ev →
      Mining.Step H ctx m ev m' → I m')
    (hkeep : ∀ ctx m m' acc sid acc' sid', C m (.accumulate acc' sid') →
      Mining.Step H ctx m (.accumulate acc sid) m' →
      C m' (.accumulate acc' sid'))
    {w : World}
    (h : Machine.ReachVia (contract H publisher) (Call.meets C) w) :
    I w.mining := by
  refine Machine.ReachVia.invariant (I := fun w => I w.mining) hinit ?_ h
  intro w c w' hinv hok hs
  have htrace := World.exec_mining hs
  -- A call has one event, or accumulation passes only.
  have hone : ∀ ev, c.events = [ev] → I w'.mining := by
    intro ev hev
    rw [hev] at htrace
    exact hstep _ _ _ _ hinv (hok ev (by simp [hev])) htrace.of_single
  by_cases hacc : ∃ acc sids, c = .mining (.accumulateMinerStats acc sids)
  · obtain ⟨acc, sids, rfl⟩ := hacc
    refine Trace.invariant (P := fun m evs => I m ∧ ∀ ev ∈ evs,
      C m ev ∧ ∃ sid, ev = .accumulate acc sid) ?_ htrace
      ⟨hinv, fun ev hev => ⟨hok ev hev, ?_⟩⟩ |>.1
    · rintro m ev evs m' ⟨hm, hall⟩ hR
      obtain ⟨hcond, sid, rfl⟩ := hall ev (List.mem_cons_self ..)
      refine ⟨hstep _ _ _ _ hm hcond hR, fun ev' hev' => ?_⟩
      obtain ⟨hcond', sid', rfl⟩ := hall ev' (List.mem_cons_of_mem _ hev')
      exact ⟨hkeep _ _ _ _ _ _ _ hcond' hR, sid', rfl⟩
    · obtain ⟨sid, -, rfl⟩ := List.mem_map.mp hev
      exact ⟨sid, rfl⟩
  · have hcase : c.events = [] ∨ ∃ ev, c.events = [ev] := by
      cases c with
      | mining c =>
          cases c with
          | accumulateMinerStats acc sids => exact absurd ⟨_, _, rfl⟩ hacc
          | _ => exact .inr ⟨_, rfl⟩
      | pay c => cases c <;> exact .inr ⟨_, rfl⟩
      | beginTx | admin | mintShare | claimReward => exact .inr ⟨_, rfl⟩
      | _ => exact .inl rfl
    rcases hcase with hnil | ⟨ev, hev⟩
    · rw [hnil] at htrace
      rw [htrace.eq_of_nil]
      exact hinv
    · exact hone ev hev

/-- The rule for an invariant that needs no condition. -/
theorem mining_invariant_always {publisher : Address} {I : Mining → Prop}
    (hinit : I (Mining.init publisher))
    (hstep : ∀ ctx m ev m', I m → Mining.Step H ctx m ev m' → I m')
    {w : World} (h : Machine.Reach (contract H publisher) w) :
    I w.mining :=
  mining_invariant (C := fun _ _ => True) hinit
    (fun ctx m ev m' hm _ hs => hstep ctx m ev m' hm hs)
    (fun _ _ _ _ _ _ _ _ _ => trivial)
    (h.mono fun _ _ _ _ _ => trivial)

end M1n3Protocol
