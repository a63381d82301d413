/-
Which block rewards can still be recorded: the way from a claim to a
funded deposit.

While the entry of its round is open to a reward, the `PoolAdminCap`
holder can finish the job alone: close the round, record the block, take
the deposit through Hashi's statuses, collect the coins and open the
batch. Each stretch of the way is a lemma that ends in a state the next
one starts from; `World.Room` is what they need of counters and clock.
The first two stretches are on the mining side and the rest on the hBTC
side alone, where `World.HashiLeads` moves.
-/
import M1n3Protocol.Proofs.LifeCycle
import M1n3Protocol.Proofs.DepositIndex

namespace M1n3Protocol

open Checked

variable {H : HashFn} {publisher : Address}

-- ======================================================= rounds and clock

/-- No template and no claim is of a round that has not begun. -/
structure RoundsBegun (m : Mining) : Prop where
  templates : m.templates.All fun t =>
    t.template.roundId ≤ m.pool.currentRound
  claims : m.claims.All fun c => c.claim.roundId ≤ m.pool.currentRound

section
variable {ctx : TxContext} {m m' : Mining}

theorem RoundsBegun.later (h : RoundsBegun m)
    (htemplates : m'.templates = m.templates) (hclaims : m'.claims = m.claims)
    (hround : m.pool.currentRound ≤ m'.pool.currentRound) :
    RoundsBegun m' := by
  constructor
  · rw [htemplates]
    exact h.templates.imp fun _ ht => BitVec.le_trans ht hround
  · rw [hclaims]
    exact h.claims.imp fun _ hc => BitVec.le_trans hc hround

theorem RoundsBegun.share (h : RoundsBegun m) {mined : TemplateRef}
    {ids : ShareIds} {sub : Submission} {payment : Option Payment}
    {job : Job} {o : MinerObjects} {out : ShareOutcome}
    {receipts : ObjStore ReceiptObject}
    (hs : m.Shared H ctx mined ids sub payment job o out receipts) :
    RoundsBegun { m.recordShare ids mined job.height payment out with
      receipts } := by
  have hround : mined.claimRound job ≤ m.pool.currentRound := by
    cases mined with
    | direct id =>
        have hjob := hs.job_eq
        simp only [Mining.job, Option.map_eq_some_iff] at hjob
        obtain ⟨t, ht, rfl⟩ := hjob
        exact h.templates id t ht
    | derived id => exact BitVec.le_def.mpr (Nat.zero_le _)
  refine ⟨h.templates, ?_⟩
  cases hclaim : out.claim with
  | none =>
      simp only [Mining.recordShare, hclaim]
      exact h.claims
  | some claim =>
      simp only [Mining.recordShare, hclaim]
      apply h.claims.alloc
      have hfreeze := hs.claim_eq
      rw [hclaim] at hfreeze
      unfold maybeFreezeBlockClaim at hfreeze
      split at hfreeze
      · cases hfreeze
        exact hround
      · cases hfreeze

theorem RoundsBegun.step {ev : MiningEvent} (h : RoundsBegun m)
    (hs : Mining.Step H ctx m ev m') : RoundsBegun m' := by
  have hsame := BitVec.le_refl m.pool.currentRound
  cases hs with
  | quiet hq =>
      refine ⟨fun i t hi => ?_, fun i c hi => ?_⟩
      · rw [hq.round]
        rcases hq.templates_new i t hi with hold | ⟨args, pool', hok⟩
        · exact h.templates i t hold
        · obtain ⟨-, -, -, hround, -⟩ := registerTemplateInner_ok hok
          rw [hround]
          exact hsame
      · rw [hq.round]
        exact h.claims i c hi
  | share hs => exact h.share hs
  | finalize hacc hok =>
      obtain ⟨-, -, hround, -⟩ := finalizeRound_ok hok
      refine h.later rfl rfl ?_
      rw [BitVec.le_def, hround]
      exact Nat.le_succ _
  | createRoundStats | closeRoundStats | createDedup | dropHashes
  | deleteDedup | clearReceipts | mint | openAccumulator | skip | count
  | consume => exact h.later rfl rfl hsame

theorem Mining.Step.created {ev : MiningEvent}
    (hs : Mining.Step H ctx m ev m')
    (h : m.accumulators.All fun a => a.createdAtMs ≤ ctx.timestampMs) :
    m'.accumulators.All fun a => a.createdAtMs ≤ ctx.timestampMs := by
  cases hs with
  | openAccumulator hget hround hclosed hacc =>
      subst hacc
      exact h.alloc (BitVec.le_refl _)
  | skip hacc => exact h.put (h _ _ hacc)
  | count hacc hs hmine heq hround hwork hcreated =>
      apply h.put
      rw [hcreated]
      exact h _ _ hacc
  | finalize hacc hok => exact h.erase
  | quiet | createRoundStats | closeRoundStats | createDedup | dropHashes
  | deleteDedup | share | clearReceipts | mint | consume => exact h

end

theorem roundsBegun_of_reach {w : World}
    (h : Machine.Reach (contract H publisher) w) : RoundsBegun w.mining :=
  mining_invariant_always ⟨.empty, .empty⟩ (fun _ _ _ _ hb hs => hb.step hs) h

theorem World.exec_clock {w w' : World} {c : Call}
    (hs : w.exec H c = .ok w') : w.ctx.timestampMs ≤ w'.ctx.timestampMs := by
  rcases World.exec_hashi hs with ⟨-, hstep⟩ | ⟨-, -, hclock⟩
  · cases hstep <;> exact BitVec.le_refl _
  · exact hclock

/-- Every accumulator was opened at some time up to now. -/
theorem created_of_reach {w : World}
    (h : Machine.Reach (contract H publisher) w) :
    w.mining.accumulators.All fun a =>
      a.createdAtMs ≤ w.ctx.timestampMs := by
  refine Machine.ReachVia.invariant (I := fun w => w.mining.accumulators.All
    fun a => a.createdAtMs ≤ w.ctx.timestampMs) .empty ?_ h
  intro w c w' hw _ hs
  have hkept := (World.exec_mining hs).preserves
    (P := fun m => m.accumulators.All fun a =>
      a.createdAtMs ≤ w.ctx.timestampMs)
    (fun _ _ _ hm hstep => hstep.created hm) hw
  exact hkept.imp fun _ ha => BitVec.le_trans ha (World.exec_clock hs)

-- ======================================================= closing the round

/-- What the way to a funded deposit needs of counters and clock. -/
structure World.Room (w : World) (c : HashiPoolConfig) (amount : U64) :
    Prop where
  clock : w.ctx.timestampMs.toNat + Const.accumulationWindowMs.toNat
    + Const.trustlessClaimWindowMs.toNat < 2 ^ 64
  rounds : w.mining.pool.currentRound.toNat + 1 < 2 ^ 64
  shares : w.mining.accumulators.All fun a =>
    w.mining.pool.totalShares.toNat + a.totalShares.toNat < 2 ^ 64
  deposits : c.totalDeposits.toNat + 1 < 2 ^ 64
  sats : c.totalSatsConfirmed.toNat + amount.toNat < 2 ^ 128
  withdrawn : w.hashi.vault.totalWithdrawnHbtc.toNat + amount.toNat < 2 ^ 64
  batches : w.hashi.rewards.totalBatches.toNat + 1 < 2 ^ 64

/-- The round of the claim is closed, and the cap holder is the one
calling. -/
structure World.Closed (w : World) (k : ID) (claim : ClaimObject) : Prop where
  by_cap : w.ctx.sender = w.capHolder
  clock : w.ctx.timestampMs.toNat + Const.trustlessClaimWindowMs.toNat
    < 2 ^ 64
  claimed : w.mining.claims.get k = some claim
  history : ∃ j rh, w.mining.histories.get j = some rh
    ∧ rh.roundId = claim.claim.roundId

theorem leads_begun (w : World) {now : U64} (hnow : w.ctx.timestampMs ≤ now) :
    (contract H publisher).Leads w { w with
      ctx := ⟨w.capHolder, w.ctx.epoch, now⟩
      mining := { w.mining with receipts := .empty } } := by
  refine .call (.beginTx w.capHolder w.ctx.epoch now) ?_
  exact bind_eq_ok.mpr
    ⟨(), require_eq_ok.mpr ⟨BitVec.le_refl _, hnow⟩, rfl⟩

/-- In the current round there is an accumulator, or the claim opens
one. -/
theorem leads_opened {w : World} (h : Machine.Reach (contract H publisher) w)
    {k : ID} {claim : ClaimObject}
    (hclaim : w.mining.claims.get k = some claim)
    (hround : claim.claim.roundId = w.mining.pool.currentRound)
    (hshares : w.mining.accumulators.All fun a =>
      w.mining.pool.totalShares.toNat + a.totalShares.toNat < 2 ^ 64) :
    ∃ w', (contract H publisher).Leads w w' ∧ w'.hashi = w.hashi
      ∧ w'.ctx = w.ctx ∧ w'.mining.claims = w.mining.claims
      ∧ w'.mining.pool.currentRound = w.mining.pool.currentRound
      ∧ ∃ j a, w'.mining.accumulators.get j = some a
        ∧ w'.mining.pool.totalShares.toNat + a.totalShares.toNat
          < 2 ^ 64 := by
  by_cases hopen : w.mining.pool.accumulatorOpen = true
  · obtain ⟨j, a, ha⟩ := (roundBooks_of_reach h).acc_open.mp hopen
    exact ⟨w, .refl w, rfl, rfl, rfl, rfl, j, a, ha, hshares j a ha⟩
  · have hok : openRoundAccumulatorFromClaim w.mining.pool claim.claim w.ctx
        = .ok ({ w.mining.pool with accumulatorOpen := true },
          some { roundId := w.mining.pool.currentRound, totalWork := 0,
                 totalShares := 0, createdAtMs := w.ctx.timestampMs,
                 blockFinder := claim.claim.blockFinder,
                 blockFoundHeight := claim.claim.height }) := by
      refine bind_eq_ok.mpr ⟨(), require_eq_ok.mpr hround, ?_⟩
      rw [if_neg hopen]
      rfl
    refine ⟨_, .call (.mining (.openRoundAccumulatorFromClaim k))
      (bind_eq_ok.mpr ⟨_, bind_eq_ok.mpr ⟨claim, load_eq_ok.mpr hclaim,
        bind_eq_ok.mpr ⟨_, hok, rfl⟩⟩, rfl⟩),
      rfl, rfl, rfl, rfl, _, _, ObjStore.get_alloc_self .., ?_⟩
    exact w.mining.pool.totalShares.isLt

/-- From anywhere with room left, the claim's round can be closed. -/
theorem leads_closed {w : World} (h : Machine.Reach (contract H publisher) w)
    {k : ID} {claim : ClaimObject}
    (hclaim : w.mining.claims.get k = some claim) {c : HashiPoolConfig}
    {amount : U64} (hroom : w.Room c amount) :
    ∃ w', (contract H publisher).Leads w w' ∧ w'.hashi = w.hashi
      ∧ w'.Closed k claim := by
  have hclock := hroom.clock
  have hle : claim.claim.roundId ≤ w.mining.pool.currentRound :=
    (roundsBegun_of_reach h).claims k claim hclaim
  by_cases hpast : claim.claim.roundId < w.mining.pool.currentRound
  · obtain ⟨j, rh, hj, hround⟩ := (roundBooks_of_reach h).history_all _ hpast
    refine ⟨_, leads_begun w (BitVec.le_refl _), rfl, rfl, ?_, hclaim,
      j, rh, hj, hround⟩
    dsimp only
    omega
  · have hcurrent : claim.claim.roundId = w.mining.pool.currentRound := by
      rw [BitVec.lt_def] at hpast
      rw [BitVec.le_def] at hle
      exact BitVec.eq_of_toNat_eq (by omega)
    obtain ⟨w₁, hleads, hhashi, hctx, hclaims, hsame, j, a, ha, hshares⟩ :=
      leads_opened h hclaim hcurrent hroom.shares
    have h₁ := h.leads hleads
    -- The cap holder comes back when the window is over.
    obtain ⟨now, -, hnow⟩ := add_of_lt Abort.arithmetic
      (a := w₁.ctx.timestampMs) (b := Const.accumulationWindowMs)
      (by rw [hctx]; omega)
    have hcreated : a.createdAtMs ≤ w₁.ctx.timestampMs :=
      created_of_reach h₁ j a ha
    have haround := (roundBooks_of_reach h₁).acc_round j a ha
    have hrounds := hroom.rounds
    have hfinal : ∃ out, finalizeRound w₁.mining.pool a
        ⟨w₁.capHolder, w₁.ctx.epoch, now⟩ = .ok out := by
      refine finalizeRound_of_due haround ?_ ?_ ?_ hshares
      · rw [BitVec.le_def] at hcreated
        dsimp only
        omega
      · rw [hsame]
        exact hrounds
      · rw [(cycleBooks_of_reach h₁).blocks, hsame]
        exact hrounds
    obtain ⟨⟨pool', rh⟩, hok⟩ := hfinal
    have hlater : w₁.ctx.timestampMs ≤ now := by
      rw [BitVec.le_def]
      omega
    obtain ⟨-, -, -, -, -, hrh, -⟩ := finalizeRound_ok hok
    refine ⟨_, hleads.trans ((leads_begun w₁ hlater).trans
      (.call (.mining (.finalizeRound j))
        (bind_eq_ok.mpr ⟨_, bind_eq_ok.mpr ⟨a, load_eq_ok.mpr ha,
          bind_eq_ok.mpr ⟨_, hok, rfl⟩⟩, rfl⟩))), hhashi, rfl, ?_, ?_,
      _, rh, ObjStore.get_alloc_self .., ?_⟩
    · dsimp only
      rw [hnow, hctx]
      exact hclock
    · dsimp only
      rw [hclaims]
      exact hclaim
    · rw [hrh, haround, hsame, hcurrent]

-- ================================================ recording and confirming

/-- What calls on the hBTC side alone can make of it, in one
transaction. -/
def World.HashiLeads (H : HashFn) (publisher : Address) (w : World)
    (h h' : Hashi) : Prop :=
  (contract H publisher).Leads { w with hashi := h } { w with hashi := h' }

section
variable {w : World} {h h' : Hashi}

theorem World.HashiLeads.refl : w.HashiLeads H publisher h h :=
  Machine.Leads.refl _

theorem World.HashiLeads.trans {h'' : Hashi}
    (hleads : w.HashiLeads H publisher h h')
    (hleads' : w.HashiLeads H publisher h' h'') :
    w.HashiLeads H publisher h h'' :=
  Machine.Leads.trans hleads hleads'

theorem World.HashiLeads.admin {c : HashiAdminCall}
    (hcap : w.ctx.sender = w.capHolder)
    (hok : h.execAdmin w.ctx c = .ok h') : w.HashiLeads H publisher h h' :=
  .call (.hashiAdmin c)
    (bind_eq_ok.mpr ⟨(), require_eq_ok.mpr hcap, bind_eq_ok.mpr ⟨_, hok, rfl⟩⟩)

theorem World.HashiLeads.hashi {c : HashiCall}
    (hok : h.exec w.ctx c = .ok h') : w.HashiLeads H publisher h h' :=
  .call (.hashi c) (bind_eq_ok.mpr ⟨_, hok, rfl⟩)

def Hashi.marked (h : Hashi) (i : ID) (r : RecordObject)
    (status : DepositStatus) : Hashi :=
  { h with
    records := h.records.put i { r with record := { r.record with status } } }

variable {i : ID} {r : RecordObject}

theorem leads_registered (hcap : w.ctx.sender = w.capHolder)
    (hget : h.records.get i = some r)
    (hs : r.record.status = .unregistered) :
    w.HashiLeads H publisher h (h.marked i r .registered) := by
  have hok : registerWithHashi r.record
      = .ok { r.record with status := .registered } :=
    bind_eq_ok.mpr ⟨(), require_eq_ok.mpr hs, rfl⟩
  exact .admin (c := .registerWithHashi i) hcap
    (bind_eq_ok.mpr ⟨r, load_eq_ok.mpr hget, bind_eq_ok.mpr ⟨_, hok, rfl⟩⟩)

theorem leads_approved (hcap : w.ctx.sender = w.capHolder)
    (hget : h.records.get i = some r) (hs : r.record.status = .registered) :
    w.HashiLeads H publisher h (h.marked i r .approved) := by
  have hok : markHashiApproved r.record
      = .ok { r.record with status := .approved } :=
    bind_eq_ok.mpr ⟨(), require_eq_ok.mpr hs, rfl⟩
  exact .admin (c := .markHashiApproved i) hcap
    (bind_eq_ok.mpr ⟨r, load_eq_ok.mpr hget, bind_eq_ok.mpr ⟨_, hok, rfl⟩⟩)

/-- The record confirmed, vault and registry as they were. -/
structure Hashi.Confirmed (h : Hashi) (i : ID) (r : RecordObject)
    (h' : Hashi) : Prop where
  vault : h'.vault = h.vault
  rewards : h'.rewards = h.rewards
  record : ∃ t, h'.records.get i = some { r with record := { r.record with
    status := .confirmed, confirmedAtMs := t } }

/-- An approved record can be confirmed: what is pending is cleared
first. -/
theorem leads_confirmed_of_approved (hcap : w.ctx.sender = w.capHolder)
    {cid : ID} {c : HashiPoolConfig} (hc : h.configs.get cid = some c)
    (hget : h.records.get i = some r) (hs : r.record.status = .approved)
    (hroom : c.totalSatsConfirmed.toNat + r.record.amountSats.toNat
      < 2 ^ 128) :
    ∃ h', w.HashiLeads H publisher h h' ∧ h.Confirmed i r h' := by
  let cleared : Hashi := { h with
    configs := h.configs.put cid { c with pendingSats := 0 } }
  have hclear : w.HashiLeads H publisher h cleared := by
    refine .admin (c := .clearPendingSats cid c.pendingSats) hcap
      (bind_eq_ok.mpr ⟨c, load_eq_ok.mpr hc, ?_⟩)
    rw [clearPendingSats_all]
    rfl
  have hok : ∃ out, markHashiConfirmed { c with pendingSats := 0 } r.record
      w.ctx = .ok out := by
    refine markHashiConfirmed_of_approved hs hroom ?_
    show 0 + r.record.amountSats.toNat < 2 ^ 64
    rw [Nat.zero_add]
    exact r.record.amountSats.isLt
  obtain ⟨⟨c', r'⟩, hok⟩ := hok
  have hconfirm : w.HashiLeads H publisher cleared { cleared with
      configs := cleared.configs.put cid c'
      records := h.records.put i { r with record := r' } } :=
    .admin (c := .markHashiConfirmed cid i) hcap
      (bind_eq_ok.mpr ⟨_, load_eq_ok.mpr (ObjStore.get_put_self _ hc),
        bind_eq_ok.mpr ⟨r, load_eq_ok.mpr hget,
        bind_eq_ok.mpr ⟨_, hok, rfl⟩⟩⟩)
  obtain ⟨-, rfl, -⟩ := markHashiConfirmed_ok hok
  exact ⟨_, hclear.trans hconfirm, rfl, rfl, _,
    ObjStore.get_put_self _ hget⟩

/-- A record that has not failed can be confirmed. -/
theorem leads_confirmed (hcap : w.ctx.sender = w.capHolder) {cid : ID}
    {c : HashiPoolConfig} (hc : h.configs.get cid = some c)
    (hget : h.records.get i = some r) (hs : r.record.status ≠ .failed)
    (hroom : c.totalSatsConfirmed.toNat + r.record.amountSats.toNat
      < 2 ^ 128) :
    ∃ h', w.HashiLeads H publisher h h' ∧ h.Confirmed i r h' := by
  have hregistered : ∀ {h : Hashi} {r : RecordObject},
      h.configs.get cid = some c → h.records.get i = some r →
      r.record.status = .registered →
      c.totalSatsConfirmed.toNat + r.record.amountSats.toNat < 2 ^ 128 →
      ∃ h', w.HashiLeads H publisher h h' ∧ h.Confirmed i r h' := by
    intro h r hc hget hstatus hroom
    have hnext : (h.marked i r .approved).records.get i = some _ :=
      ObjStore.get_put_self _ hget
    obtain ⟨h', hleads, hconf⟩ :=
      leads_confirmed_of_approved (h := h.marked i r .approved) hcap hc hnext
        rfl hroom
    exact ⟨h', (leads_approved hcap hget hstatus).trans hleads, hconf.vault,
      hconf.rewards, hconf.record⟩
  cases hstatus : r.record.status with
  | unregistered =>
      have hnext : (h.marked i r .registered).records.get i = some _ :=
        ObjStore.get_put_self _ hget
      obtain ⟨h', hleads, hconf⟩ :=
        hregistered (h := h.marked i r .registered) hc hnext rfl hroom
      exact ⟨h', (leads_registered hcap hget hstatus).trans hleads,
        hconf.vault, hconf.rewards, hconf.record⟩
  | registered => exact hregistered hc hget hstatus hroom
  | approved => exact leads_confirmed_of_approved hcap hc hget hstatus hroom
  | confirmed =>
      refine ⟨h, .refl, rfl, rfl, r.record.confirmedAtMs, ?_⟩
      rw [hget, ← hstatus]
  | failed => exact absurd hstatus hs

/-- The vault can be brought to hold the amount. -/
theorem leads_collected {amount : U64}
    (hvault : h.vault.hbtc.toNat + h.vault.totalWithdrawnHbtc.toNat
      = h.vault.totalReceivedHbtc.toNat)
    (hroom : h.vault.totalWithdrawnHbtc.toNat + amount.toNat < 2 ^ 64) :
    ∃ h', w.HashiLeads H publisher h h' ∧ h'.records = h.records
      ∧ h'.rewards = h.rewards
      ∧ amount.toNat ≤ h'.vault.hbtc.toNat
      ∧ h'.vault.totalWithdrawnHbtc = h.vault.totalWithdrawnHbtc := by
  by_cases hheld : amount.toNat ≤ h.vault.hbtc.toNat
  · exact ⟨h, .refl, rfl, rfl, hheld, rfl⟩
  · obtain ⟨missing, -, hmissing⟩ := sub_of_le Abort.arithmetic
      (a := amount) (b := h.vault.hbtc) (by omega)
    obtain ⟨vault, hok⟩ := depositHbtc_of_lt (v := h.vault) (a := missing)
      (by have := amount.isLt; omega) (by omega)
    obtain ⟨hhbtc, -, hwithdrawn⟩ := depositHbtc_ok hok
    have hsent : w.HashiLeads H publisher h
        { h with inbox := h.inbox.alloc missing } :=
      .hashi (c := .transferCoin missing) rfl
    refine ⟨_, hsent.trans
      (.hashi (c := .receiveHbtc h.inbox.next)
        (bind_eq_ok.mpr ⟨missing,
          load_eq_ok.mpr (ObjStore.get_alloc_self ..),
          bind_eq_ok.mpr ⟨vault, hok, rfl⟩⟩)), rfl, rfl, ?_, hwithdrawn⟩
    dsimp only
    omega

end

/-- The round has a record that is the reward's own and has not failed. -/
structure Hashi.Recorded (h : Hashi) (cid : ID) (round : U64)
    (b : BlockReward) (i : ID) (r : RecordObject) : Prop where
  get : h.records.get i = some r
  config : r.config = cid
  round_eq : r.record.roundId = round
  on : b.On r.record
  not_failed : r.record.status ≠ .failed

theorem leads_recorded {w : World} (hb : IndexBooks w.hashi) {k : ID}
    {claim : ClaimObject} (hclosed : w.Closed k claim) {cid : ID}
    {c : HashiPoolConfig} (hc : w.hashi.configs.get cid = some c)
    {b : BlockReward} (hopen : w.hashi.OpenTo c claim.claim.roundId b)
    (hdeposits : c.totalDeposits.toNat + 1 < 2 ^ 64) :
    ∃ h c' i r, w.HashiLeads H publisher w.hashi h
      ∧ h.vault = w.hashi.vault ∧ h.rewards = w.hashi.rewards
      ∧ h.configs.get cid = some c'
      ∧ c'.totalSatsConfirmed = c.totalSatsConfirmed
      ∧ h.Recorded cid claim.claim.roundId b i r := by
  cases hentry : c.depositIndex claim.claim.roundId with
  | some i =>
      obtain ⟨r, hr, hon, hstatus⟩ := hopen i hentry
      obtain ⟨q, hq, hconfig, hround⟩ := hb cid c _ i hc hentry
      cases hr.symm.trans hq
      exact ⟨w.hashi, c, i, r, .refl, rfl, rfl, hc, rfl, hr, hconfig, hround,
        hon, hstatus⟩
  | none =>
      have hrecord : ∃ out, recordBlockFound c claim.claim b.txid b.vout
          b.amountSats w.hashi.records.next w.ctx = .ok out :=
        recordBlockFound_of_free b.txid_length hentry hdeposits
      obtain ⟨⟨c', r⟩, hok⟩ := hrecord
      obtain ⟨-, -, -, hconfirmed, -, hround, htxid, hvout, hamount, hstatus,
        -⟩ := recordBlockFound_ok hok
      have hleads : w.HashiLeads H publisher w.hashi { w.hashi with
          configs := w.hashi.configs.put cid c'
          records := w.hashi.records.alloc ⟨r, cid, k⟩ } :=
        .call (.recordBlockFound cid k b.txid b.vout b.amountSats)
          (bind_eq_ok.mpr ⟨c, load_eq_ok.mpr hc,
            bind_eq_ok.mpr ⟨claim, load_eq_ok.mpr hclosed.claimed,
            bind_eq_ok.mpr ⟨_, hok, rfl⟩⟩⟩)
      refine ⟨_, c', _, ⟨r, cid, k⟩, hleads, rfl, rfl,
        ObjStore.get_put_self _ hc, hconfirmed, ObjStore.get_alloc_self ..,
        rfl, hround, ⟨htxid, hvout, hamount⟩, ?_⟩
      dsimp only
      rw [hstatus]
      intro hfailed
      cases hfailed

/-- A confirmed record of the closed round that is not spent can be
spent on a batch. -/
theorem leads_funded {w : World} {h : Hashi} {k : ID} {claim : ClaimObject}
    (hclosed : w.Closed k claim) {i : ID} {r : RecordObject}
    (hget : h.records.get i = some r)
    (hround : r.record.roundId = claim.claim.roundId)
    (hconfirmed : r.record.status = .confirmed)
    (hunfunded : r.record.fundedBatchId = none)
    (hpos : 0 < r.record.amountSats)
    (hheld : r.record.amountSats.toNat ≤ h.vault.hbtc.toNat)
    (hwithdrawn : h.vault.totalWithdrawnHbtc.toNat
      + r.record.amountSats.toNat < 2 ^ 64)
    (hbatches : h.rewards.totalBatches.toNat + 1 < 2 ^ 64) :
    ∃ h' by', w.HashiLeads H publisher h h'
      ∧ h'.records.get i = some { r with record := { r.record with
          fundedBatchId := some by' } } := by
  obtain ⟨j, rh, hj, hrh⟩ := hclosed.history
  have hopen : ∃ out, openAndFundRoundBatch h.rewards h.vault rh r.record
      h.batches.next w.ctx = .ok out :=
    openAndFundRoundBatch_of_confirmed (hround.trans hrh.symm) hconfirmed
      hunfunded hpos hheld hwithdrawn hclosed.clock hbatches
  obtain ⟨out, hok⟩ := hopen
  have hleads : w.HashiLeads H publisher h { h with
      rewards := out.registry
      vault := out.vault
      records := h.records.put i { r with record := out.record }
      batches := h.batches.alloc out.batch } :=
    .call (.openAndFundRoundBatch j i)
      (bind_eq_ok.mpr ⟨rh, load_eq_ok.mpr hj,
        bind_eq_ok.mpr ⟨r, load_eq_ok.mpr hget,
        bind_eq_ok.mpr ⟨out, hok, rfl⟩⟩⟩)
  refine ⟨_, .batch h.batches.next, hleads, ?_⟩
  rw [← (openAndFundRoundBatch_ok hok).record_eq]
  exact ObjStore.get_put_self _ hget

/-- A recorded reward of a closed round can be paid. -/
theorem leads_paid_of_recorded {w : World} {h : Hashi} {k : ID}
    {claim : ClaimObject} (hclosed : w.Closed k claim)
    (hreach : Machine.Reach (contract H publisher) { w with hashi := h })
    {cid i : ID} {c : HashiPoolConfig} {r : RecordObject} {b : BlockReward}
    (hc : h.configs.get cid = some c)
    (hrec : h.Recorded cid claim.claim.roundId b i r)
    (hsats : c.totalSatsConfirmed.toNat + b.amountSats.toNat < 2 ^ 128)
    (hwithdrawn : h.vault.totalWithdrawnHbtc.toNat + b.amountSats.toNat
      < 2 ^ 64)
    (hbatches : h.rewards.totalBatches.toNat + 1 < 2 ^ 64) :
    ∃ h', w.HashiLeads H publisher h h'
      ∧ h'.Paid cid claim.claim.roundId b := by
  have hbooks : VaultBooks h := vaultBooks_of_reach hreach
  have hamount := hrec.on.2.2
  rw [← hamount] at hsats hwithdrawn
  by_cases hfunded : r.record.fundedBatchId.isSome = true
  · exact ⟨h, .refl, i, r, hrec.get, hrec.config, hrec.round_eq, hrec.on,
      hbooks.funded_confirmed i r hrec.get hfunded, hfunded⟩
  · have hunfunded : r.record.fundedBatchId = none := by simpa using hfunded
    obtain ⟨h₁, hleads₁, hconf⟩ := leads_confirmed (H := H) hclosed.by_cap hc
      hrec.get hrec.not_failed hsats
    obtain ⟨t, hget₁⟩ := hconf.record
    have hvault := hbooks.vault_eq
    rw [← hconf.vault] at hvault hwithdrawn
    obtain ⟨h₂, hleads₂, hrecords, hrewards, hheld, hwithdrawn₂⟩ :=
      leads_collected (H := H) hvault hwithdrawn
    rw [← hrecords] at hget₁
    rw [← hwithdrawn₂] at hwithdrawn
    rw [← hconf.rewards, ← hrewards] at hbatches
    obtain ⟨h₃, by', hleads₃, hget₃⟩ := leads_funded (H := H) hclosed hget₁
      hrec.round_eq rfl hunfunded (hamount ▸ b.amount_pos) hheld hwithdrawn
      hbatches
    exact ⟨h₃, hleads₁.trans (hleads₂.trans hleads₃), i, _, hget₃,
      hrec.config, hrec.round_eq, hrec.on, rfl, rfl⟩

/-- With room left, a reward its round is open to can be paid. -/
theorem leads_paid {w : World} (h : Machine.Reach (contract H publisher) w)
    {cid : ID} {c : HashiPoolConfig}
    (hc : w.hashi.configs.get cid = some c) {k : ID} {claim : ClaimObject}
    (hclaim : w.mining.claims.get k = some claim) {b : BlockReward}
    (hroom : w.Room c b.amountSats)
    (hopen : w.hashi.OpenTo c claim.claim.roundId b) :
    ∃ w', (contract H publisher).Leads w w'
      ∧ w'.hashi.Paid cid claim.claim.roundId b := by
  obtain ⟨w₁, hleads₁, hhashi, hclosed⟩ := leads_closed h hclaim hroom
  have hwithdrawn := hroom.withdrawn
  have hbatches := hroom.batches
  rw [← hhashi] at hc hopen hwithdrawn hbatches
  have hreach₁ := h.leads hleads₁
  obtain ⟨h₂, c', i, r, hleads₂, hvault, hrewards, hc', hsats, hrec⟩ :=
    leads_recorded (indexBooks_of_reach hreach₁) hclosed hc hopen
      hroom.deposits
  rw [← hvault] at hwithdrawn
  rw [← hrewards] at hbatches
  obtain ⟨h₃, hleads₃, hpaid⟩ := leads_paid_of_recorded hclosed
    (hreach₁.leads hleads₂) hc' hrec (hsats ▸ hroom.sats) hwithdrawn hbatches
  exact ⟨_, hleads₁.trans (hleads₂.trans hleads₃), hpaid⟩

-- ============================================================ the verdict

/-- Some continuation has the reward recorded, confirmed and funded. -/
def World.CanPay (H : HashFn) (publisher : Address) (w : World) (cid : ID)
    (round : U64) (b : BlockReward) : Prop :=
  ∃ w', (contract H publisher).Leads w w' ∧ w'.hashi.Paid cid round b

/-- While every call spares the entry of the claim's round, the block's
reward can be paid, given room. In any state it can be paid only if the
entry is open to it; and given room, it then can. -/
theorem reward_recordable {w : World}
    (h : Machine.Reach (contract H publisher) w) {cid : ID}
    {c : HashiPoolConfig} (hc : w.hashi.configs.get cid = some c) {k : ID}
    {claim : ClaimObject} (hclaim : w.mining.claims.get k = some claim)
    (b : BlockReward) :
    (Machine.ReachVia (contract H publisher)
          (Call.Spares cid claim.claim.roundId b) w →
        w.Room c b.amountSats →
        w.CanPay H publisher cid claim.claim.roundId b)
      ∧ (w.CanPay H publisher cid claim.claim.roundId b →
        w.hashi.OpenTo c claim.claim.roundId b)
      ∧ (w.Room c b.amountSats → w.hashi.OpenTo c claim.claim.roundId b →
        w.CanPay H publisher cid claim.claim.roundId b) := by
  refine ⟨fun hspared hroom => ?_, fun hcan => ?_, fun hroom hopen => ?_⟩
  · exact leads_paid h hc hclaim hroom (keptOpen_of_reach hspared c hc)
  · obtain ⟨w', hleads, hpaid⟩ := hcan
    exact openTo_of_leads_paid h hc hleads hpaid
  · exact leads_paid h hc hclaim hroom hopen

/-- The pool's config, a block found, and nothing else yet. -/
def claimedRound : List Call :=
  .hashiAdmin (.initializeConfig (leBytes 32 0)) :: closedRound.take 6

def reward125552 : BlockReward where
  txid := leBytes 32 1
  vout := 0
  amountSats := 5_000_000_000
  txid_length := rfl
  amount_pos := by decide

/-- The block just found can be paid for. -/
theorem reward_recordable_claimedRound :
    ∃ w claim, Machine.Reach (contract sha256 0) w
      ∧ w.mining.claims.get 0 = some claim
      ∧ w.CanPay sha256 0 0 claim.claim.roundId reward125552 := by
  have hrun : (contract sha256 0).endsIn claimedRound (fun w =>
      decide (w.ctx.timestampMs = 0 ∧ w.mining.pool.currentRound = 0
        ∧ w.mining.accumulators.next = 0
        ∧ w.hashi.vault.totalWithdrawnHbtc = 0
        ∧ w.hashi.rewards.totalBatches = 0)
      && (w.hashi.configs.get 0).any (fun c =>
        (w.mining.claims.get 0).any fun claim =>
          decide (c.totalDeposits = 0 ∧ c.totalSatsConfirmed = 0
            ∧ c.depositIndex claim.claim.roundId = none))) = true := by
    decide +kernel
  obtain ⟨w, hw, hcheck⟩ := Machine.reach_of_endsIn hrun
  rw [Bool.and_eq_true] at hcheck
  obtain ⟨hstate, hconfig⟩ := hcheck
  obtain ⟨hclock, hround, hacc, hwithdrawn, hbatches⟩ :=
    of_decide_eq_true hstate
  obtain ⟨c, hc, hconfig⟩ := (Option.any_eq_true ..).mp hconfig
  obtain ⟨claim, hclaim, hconfig⟩ := (Option.any_eq_true ..).mp hconfig
  obtain ⟨hdeposits, hsats, hfree⟩ := of_decide_eq_true hconfig
  have hroom : w.Room c reward125552.amountSats := by
    constructor
    case shares =>
      intro i a hi
      have hlt := ObjStore.lt_next hi
      rw [hacc] at hlt
      exact absurd hlt (Nat.not_lt_zero i)
    case clock => rw [hclock]; decide
    case rounds => rw [hround]; decide
    case deposits => rw [hdeposits]; decide
    case sats => rw [hsats]; decide
    case withdrawn => rw [hwithdrawn]; decide
    case batches => rw [hbatches]; decide
  refine ⟨w, claim, hw, hclaim,
    (reward_recordable hw hc hclaim reward125552).2.2 hroom ?_⟩
  intro i hi
  rw [hfree] at hi
  cases hi

/-- Somebody records the block first, with a transaction of his own. -/
def squattedRound : List Call :=
  claimedRound ++ [.beginTx 5 0 0, .recordBlockFound 0 0 (leBytes 32 7) 0 1]

/-- Then the pool's one config never has a record of the real reward,
whatever is done. -/
theorem reward_shut_out :
    ∃ w claim, Machine.Reach (contract sha256 0) w
      ∧ w.mining.claims.get 0 = some claim
      ∧ (∀ j c, w.hashi.configs.get j = some c → j = 0)
      ∧ ∀ w', (contract sha256 0).Leads w w' →
        (∀ j c, w'.hashi.configs.get j = some c → j = 0) →
        ∀ i r, w'.hashi.records.get i = some r →
          r.record.roundId = claim.claim.roundId →
          ¬ reward125552.On r.record := by
  have hrun : (contract sha256 0).endsIn squattedRound (fun w =>
      decide (w.hashi.configs.next = 1)
      && (w.hashi.configs.get 0).any (fun c =>
        (w.mining.claims.get 0).any fun claim =>
          (w.hashi.records.get 0).any fun r =>
            decide (c.depositIndex claim.claim.roundId = some 0
              ∧ r.record.txid = leBytes 32 7))) = true := by
    decide +kernel
  obtain ⟨w, hw, hcheck⟩ := Machine.reach_of_endsIn hrun
  rw [Bool.and_eq_true] at hcheck
  obtain ⟨hnext, hconfig⟩ := hcheck
  obtain ⟨c, hc, hconfig⟩ := (Option.any_eq_true ..).mp hconfig
  obtain ⟨claim, hclaim, hconfig⟩ := (Option.any_eq_true ..).mp hconfig
  obtain ⟨r₀, hr₀, hconfig⟩ := (Option.any_eq_true ..).mp hconfig
  obtain ⟨hentry, htxid⟩ := of_decide_eq_true hconfig
  refine ⟨w, claim, hw, hclaim, fun j d hj => ?_, ?_⟩
  · have hlt := ObjStore.lt_next hj
    rw [of_decide_eq_true hnext] at hlt
    omega
  · intro w' hleads hone i r hr hround hon
    obtain ⟨d, hd, hidx⟩ :=
      (pipelineBooks_of_reach (hw.leads hleads)).indexed i r hr
    obtain ⟨c', hc', hentry'⟩ := entry_onward hleads ⟨c, hc, hentry⟩
    rw [hone _ d hd, hc'] at hd
    cases hd
    rw [hround, hentry'] at hidx
    cases hidx
    obtain ⟨r', hr', honward⟩ := records_onward hleads hr₀
    cases hr.symm.trans hr'
    have htxid' := honward.txid.symm.trans hon.1
    rw [htxid] at htxid'
    exact absurd htxid' (by decide)

end M1n3Protocol
