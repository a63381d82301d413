/-
The index of the deposit records: one entry a round, for good.

# Why an entry decides

A config has at most one record a round, and the entry that points to it
is never changed (`World.HashiStep.entry_kept`). What the record says of
the reward never changes either, and a failed record stays failed. So the
first record of a round, whoever made it, is the only one there will be,
and a reward can be paid only where its round's entry is open to it
(`openTo_of_leads_paid`).

# What keeps it open

An entry closes in two ways: somebody records other values for the round,
or the reward's own record is marked as failed. `Call.Spares` excludes
them, and `keptOpen_of_reach` is the run under it.
-/
import M1n3Protocol.Proofs.Pipeline

namespace M1n3Protocol

open Checked

variable {H : HashFn} {publisher : Address}

-- =============================================================== the index

/-- Every index entry points to the round's record, made with that
config. -/
def IndexBooks (h : Hashi) : Prop :=
  ∀ cid c round i, h.configs.get cid = some c →
    c.depositIndex round = some i →
    ∃ r, h.records.get i = some r ∧ r.config = cid
      ∧ r.record.roundId = round

theorem IndexBooks.put_config {h : Hashi} (hb : IndexBooks h) {cid : ID}
    {c c' : HashiPoolConfig} (hc : h.configs.get cid = some c)
    (hindex : c'.depositIndex = c.depositIndex) :
    IndexBooks { h with configs := h.configs.put cid c' } := by
  intro did d round i hd hi
  rcases ObjStore.get_put_eq_some hd with ⟨rfl, rfl, -⟩ | ⟨-, hd⟩
  · exact hb did c round i hc (hindex ▸ hi)
  · exact hb did d round i hd hi

theorem IndexBooks.put_record {h : Hashi} (hb : IndexBooks h) {id : ID}
    {r : RecordObject} {r' : BlockDepositRecord}
    (hget : h.records.get id = some r)
    (hround : r'.roundId = r.record.roundId) :
    IndexBooks { h with
      records := h.records.put id { r with record := r' } } := by
  intro did d round i hd hi
  obtain ⟨q, hq, hconfig, hqround⟩ := hb did d round i hd hi
  by_cases h : i = id
  · subst h
    cases hget.symm.trans hq
    exact ⟨_, ObjStore.get_put_self _ hget, hconfig, hround.trans hqround⟩
  · exact ⟨q, by rw [ObjStore.get_put_ne _ h, hq], hconfig, hqround⟩

theorem IndexBooks.record {h : Hashi} (hb : IndexBooks h)
    {cid claimId : ID} {c c' : HashiPoolConfig} {claim : BlockFoundClaim}
    {txid : Bytes} {vout : U32} {amount : U64} {r : BlockDepositRecord}
    {ctx : TxContext} (hc : h.configs.get cid = some c)
    (hok : recordBlockFound c claim txid vout amount h.records.next ctx
      = .ok (c', r)) :
    IndexBooks { h with
      configs := h.configs.put cid c'
      records := h.records.alloc ⟨r, cid, claimId⟩ } := by
  obtain ⟨-, hindex, -, -, -, hround, -⟩ := recordBlockFound_ok hok
  have hold : ∀ did d round i, h.configs.get did = some d →
      d.depositIndex round = some i →
      ∃ q, (h.records.alloc ⟨r, cid, claimId⟩).get i = some q
        ∧ q.config = did ∧ q.record.roundId = round := by
    intro did d round i hd hi
    obtain ⟨q, hq, hconfig, hqround⟩ := hb did d round i hd hi
    exact ⟨q, ObjStore.get_alloc_of_some _ hq, hconfig, hqround⟩
  intro did d round i hd hi
  rcases ObjStore.get_put_eq_some hd with ⟨rfl, rfl, -⟩ | ⟨-, hd⟩
  · rw [hindex] at hi
    dsimp only at hi
    by_cases h : round = claim.roundId
    · rw [if_pos h] at hi
      cases hi
      exact ⟨_, ObjStore.get_alloc_self .., rfl, hround.trans h.symm⟩
    · rw [if_neg h] at hi
      exact hold did c round i hc hi
  · exact hold did d round i hd hi

theorem IndexBooks.step {w w' : World} {c : Call} (hb : IndexBooks w.hashi)
    (hs : World.HashiStep w c w') : IndexBooks w'.hashi := by
  cases hs with
  | @initializeConfig call addr config hok =>
      simp only [M1n3Protocol.initializeConfig, bind_eq_ok, require_eq_ok,
        pure_eq_ok] at hok
      obtain ⟨-, -, rfl⟩ := hok
      intro did d round i hd hi
      rcases ObjStore.get_alloc_eq_some hd with ⟨-, rfl⟩ | hd
      · cases hi
      · exact hb did d round i hd hi
  | config hget hkept => exact hb.put_config hget hkept.index
  | mark hget hm => exact hb.put_record hget hm.round
  | confirm hc hget hok =>
      obtain ⟨-, rfl, hindex, -⟩ := markHashiConfirmed_ok hok
      exact (hb.put_config hc hindex).put_record hget rfl
  | record hc hclaim hok => exact hb.record hc hok
  | openBatch hhist hget hok =>
      exact hb.put_record hget (by rw [hok.record_eq])
  | openRedemption hcap hhist hget hok =>
      exact hb.put_record hget (by rw [hok.record_eq])
  | credit | transferCoin | receive | collect | claim | recycleBatch
  | redeem | recycleRedemption => exact hb

theorem indexBooks_of_reach {w : World}
    (h : Machine.Reach (contract H publisher) w) : IndexBooks w.hashi :=
  hashi_invariant (fun _ _ _ _ hc => by cases hc)
    (fun _ _ _ hb hs => hb.step hs) h

/-- The config has an entry for the round, and it is this one. -/
def Hashi.HasEntry (h : Hashi) (cid : ID) (round : U64) (i : ID) : Prop :=
  ∃ c, h.configs.get cid = some c ∧ c.depositIndex round = some i

/-- An entry is never changed. -/
theorem World.HashiStep.entry_kept {w w' : World} {c : Call} {cid i : ID}
    {round : U64} (hs : World.HashiStep w c w')
    (h : w.hashi.HasEntry cid round i) : w'.hashi.HasEntry cid round i := by
  obtain ⟨c₀, hc₀, hentry⟩ := h
  have hput : ∀ {did : ID} {d d' : HashiPoolConfig},
      w.hashi.configs.get did = some d →
      (d.depositIndex round = some i → d'.depositIndex round = some i) →
      ∃ c₁, (w.hashi.configs.put did d').get cid = some c₁
        ∧ c₁.depositIndex round = some i := by
    intro did d d' hd hkept
    by_cases h : cid = did
    · subst h
      cases hd.symm.trans hc₀
      exact ⟨d', ObjStore.get_put_self _ hd, hkept hentry⟩
    · exact ⟨c₀, by rw [ObjStore.get_put_ne _ h, hc₀], hentry⟩
  cases hs with
  | initializeConfig => exact ⟨c₀, ObjStore.get_alloc_of_some _ hc₀, hentry⟩
  | config hget hkept => exact hput hget fun h => by rw [hkept.index, h]
  | confirm hc hget hok =>
      obtain ⟨-, -, hindex, -⟩ := markHashiConfirmed_ok hok
      exact hput hc fun h => by rw [hindex, h]
  | record hc hclaim hok =>
      obtain ⟨hfree, hindex, -⟩ := recordBlockFound_ok hok
      refine hput hc fun h => ?_
      rw [hindex]
      dsimp only
      rw [if_neg, h]
      intro heq
      rw [← heq, h] at hfree
      cases hfree
  | mark | openBatch | openRedemption | credit | transferCoin | receive
  | collect | claim | recycleBatch | redeem | recycleRedemption =>
      exact ⟨c₀, hc₀, hentry⟩

theorem entry_onward {w w' : World} {cid i : ID} {round : U64}
    (h : (contract H publisher).Leads w w')
    (hentry : w.hashi.HasEntry cid round i) :
    w'.hashi.HasEntry cid round i := by
  refine Machine.ReachVia.invariant
    (I := fun w' => w'.hashi.HasEntry cid round i) hentry ?_ h
  intro w₁ c w₂ hw _ hs
  rcases World.exec_hashi hs with ⟨-, hstep⟩ | ⟨-, hsame, -⟩
  · exact hstep.entry_kept hw
  · rw [hsame]
    exact hw

-- ============================================================== the reward

/-- The output of a block's coinbase that pays the pool. -/
structure BlockReward where
  txid : Bytes
  vout : U32
  amountSats : U64
  txid_length : txid.length = 32
  amount_pos : 0 < amountSats

def BlockReward.On (b : BlockReward) (r : BlockDepositRecord) : Prop :=
  r.txid = b.txid ∧ r.vout = b.vout ∧ r.amountSats = b.amountSats

/-- The reward has a record of its round, confirmed and funded. -/
def Hashi.Paid (h : Hashi) (cid : ID) (round : U64) (b : BlockReward) :
    Prop :=
  ∃ i r, h.records.get i = some r ∧ r.config = cid
    ∧ r.record.roundId = round ∧ b.On r.record
    ∧ r.record.status = .confirmed ∧ r.record.fundedBatchId.isSome = true

/-- The round's entry is free, or its record is the reward's own and has
not failed. -/
def Hashi.OpenTo (h : Hashi) (c : HashiPoolConfig) (round : U64)
    (b : BlockReward) : Prop :=
  ∀ i, c.depositIndex round = some i →
    ∃ r, h.records.get i = some r ∧ b.On r.record
      ∧ r.record.status ≠ .failed

theorem BlockReward.On.of_onward {b : BlockReward}
    {r r' : BlockDepositRecord} (h : Onward r r') :
    b.On r ↔ b.On r' := by
  unfold BlockReward.On
  rw [h.txid, h.vout, h.amount]

/-- A reward that is ever paid found its round's entry open to it. -/
theorem openTo_of_leads_paid {w w' : World}
    (h : Machine.Reach (contract H publisher) w) {cid : ID}
    {c : HashiPoolConfig} (hc : w.hashi.configs.get cid = some c)
    {round : U64} {b : BlockReward}
    (hleads : (contract H publisher).Leads w w')
    (hpaid : w'.hashi.Paid cid round b) : w.hashi.OpenTo c round b := by
  intro i hi
  obtain ⟨r, hr, -, -⟩ := indexBooks_of_reach h cid c round i hc hi
  obtain ⟨j, q, hq, hconfig, hround, hon, hstatus, -⟩ := hpaid
  -- The paid record is where the entry, which has not changed, points.
  obtain ⟨c', hc', hentry⟩ := entry_onward hleads ⟨c, hc, hi⟩
  obtain ⟨d, hd, hidx⟩ :=
    (pipelineBooks_of_reach (h.leads hleads)).indexed j q hq
  rw [hconfig, hc'] at hd
  cases hd
  rw [hround, hentry] at hidx
  cases hidx
  obtain ⟨q', hq', honward⟩ := records_onward hleads hr
  cases hq.symm.trans hq'
  refine ⟨r, hr, (BlockReward.On.of_onward honward).mpr hon, fun hfailed => ?_⟩
  rw [(honward.failed hfailed).1] at hstatus
  cases hstatus

-- ======================================================= keeping it open

/-- A call that makes a record of the round makes the reward's own, and
that one is not marked as failed. -/
def Call.Spares (cid : ID) (round : U64) (b : BlockReward) (w : World) :
    Call → Prop
  | .recordBlockFound config k txid vout amountSats =>
      config = cid → ∀ claim, w.mining.claims.get k = some claim →
        claim.claim.roundId = round →
        txid = b.txid ∧ vout = b.vout ∧ amountSats = b.amountSats
  | .hashiAdmin (.markHashiFailed i _) => ¬ w.hashi.HasEntry cid round i
  | _ => True

/-- A new entry is that of the record the call has just made. -/
theorem World.HashiStep.entry_from {w w' : World} {c : Call} {cid i : ID}
    {round : U64} (hs : World.HashiStep w c w')
    (h : w'.hashi.HasEntry cid round i) :
    w.hashi.HasEntry cid round i
      ∨ ∃ k claim txid vout amount r,
        c = .recordBlockFound cid k txid vout amount
        ∧ w.mining.claims.get k = some claim
        ∧ claim.claim.roundId = round
        ∧ w'.hashi.records.get i = some r
        ∧ r.record.txid = txid ∧ r.record.vout = vout
        ∧ r.record.amountSats = amount
        ∧ r.record.status = .unregistered := by
  obtain ⟨c₁, hc₁, hentry⟩ := h
  have hput : ∀ {did : ID} {d d' : HashiPoolConfig},
      w.hashi.configs.get did = some d → d'.depositIndex = d.depositIndex →
      (w.hashi.configs.put did d').get cid = some c₁ →
      w.hashi.HasEntry cid round i := by
    intro did d d' hd hsame hget
    rcases ObjStore.get_put_eq_some hget with ⟨rfl, rfl, -⟩ | ⟨-, hget⟩
    · exact ⟨d, hd, hsame ▸ hentry⟩
    · exact ⟨c₁, hget, hentry⟩
  cases hs with
  | initializeConfig hok =>
      simp only [M1n3Protocol.initializeConfig, bind_eq_ok, require_eq_ok,
        pure_eq_ok] at hok
      obtain ⟨-, -, rfl⟩ := hok
      rcases ObjStore.get_alloc_eq_some hc₁ with ⟨-, rfl⟩ | hget
      · cases hentry
      · exact .inl ⟨c₁, hget, hentry⟩
  | config hget hkept => exact .inl (hput hget hkept.index hc₁)
  | confirm hc hget hok =>
      obtain ⟨-, -, hindex, -⟩ := markHashiConfirmed_ok hok
      exact .inl (hput hc hindex hc₁)
  | record hc hclaim hok =>
      obtain ⟨-, hindex, -, -, -, -, htxid, hvout, hamount, hstatus, -⟩ :=
        recordBlockFound_ok hok
      rcases ObjStore.get_put_eq_some hc₁ with ⟨rfl, rfl, -⟩ | ⟨-, hget⟩
      · rw [hindex] at hentry
        dsimp only at hentry
        split at hentry
        · case isTrue hround =>
            cases hentry
            exact .inr ⟨_, _, _, _, _, _, rfl, hclaim, hround.symm,
              ObjStore.get_alloc_self .., htxid, hvout, hamount, hstatus⟩
        · exact .inl ⟨_, hc, hentry⟩
      · exact .inl ⟨c₁, hget, hentry⟩
  | mark | openBatch | openRedemption | credit | transferCoin | receive
  | collect | claim | recycleBatch | redeem | recycleRedemption =>
      exact .inl ⟨c₁, hc₁, hentry⟩

/-- Only an admin call makes a record a failed one. -/
theorem World.HashiStep.failed {w w' : World} {c : Call} {i : ID}
    {r' : RecordObject} (hs : World.HashiStep w c w')
    (hr' : w'.hashi.records.get i = some r')
    (hfailed : r'.record.status = .failed) :
    (∃ r, w.hashi.records.get i = some r ∧ r.record.status = .failed)
      ∨ ∃ a, c = .hashiAdmin a := by
  cases hs with
  | initializeConfig | config | mark | confirm => exact .inr ⟨_, rfl⟩
  | record hc hclaim hok =>
      obtain ⟨-, -, -, -, -, -, -, -, -, hstatus, -⟩ := recordBlockFound_ok hok
      rcases ObjStore.get_alloc_eq_some hr' with ⟨-, rfl⟩ | hget
      · cases hstatus.symm.trans hfailed
      · exact .inl ⟨r', hget, hfailed⟩
  | openBatch hhist hget hok =>
      rcases ObjStore.get_put_eq_some hr' with ⟨rfl, rfl, -⟩ | ⟨-, hget'⟩
      · dsimp only at hfailed
        rw [hok.record_eq] at hfailed
        exact .inl ⟨_, hget, hfailed⟩
      · exact .inl ⟨r', hget', hfailed⟩
  | openRedemption hcap hhist hget hok =>
      rcases ObjStore.get_put_eq_some hr' with ⟨rfl, rfl, -⟩ | ⟨-, hget'⟩
      · dsimp only at hfailed
        rw [hok.record_eq] at hfailed
        exact .inl ⟨_, hget, hfailed⟩
      · exact .inl ⟨r', hget', hfailed⟩
  | credit | transferCoin | receive | collect | claim | recycleBatch
  | redeem | recycleRedemption => exact .inl ⟨r', hr', hfailed⟩

/-- And of those only the mark itself. -/
theorem Hashi.execAdmin_failed {ctx : TxContext} {h h' : Hashi}
    {c : HashiAdminCall} {i : ID} {r' : RecordObject}
    (hs : h.execAdmin ctx c = .ok h') (hr' : h'.records.get i = some r')
    (hfailed : r'.record.status = .failed) :
    (∃ r, h.records.get i = some r ∧ r.record.status = .failed)
      ∨ ∃ reason, c = .markHashiFailed i reason := by
  have hput : ∀ {j : ID} {r : RecordObject} {record : BlockDepositRecord},
      (h.records.put j { r with record }).get i = some r' →
      record.status ≠ .failed →
      ∃ r, h.records.get i = some r ∧ r.record.status = .failed := by
    intro j r record hget hne
    rcases ObjStore.get_put_eq_some hget with ⟨-, rfl, -⟩ | ⟨-, hget⟩
    · exact absurd hfailed hne
    · exact ⟨r', hget, hfailed⟩
  cases c with
  | initializeConfig addr =>
      simp only [Hashi.execAdmin, bind_eq_ok, pure_eq_ok] at hs
      obtain ⟨_, -, rfl⟩ := hs
      exact .inl ⟨r', hr', hfailed⟩
  | updateBtcAddress id addr =>
      simp only [Hashi.execAdmin, bind_eq_ok, pure_eq_ok] at hs
      obtain ⟨_, -, _, -, rfl⟩ := hs
      exact .inl ⟨r', hr', hfailed⟩
  | clearPendingSats id amount =>
      simp only [Hashi.execAdmin, bind_eq_ok, pure_eq_ok] at hs
      obtain ⟨_, -, rfl⟩ := hs
      exact .inl ⟨r', hr', hfailed⟩
  | registerWithHashi j =>
      simp only [Hashi.execAdmin, M1n3Protocol.registerWithHashi, bind_eq_ok,
        require_eq_ok, pure_eq_ok] at hs
      obtain ⟨r, -, _, ⟨-, -, rfl⟩, rfl⟩ := hs
      exact .inl (hput hr' (by simp))
  | setHashiRequestId j req =>
      simp only [Hashi.execAdmin, M1n3Protocol.setHashiRequestId, bind_eq_ok,
        require_eq_ok, pure_eq_ok] at hs
      obtain ⟨r, -, _, ⟨-, hstatus, rfl⟩, rfl⟩ := hs
      exact .inl (hput hr' (by simp [hstatus]))
  | markHashiApproved j =>
      simp only [Hashi.execAdmin, M1n3Protocol.markHashiApproved, bind_eq_ok,
        require_eq_ok, pure_eq_ok] at hs
      obtain ⟨r, -, _, ⟨-, -, rfl⟩, rfl⟩ := hs
      exact .inl (hput hr' (by simp))
  | markHashiConfirmed cid j =>
      simp only [Hashi.execAdmin, bind_eq_ok, pure_eq_ok] at hs
      obtain ⟨_, -, r, -, ⟨c', record⟩, hok, rfl⟩ := hs
      obtain ⟨-, rfl, -⟩ := markHashiConfirmed_ok hok
      exact .inl (hput hr' (by simp))
  | markHashiFailed j reason =>
      simp only [Hashi.execAdmin, bind_eq_ok, pure_eq_ok] at hs
      obtain ⟨r, -, record, -, rfl⟩ := hs
      by_cases hij : i = j
      · exact .inr ⟨reason, by rw [hij]⟩
      · rw [ObjStore.get_put_ne _ hij] at hr'
        exact .inl ⟨r', hr', hfailed⟩

theorem World.exec_failed {w w' : World} {c : Call} {i : ID}
    {r' : RecordObject} (hs : w.exec H c = .ok w')
    (hr' : w'.hashi.records.get i = some r')
    (hfailed : r'.record.status = .failed) :
    (∃ r, w.hashi.records.get i = some r ∧ r.record.status = .failed)
      ∨ ∃ reason, c = .hashiAdmin (.markHashiFailed i reason) := by
  rcases World.exec_hashi hs with ⟨-, hstep⟩ | ⟨-, hsame, -⟩
  · rcases hstep.failed hr' hfailed with hold | ⟨a, rfl⟩
    · exact .inl hold
    · simp only [World.exec, bind_eq_ok, pure_eq_ok] at hs
      obtain ⟨_, -, h', hexec, rfl⟩ := hs
      rcases Hashi.execAdmin_failed hexec hr' hfailed with hold | ⟨reason, rfl⟩
      · exact .inl hold
      · exact .inr ⟨reason, rfl⟩
  · rw [hsame] at hr'
    exact .inl ⟨r', hr', hfailed⟩

/-- The state's config is open to the reward, if it is there. -/
def Hashi.KeptOpen (cid : ID) (round : U64) (b : BlockReward) (h : Hashi) :
    Prop :=
  ∀ c, h.configs.get cid = some c → h.OpenTo c round b

theorem Hashi.KeptOpen.step {w w' : World} {c : Call} {cid : ID}
    {round : U64} {b : BlockReward} (h : w.hashi.KeptOpen cid round b)
    (hspares : Call.Spares cid round b w c) (hs : w.exec H c = .ok w') :
    w'.hashi.KeptOpen cid round b := by
  intro c' hc' i hi
  -- An old entry keeps its record, which the call has not failed.
  have hold : w.hashi.HasEntry cid round i →
      ∃ r, w'.hashi.records.get i = some r ∧ b.On r.record
        ∧ r.record.status ≠ .failed := by
    intro hentry
    obtain ⟨c₀, hc₀, hidx⟩ := hentry
    obtain ⟨r, hr, hon, hstatus⟩ := h c₀ hc₀ i hidx
    obtain ⟨r', hr', hstep⟩ := (World.exec_records hs).1 i r hr
    have honward := (Onward.refl r.record).step hstep
    refine ⟨r', hr', (BlockReward.On.of_onward honward).mp hon, fun hf => ?_⟩
    rcases World.exec_failed hs hr' hf with ⟨q, hq, hqf⟩ | ⟨reason, rfl⟩
    · cases hr.symm.trans hq
      exact hstatus hqf
    · exact hspares ⟨c₀, hc₀, hidx⟩
  rcases World.exec_hashi hs with ⟨-, hstep⟩ | ⟨-, hsame, -⟩
  · rcases hstep.entry_from ⟨c', hc', hi⟩ with hentry |
      ⟨k, claim, txid, vout, amount, r, rfl, hclaim, hround, hr, htxid, hvout,
        hamount, hstatus⟩
    · exact hold hentry
    · obtain ⟨rfl, rfl, rfl⟩ := hspares rfl claim hclaim hround
      refine ⟨r, hr, ⟨htxid, hvout, hamount⟩, ?_⟩
      rw [hstatus]
      intro hfailed
      cases hfailed
  · rw [hsame] at hc'
    exact hold ⟨c', hc', hi⟩

theorem keptOpen_of_reach {w : World} {cid : ID} {round : U64}
    {b : BlockReward}
    (h : Machine.ReachVia (contract H publisher) (Call.Spares cid round b) w) :
    w.hashi.KeptOpen cid round b := by
  refine Machine.ReachVia.invariant
    (I := fun w => w.hashi.KeptOpen cid round b) ?_ ?_ h
  · intro c hc
    cases hc
  · intro w c w' hw hok hs
    exact hw.step hok hs

end M1n3Protocol
