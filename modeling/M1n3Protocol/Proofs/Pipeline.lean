/-
The deposit pipeline: the records of the block rewards, the index that
has one per round, and the counters over them.

# One config or several

The admin may create any number of configs, and a mark may be given any
of them. `PipelineBooks` is what holds whatever the admin does: each
config indexes and counts the records made with it, and the confirmed
amounts add up over all configs. With one config that is the pool's
ledger (`deposit_pipeline`).

# Where a record has been

A record's status says where it is. The trail says where it has been: a
log beside the run that takes down each record's status whenever a call
changes it. `Path` has the trails there are, and a call either leaves a
record's status or extends its trail by one.
-/
import M1n3Protocol.Proofs.Vault

namespace M1n3Protocol

open Checked

structure PipelineBooks (h : Hashi) : Prop where
  indexed : ∀ i r, h.records.get i = some r →
    ∃ c, h.configs.get r.config = some c
      ∧ c.depositIndex r.record.roundId = some i
  counted : ∀ cid c, h.configs.get cid = some c →
    c.totalDeposits.toNat
      = h.records.sum fun r => if r.config = cid then 1 else 0
  confirmed_eq : (h.configs.sum fun c => c.totalSatsConfirmed.toNat)
    = h.records.sum RecordObject.confirmedSats
  pending_le : h.configs.All fun c =>
    c.pendingSats.toNat ≤ c.totalSatsConfirmed.toNat

theorem PipelineBooks.init : PipelineBooks .init where
  indexed _ _ h := by cases h
  counted _ _ h := by cases h
  confirmed_eq := rfl
  pending_le := .empty

-- =============================================================== the steps

theorem PipelineBooks.of_eq {h h' : Hashi} (hb : PipelineBooks h)
    (hc : h'.configs = h.configs) (hr : h'.records = h.records) :
    PipelineBooks h' := by
  constructor
  · rw [hc, hr]
    exact hb.indexed
  · rw [hc, hr]
    exact hb.counted
  · rw [hc, hr]
    exact hb.confirmed_eq
  · rw [hc]
    exact hb.pending_le

/-- A replaced record of the same round and amount, confirmed or not as
before. -/
theorem PipelineBooks.replace {h : Hashi} (hb : PipelineBooks h) {id : ID}
    {r : RecordObject} {r' : BlockDepositRecord}
    (hget : h.records.get id = some r) (hround : r'.roundId = r.record.roundId)
    (hsats : RecordObject.confirmedSats { r with record := r' }
      = r.confirmedSats) :
    PipelineBooks { h with
      records := h.records.put id { r with record := r' } } := by
  refine { hb with indexed := ?_, counted := ?_, confirmed_eq := ?_ }
  · intro i q hi
    rcases ObjStore.get_put_eq_some hi with ⟨rfl, rfl, -⟩ | ⟨-, hi⟩
    · obtain ⟨c, hc, hidx⟩ := hb.indexed i r hget
      exact ⟨c, hc, hround.symm ▸ hidx⟩
    · exact hb.indexed i q hi
  · intro cid c hc
    have hsum := ObjStore.sum_put hget { r with record := r' }
      fun r => if r.config = cid then 1 else 0
    have hcount := hb.counted cid c hc
    dsimp only at hsum ⊢
    omega
  · have hsum := ObjStore.sum_put hget { r with record := r' }
      RecordObject.confirmedSats
    have hconf := hb.confirmed_eq
    dsimp only
    omega

/-- Funding a record changes nothing that is counted. -/
theorem PipelineBooks.fund {h : Hashi} (hb : PipelineBooks h) {id : ID}
    {r : RecordObject} {r' : BlockDepositRecord} {by' : FundedBy}
    (hget : h.records.get id = some r)
    (hrec : r' = { r.record with fundedBatchId := some by' }) :
    PipelineBooks { h with
      records := h.records.put id { r with record := r' } } := by
  subst hrec
  exact hb.replace hget rfl rfl

/-- A new record takes the free place of its round in the config's
index. -/
theorem PipelineBooks.record {h : Hashi} (hb : PipelineBooks h)
    {cid claimId : ID} {c c' : HashiPoolConfig} {claim : BlockFoundClaim}
    {txid : Bytes} {vout : U32} {amount : U64} {r : BlockDepositRecord}
    {ctx : TxContext} (hc : h.configs.get cid = some c)
    (hok : recordBlockFound c claim txid vout amount h.records.next ctx
      = .ok (c', r)) :
    PipelineBooks { h with
      configs := h.configs.put cid c'
      records := h.records.alloc ⟨r, cid, claimId⟩ } := by
  obtain ⟨hfree, hindex, hdeposits, hconfirmed, hpending, hround, -, -, -,
    hstatus, -⟩ := recordBlockFound_ok hok
  constructor
  · intro i q hi
    rcases ObjStore.get_alloc_eq_some hi with ⟨hid, rfl⟩ | hi
    · refine ⟨c', ObjStore.get_put_self _ hc, ?_⟩
      rw [hindex, hid]
      exact if_pos hround
    · obtain ⟨c₀, hc₀, hidx⟩ := hb.indexed i q hi
      by_cases hsame : q.config = cid
      · rw [hsame, hc] at hc₀
        cases hc₀
        refine ⟨c', by rw [hsame, ObjStore.get_put_self _ hc], ?_⟩
        rw [hindex]
        dsimp only
        rw [if_neg, hidx]
        intro heq
        rw [heq, hfree] at hidx
        cases hidx
      · exact ⟨c₀, by rw [ObjStore.get_put_ne _ hsame, hc₀], hidx⟩
  · intro did d hd
    have hcount : (h.records.alloc ⟨r, cid, claimId⟩).sum
        (fun r => if r.config = did then 1 else 0)
          = (h.records.sum fun r => if r.config = did then 1 else 0)
            + if cid = did then 1 else 0 := ObjStore.sum_alloc ..
    rw [hcount]
    rcases ObjStore.get_put_eq_some hd with ⟨rfl, rfl, -⟩ | ⟨hne, hd⟩
    · rw [if_pos rfl, hdeposits, hb.counted did c hc]
    · rw [if_neg (Ne.symm hne), Nat.add_zero]
      exact hb.counted did d hd
  · have hsum := ObjStore.sum_put hc c' fun c => c.totalSatsConfirmed.toNat
    have hzero : RecordObject.confirmedSats ⟨r, cid, claimId⟩ = 0 := by
      unfold RecordObject.confirmedSats
      rw [hstatus]
      rfl
    have hconf := hb.confirmed_eq
    dsimp only at hsum ⊢
    rw [hconfirmed] at hsum
    rw [ObjStore.sum_alloc, hzero]
    omega
  · apply hb.pending_le.put
    rw [hpending, hconfirmed]
    exact hb.pending_le cid c hc

/-- A confirmed amount is added to the config the call was given. -/
theorem PipelineBooks.confirm {h : Hashi} (hb : PipelineBooks h)
    {cid id : ID} {c c' : HashiPoolConfig} {r : RecordObject}
    {r' : BlockDepositRecord} {ctx : TxContext}
    (hc : h.configs.get cid = some c) (hget : h.records.get id = some r)
    (hok : markHashiConfirmed c r.record ctx = .ok (c', r')) :
    PipelineBooks { h with
      configs := h.configs.put cid c'
      records := h.records.put id { r with record := r' } } := by
  obtain ⟨hstatus, hr', hindex, hdeposits, hconfirmed, hpending⟩ :=
    markHashiConfirmed_ok hok
  have hround : r'.roundId = r.record.roundId := by rw [hr']
  have hafter : RecordObject.confirmedSats { r with record := r' }
      = r.record.amountSats.toNat := by
    unfold RecordObject.confirmedSats
    rw [hr']
    exact if_pos rfl
  have hbefore : r.confirmedSats = 0 := by
    unfold RecordObject.confirmedSats
    rw [hstatus]
    rfl
  constructor
  · intro i q hi
    have hold : ∃ c₀, h.configs.get q.config = some c₀
        ∧ c₀.depositIndex q.record.roundId = some i := by
      rcases ObjStore.get_put_eq_some hi with ⟨rfl, rfl, -⟩ | ⟨-, hi⟩
      · obtain ⟨c₀, hc₀, hidx⟩ := hb.indexed i r hget
        exact ⟨c₀, hc₀, hround.symm ▸ hidx⟩
      · exact hb.indexed i q hi
    obtain ⟨c₀, hc₀, hidx⟩ := hold
    by_cases hsame : q.config = cid
    · rw [hsame, hc] at hc₀
      cases hc₀
      exact ⟨c', by rw [hsame, ObjStore.get_put_self _ hc],
        by rw [hindex, hidx]⟩
    · exact ⟨c₀, by rw [ObjStore.get_put_ne _ hsame, hc₀], hidx⟩
  · intro did d hd
    have hsum := ObjStore.sum_put hget { r with record := r' }
      fun r => if r.config = did then 1 else 0
    dsimp only at hsum ⊢
    rcases ObjStore.get_put_eq_some hd with ⟨rfl, rfl, -⟩ | ⟨-, hd⟩
    · have hcount := hb.counted did c hc
      rw [hdeposits]
      omega
    · have hcount := hb.counted did d hd
      omega
  · have hcsum := ObjStore.sum_put hc c' fun c => c.totalSatsConfirmed.toNat
    have hrsum := ObjStore.sum_put hget { r with record := r' }
      RecordObject.confirmedSats
    have hconf := hb.confirmed_eq
    dsimp only at hcsum ⊢
    omega
  · apply hb.pending_le.put
    have hle := hb.pending_le cid c hc
    omega

theorem PipelineBooks.step {w w' : World} {c : Call}
    (hb : PipelineBooks w.hashi) (hs : World.HashiStep w c w') :
    PipelineBooks w'.hashi := by
  cases hs with
  | @initializeConfig call addr config hok =>
      simp only [M1n3Protocol.initializeConfig, bind_eq_ok, require_eq_ok,
        pure_eq_ok] at hok
      obtain ⟨-, -, rfl⟩ := hok
      refine { hb with
        indexed := ?_, counted := ?_, confirmed_eq := ?_
        pending_le := hb.pending_le.alloc (Nat.le_refl 0) }
      · intro i r hi
        obtain ⟨c, hc, hidx⟩ := hb.indexed i r hi
        exact ⟨c, ObjStore.get_alloc_of_some _ hc, hidx⟩
      · intro cid c hc
        rcases ObjStore.get_alloc_eq_some hc with ⟨rfl, rfl⟩ | hc
        · refine (ObjStore.sum_eq_zero fun i r hi => if_neg ?_).symm
          obtain ⟨c, hc, -⟩ := hb.indexed i r hi
          exact Nat.ne_of_lt (ObjStore.lt_next hc)
        · exact hb.counted cid c hc
      · show (w.hashi.configs.alloc _).sum _ = _
        rw [ObjStore.sum_alloc]
        exact hb.confirmed_eq
  | @config call id c c' hget hkept =>
      refine { hb with
        indexed := ?_, counted := ?_, confirmed_eq := ?_
        pending_le := hb.pending_le.put ?_ }
      · intro i r hi
        obtain ⟨c₀, hc₀, hidx⟩ := hb.indexed i r hi
        by_cases hsame : r.config = id
        · rw [hsame, hget] at hc₀
          cases hc₀
          exact ⟨c', by rw [hsame, ObjStore.get_put_self _ hget],
            by rw [hkept.index, hidx]⟩
        · exact ⟨c₀, by rw [ObjStore.get_put_ne _ hsame, hc₀], hidx⟩
      · intro cid d hd
        rcases ObjStore.get_put_eq_some hd with ⟨rfl, rfl, -⟩ | ⟨-, hd⟩
        · rw [hkept.deposits]
          exact hb.counted cid c hget
        · exact hb.counted cid d hd
      · have hsum := ObjStore.sum_put hget c'
          fun c => c.totalSatsConfirmed.toNat
        have hconf := hb.confirmed_eq
        dsimp only at hsum ⊢
        rw [hkept.confirmed] at hsum
        omega
      · rw [hkept.confirmed]
        exact hkept.pending.trans (hb.pending_le id c hget)
  | mark hget hm =>
      apply hb.replace hget hm.round
      unfold RecordObject.confirmedSats
      rw [if_neg hm.after, if_neg hm.before]
  | confirm hc hget hok => exact hb.confirm hc hget hok
  | record hc hclaim hok => exact hb.record hc hok
  | openBatch hhist hget hok =>
      exact (hb.fund hget hok.record_eq).of_eq rfl rfl
  | openRedemption hcap hhist hget hok =>
      exact (hb.fund hget hok.record_eq).of_eq rfl rfl
  | credit | transferCoin | receive | collect | claim | recycleBatch
  | redeem | recycleRedemption => exact hb.of_eq rfl rfl

theorem pipelineBooks_of_reach {H : HashFn} {publisher : Address} {w : World}
    (h : Machine.Reach (contract H publisher) w) : PipelineBooks w.hashi :=
  hashi_invariant .init (fun _ _ _ hb hs => hb.step hs) h

-- =========================================================== one record

/-- What one call can make of a record. -/
structure RecordStep (r r' : BlockDepositRecord) : Prop where
  round : r'.roundId = r.roundId
  txid : r'.txid = r.txid
  vout : r'.vout = r.vout
  amount : r'.amountSats = r.amountSats
  moved : r.status.Moves r'.status
  funded : r'.fundedBatchId = r.fundedBatchId
    ∨ r.fundedBatchId = none ∧ r.status = .confirmed

theorem RecordStep.refl (r : BlockDepositRecord) : RecordStep r r :=
  ⟨rfl, rfl, rfl, rfl, .stay _, .inl rfl⟩

theorem Marked.recordStep {r r' : BlockDepositRecord} (h : Marked r r') :
    RecordStep r r' :=
  ⟨h.round, h.txid, h.vout, h.amount, h.moved, .inl h.funded⟩

theorem recordStep_of_confirmed {config config' : HashiPoolConfig}
    {r r' : BlockDepositRecord} {ctx : TxContext}
    (hok : markHashiConfirmed config r ctx = .ok (config', r')) :
    RecordStep r r' := by
  obtain ⟨hs, rfl, -⟩ := markHashiConfirmed_ok hok
  exact ⟨rfl, rfl, rfl, rfl, hs ▸ .confirm, .inl rfl⟩

theorem recordStep_of_funded {r r' : BlockDepositRecord} {by' : FundedBy}
    (hs : r.status = .confirmed) (hnone : r.fundedBatchId = none)
    (heq : r' = { r with fundedBatchId := some by' }) : RecordStep r r' := by
  subst heq
  exact ⟨rfl, rfl, rfl, rfl, .stay _, .inr ⟨hnone, hs⟩⟩

/-- Replacing one record by a later version moves each record by at most
a step, and adds none. -/
theorem recordStep_put {s : ObjStore RecordObject} {id : ID}
    {r : RecordObject} {r' : BlockDepositRecord} (hget : s.get id = some r)
    (hstep : RecordStep r.record r') :
    (∀ i q, s.get i = some q →
        ∃ q', (s.put id { r with record := r' }).get i = some q'
          ∧ RecordStep q.record q'.record)
      ∧ ∀ i q', (s.put id { r with record := r' }).get i = some q' →
        (∃ q, s.get i = some q) ∨ q'.record.status = .unregistered := by
  constructor
  · intro i q hi
    by_cases h : i = id
    · subst h
      rw [hget] at hi
      cases hi
      exact ⟨_, ObjStore.get_put_self _ hget, hstep⟩
    · exact ⟨q, by rw [ObjStore.get_put_ne _ h, hi], .refl _⟩
  · intro i q' hi
    rcases ObjStore.get_put_eq_some hi with ⟨rfl, -, c, hc⟩ | ⟨-, hi⟩
    · exact .inl ⟨c, hc⟩
    · exact .inl ⟨q', hi⟩

/-- Every call moves each record by at most a step, and a record it adds
is unregistered. -/
theorem World.HashiStep.records {w w' : World} {c : Call}
    (hs : World.HashiStep w c w') :
    (∀ i r, w.hashi.records.get i = some r →
        ∃ r', w'.hashi.records.get i = some r'
          ∧ RecordStep r.record r'.record)
      ∧ ∀ i r', w'.hashi.records.get i = some r' →
        (∃ r, w.hashi.records.get i = some r)
          ∨ r'.record.status = .unregistered := by
  cases hs with
  | mark hget hm => exact recordStep_put hget hm.recordStep
  | confirm hc hget hok =>
      exact recordStep_put hget (recordStep_of_confirmed hok)
  | openBatch hhist hget hok =>
      exact recordStep_put hget
        (recordStep_of_funded hok.confirmed hok.unfunded hok.record_eq)
  | openRedemption hcap hhist hget hok =>
      exact recordStep_put hget
        (recordStep_of_funded hok.confirmed hok.unfunded hok.record_eq)
  | record hc hclaim hok =>
      obtain ⟨-, -, -, -, -, -, -, -, -, hstatus, -⟩ := recordBlockFound_ok hok
      constructor
      · intro i r hi
        exact ⟨r, ObjStore.get_alloc_of_some _ hi, .refl _⟩
      · intro i r' hi
        rcases ObjStore.get_alloc_eq_some hi with ⟨-, rfl⟩ | hi
        · exact .inr hstatus
        · exact .inl ⟨r', hi⟩
  | initializeConfig | config | credit | transferCoin | receive | collect
  | claim | recycleBatch | redeem | recycleRedemption =>
      exact ⟨fun i r hi => ⟨r, hi, .refl _⟩, fun i r' hi => .inl ⟨r', hi⟩⟩

variable {H : HashFn}

theorem World.exec_records {w w' : World} {c : Call}
    (hs : w.exec H c = .ok w') :
    (∀ i r, w.hashi.records.get i = some r →
        ∃ r', w'.hashi.records.get i = some r'
          ∧ RecordStep r.record r'.record)
      ∧ ∀ i r', w'.hashi.records.get i = some r' →
        (∃ r, w.hashi.records.get i = some r)
          ∨ r'.record.status = .unregistered := by
  rcases World.exec_hashi hs with ⟨-, hstep⟩ | ⟨-, hsame, -⟩
  · exact hstep.records
  · rw [hsame]
    exact ⟨fun i r hi => ⟨r, hi, .refl _⟩, fun i r' hi => .inl ⟨r', hi⟩⟩

/-- What any number of calls can make of a record. -/
structure Onward (r r' : BlockDepositRecord) : Prop where
  round : r'.roundId = r.roundId
  txid : r'.txid = r.txid
  vout : r'.vout = r.vout
  amount : r'.amountSats = r.amountSats
  confirmed : r.status = .confirmed → r'.status = .confirmed
  failed : r.status = .failed →
    r'.status = .failed ∧ r'.fundedBatchId = r.fundedBatchId
  funded : ∀ b, r.fundedBatchId = some b → r'.fundedBatchId = some b

theorem Onward.refl (r : BlockDepositRecord) : Onward r r :=
  ⟨rfl, rfl, rfl, rfl, id, fun h => ⟨h, rfl⟩, fun _ h => h⟩

theorem Onward.step {r₀ r r' : BlockDepositRecord} (h : Onward r₀ r)
    (hs : RecordStep r r') : Onward r₀ r' where
  round := hs.round.trans h.round
  txid := hs.txid.trans h.txid
  vout := hs.vout.trans h.vout
  amount := hs.amount.trans h.amount
  confirmed h₀ := by
    have hmoved := hs.moved
    rw [h.confirmed h₀] at hmoved
    generalize r'.status = s at hmoved ⊢
    cases hmoved
    rfl
  failed h₀ := by
    obtain ⟨hstatus, hfunded⟩ := h.failed h₀
    have hmoved := hs.moved
    rw [hstatus] at hmoved
    generalize r'.status = s at hmoved ⊢
    cases hmoved
    refine ⟨rfl, ?_⟩
    rcases hs.funded with hsame | ⟨-, hconf⟩
    · exact hsame.trans hfunded
    · rw [hstatus] at hconf
      cases hconf
  funded b h₀ := by
    have hb := h.funded b h₀
    rcases hs.funded with hsame | ⟨hnone, -⟩
    · rw [hsame, hb]
    · rw [hb] at hnone
      cases hnone

/-- Records only go onward, however the run continues. -/
theorem records_onward {publisher : Address} {w w' : World}
    (h : Machine.Reach ((contract H publisher).startAt w) w') {i : ID}
    {r : RecordObject} (hi : w.hashi.records.get i = some r) :
    ∃ r', w'.hashi.records.get i = some r' ∧ Onward r.record r'.record := by
  refine Machine.ReachVia.invariant
    (I := fun w' => ∃ r', w'.hashi.records.get i = some r'
      ∧ Onward r.record r'.record) ⟨r, hi, .refl _⟩ ?_ h
  rintro w₁ c w₂ ⟨r₁, hi₁, honward⟩ - hs
  obtain ⟨r₂, hi₂, hstep⟩ := (World.exec_records hs).1 i r₁ hi₁
  exact ⟨r₂, hi₂, honward.step hstep⟩

-- =============================================================== trails

/-- The trails a record of a status can have behind it. -/
def DepositStatus.Path : DepositStatus → List DepositStatus → Prop
  | .unregistered, t => t = [.unregistered]
  | .registered, t => t = [.unregistered, .registered]
  | .approved, t => t = [.unregistered, .registered, .approved]
  | .confirmed, t => t = [.unregistered, .registered, .approved, .confirmed]
  | .failed, t => t = [.unregistered, .registered, .failed]
      ∨ t = [.unregistered, .registered, .approved, .failed]

/-- After a call, each record's new status is taken down. -/
def recordTrails (_ : World) (_ : Call) (w' : World)
    (trails : ID → List DepositStatus) : ID → List DepositStatus :=
  fun i => match w'.hashi.records.get i with
    | none => trails i
    | some r =>
        if (trails i).getLast? = some r.record.status then trails i
        else trails i ++ [r.record.status]

/-- The contract with the trails of its deposit records. -/
def tracked (H : HashFn) (publisher : Address) :
    Machine Abort (World × (ID → List DepositStatus)) Call :=
  (contract H publisher).withGhost (fun _ => []) recordTrails

theorem DepositStatus.Path.getLast {s : DepositStatus}
    {t : List DepositStatus} (h : s.Path t) : t.getLast? = some s := by
  cases s with
  | failed => rcases h with rfl | rfl <;> rfl
  | unregistered | registered | approved | confirmed =>
      cases h
      rfl

/-- A move extends the trail by the new status, if it is one. -/
theorem DepositStatus.Path.move {s s' : DepositStatus}
    {t : List DepositStatus} (h : s.Path t) (hm : s.Moves s') :
    s'.Path (if t.getLast? = some s' then t else t ++ [s']) := by
  rw [h.getLast]
  cases hm with
  | stay =>
      rw [if_pos rfl]
      exact h
  | register | approve | confirm =>
      cases h
      rfl
  | reject =>
      cases h
      exact .inl rfl
  | rejectApproved =>
      cases h
      exact .inr rfl

structure TrailBooks (p : World × (ID → List DepositStatus)) : Prop where
  path : ∀ i r, p.1.hashi.records.get i = some r →
    r.record.status.Path (p.2 i)
  unmade : ∀ i, p.1.hashi.records.get i = none → p.2 i = []

theorem trailBooks_of_reach {publisher : Address}
    {p : World × (ID → List DepositStatus)}
    (h : Machine.Reach (tracked H publisher) p) : TrailBooks p := by
  refine Machine.ReachVia.withGhost_invariant
    (I := fun w trails => TrailBooks (w, trails)) ?_ ?_ h
  · refine ⟨fun i r hi => ?_, fun _ _ => rfl⟩
    cases hi
  · intro w c w' trails _ hb _ hexec
    obtain ⟨hold, hnew⟩ := World.exec_records hexec
    constructor
    · intro i r' hi
      dsimp only [recordTrails] at hi ⊢
      rw [hi]
      dsimp only
      cases hbefore : w.hashi.records.get i with
      | some r =>
          obtain ⟨q, hq, hstep⟩ := hold i r hbefore
          rw [hi] at hq
          cases hq
          exact (hb.path i r hbefore).move hstep.moved
      | none =>
          have hempty : trails i = [] := hb.unmade i hbefore
          rw [hempty]
          rcases hnew i r' hi with ⟨r, hr⟩ | hstatus
          · rw [hbefore] at hr
            cases hr
          · rw [hstatus]
            rfl
    · intro i hi
      dsimp only [recordTrails] at hi ⊢
      rw [hi]
      cases hbefore : w.hashi.records.get i with
      | none => exact hb.unmade i hbefore
      | some r =>
          obtain ⟨q, hq, -⟩ := hold i r hbefore
          rw [hi] at hq
          cases hq

-- ============================================================= the ledger

/-- Over the pool's one config, in any run: a round has at most one
record, and the counters are what they count; a record is where its trail
ends, which is confirmed only by way of registered and approved; from
then on it stays there, as does a failed one; it never changes what it
pays; and it is funded at most once, while confirmed. -/
theorem deposit_pipeline {publisher : Address} {w : World}
    {trails : ID → List DepositStatus}
    (h : Machine.Reach (tracked H publisher) (w, trails)) {cid : ID}
    {config : HashiPoolConfig} (hc : w.hashi.configs.get cid = some config)
    (hone : ∀ j d, w.hashi.configs.get j = some d → j = cid) :
    (w.hashi.records.KeyInj fun r => r.record.roundId)
      ∧ config.totalDeposits.toNat = w.hashi.records.sum (fun _ => 1)
      ∧ config.totalSatsConfirmed.toNat
          = w.hashi.records.sum RecordObject.confirmedSats
      ∧ config.pendingSats.toNat ≤ config.totalSatsConfirmed.toNat
      ∧ (∀ i r, w.hashi.records.get i = some r →
          r.record.status.Path (trails i)
            ∧ (r.record.fundedBatchId.isSome = true →
              r.record.status = .confirmed)
            ∧ ∀ w', Machine.Reach ((contract H publisher).startAt w) w' →
              ∃ r', w'.hashi.records.get i = some r'
                ∧ Onward r.record r'.record)
      ∧ ∀ c w', w.exec H c = .ok w' →
        ∀ i r, w.hashi.records.get i = some r →
          ∃ r', w'.hashi.records.get i = some r'
            ∧ RecordStep r.record r'.record := by
  have hreach : Machine.Reach (contract H publisher) w :=
    Machine.Reach.of_withGhost h
  have hb := pipelineBooks_of_reach hreach
  have htrail := trailBooks_of_reach h
  -- Every record is in the one config's index.
  have hindex : ∀ i r, w.hashi.records.get i = some r →
      r.config = cid ∧ config.depositIndex r.record.roundId = some i := by
    intro i r hi
    obtain ⟨c, hget, hidx⟩ := hb.indexed i r hi
    have hcid := hone _ _ hget
    rw [hcid, hc] at hget
    cases hget
    exact ⟨hcid, hidx⟩
  refine ⟨fun i j a b hi hj hround => ?_, ?_, ?_, hb.pending_le cid config hc,
    fun i r hi => ⟨htrail.path i r hi,
      (vaultBooks_of_reach hreach).funded_confirmed i r hi,
      fun w' hw' => records_onward hw' hi⟩,
    fun c w' hs => (World.exec_records hs).1⟩
  · have hsame : a.record.roundId = b.record.roundId := hround
    have hia := (hindex i a hi).2
    rw [hsame, (hindex j b hj).2] at hia
    exact (Option.some.inj hia).symm
  · rw [hb.counted cid config hc]
    exact ObjStore.sum_congr fun i r hi => if_pos (hindex i r hi).1
  · have hrest : ∑ j ∈ (Finset.range w.hashi.configs.next).erase cid,
        (w.hashi.configs.get j).elim 0 (fun c => c.totalSatsConfirmed.toNat)
          = 0 := by
      refine Finset.sum_eq_zero fun j hj => ?_
      cases hget : w.hashi.configs.get j with
      | none => rfl
      | some d => exact absurd (hone j d hget) (Finset.ne_of_mem_erase hj)
    rw [← hb.confirmed_eq, ObjStore.sum_split hc, hrest, Nat.add_zero]

/-- The record of the round funded above went all the way. -/
theorem deposit_pipeline_fundedRound :
    ∃ w trails, Machine.Reach (tracked sha256 0) (w, trails)
      ∧ trails 0 = [.unregistered, .registered, .approved, .confirmed]
      ∧ ∃ config, w.hashi.configs.get 0 = some config
        ∧ config.totalDeposits.toNat = w.hashi.records.sum (fun _ => 1)
        ∧ config.totalSatsConfirmed.toNat = 1000 := by
  have hrun : (tracked sha256 0).endsIn fundedRound (fun p =>
      decide (p.2 0 = [.unregistered, .registered, .approved, .confirmed])
        && decide (p.1.hashi.configs.next = 1)
        && (p.1.hashi.configs.get 0).any fun config =>
          decide (config.totalSatsConfirmed.toNat = 1000)) = true := by
    decide +kernel
  obtain ⟨⟨w, trails⟩, hw, hcheck⟩ := Machine.reach_of_endsIn hrun
  rw [Bool.and_eq_true, Bool.and_eq_true, decide_eq_true_eq,
    decide_eq_true_eq] at hcheck
  obtain ⟨⟨htrail, hnext⟩, hconfig⟩ := hcheck
  obtain ⟨config, hget, hsats⟩ := (Option.any_eq_true ..).mp hconfig
  have hone : ∀ j d, w.hashi.configs.get j = some d → j = 0 := by
    intro j d hj
    have := ObjStore.lt_next hj
    dsimp only at hnext
    omega
  obtain ⟨-, hcount, -⟩ := deposit_pipeline hw hget hone
  exact ⟨w, trails, hw, htrail, config, hget, hcount, of_decide_eq_true hsats⟩

end M1n3Protocol
