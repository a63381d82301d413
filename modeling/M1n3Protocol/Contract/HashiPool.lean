/-
`hashi_pool.move`: the deposit record of each round's block reward, the
config that indexes the records, and the admin's marks along the Hashi
pipeline.

# What the fund lock points to

`funded_batch_id` holds the address of the reward batch or of the
redemption the record paid into. The two live in different stores, so
the lock names which.
-/
import M1n3Protocol.Contract.Share

namespace M1n3Protocol

open Checked

def Const.p2trLen : Nat := 32

inductive DepositStatus
  | unregistered
  | registered
  | approved
  | confirmed
  | failed
  deriving DecidableEq, Repr

/-- What one mark can make of a status. -/
inductive DepositStatus.Moves : DepositStatus → DepositStatus → Prop
  | stay (s : DepositStatus) : Moves s s
  | register : Moves .unregistered .registered
  | approve : Moves .registered .approved
  | confirm : Moves .approved .confirmed
  | reject : Moves .registered .failed
  | rejectApproved : Moves .approved .failed

/-- What a record was spent on. -/
inductive FundedBy
  | batch (id : ID)
  | redemption (id : ID)
  deriving DecidableEq, Repr

structure HashiPoolConfig where
  btcDepositAddress : Bytes
  totalDeposits : U64
  totalSatsConfirmed : U128
  pendingSats : U64
  depositIndex : U64 → Option ID

structure BlockDepositRecord where
  roundId : U64
  txid : Bytes
  vout : U32
  amountSats : U64
  hashiRequestId : Option Address
  status : DepositStatus
  createdAtMs : U64
  confirmedAtMs : Option U64
  failureReason : Option Bytes
  fundedBatchId : Option FundedBy

def BlockDepositRecord.isConfirmed (r : BlockDepositRecord) : Bool :=
  decide (r.status = .confirmed)

-- ================================================================ setup

/-- `initialize`. -/
def initializeConfig (btcDepositAddress : Bytes) :
    Except Abort HashiPoolConfig := do
  require (btcDepositAddress.length = Const.p2trLen)
    (.hashiPool .EInvalidBtcAddress)
  return { btcDepositAddress, totalDeposits := 0, totalSatsConfirmed := 0,
           pendingSats := 0, depositIndex := fun _ => none }

def updateBtcAddress (config : HashiPoolConfig)
    (newBtcDepositAddress : Bytes) : Except Abort HashiPoolConfig := do
  require (newBtcDepositAddress.length = Const.p2trLen)
    (.hashiPool .EInvalidBtcAddress)
  return { config with btcDepositAddress := newBtcDepositAddress }

-- ====================================================== deposit pipeline

/-- `recordId` is the id the new record gets; `table::add` aborts where
the round already has an entry. -/
def recordBlockFound (config : HashiPoolConfig) (claim : BlockFoundClaim)
    (txid : Bytes) (vout : U32) (amountSats : U64) (recordId : ID)
    (ctx : TxContext) :
    Except Abort (HashiPoolConfig × BlockDepositRecord) := do
  require (txid.length = 32) (.hashiPool .EInvalidTxid)
  require (config.depositIndex claim.roundId = none) .fieldAlreadyExists
  let totalDeposits ← addU config.totalDeposits 1
  return ({ config with
      totalDeposits
      depositIndex := fun r =>
        if r = claim.roundId then some recordId else config.depositIndex r },
    { roundId := claim.roundId, txid, vout, amountSats,
      hashiRequestId := none, status := .unregistered,
      createdAtMs := ctx.timestampMs, confirmedAtMs := none,
      failureReason := none, fundedBatchId := none })

def registerWithHashi (record : BlockDepositRecord) :
    Except Abort BlockDepositRecord := do
  require (record.status = .unregistered) (.hashiPool .EInvalidStatus)
  return { record with status := .registered }

def setHashiRequestId (record : BlockDepositRecord)
    (hashiRequestId : Address) : Except Abort BlockDepositRecord := do
  require (record.status = .registered) (.hashiPool .EInvalidStatus)
  return { record with hashiRequestId := some hashiRequestId }

def markHashiApproved (record : BlockDepositRecord) :
    Except Abort BlockDepositRecord := do
  require (record.status = .registered) (.hashiPool .EInvalidStatus)
  return { record with status := .approved }

def markHashiConfirmed (config : HashiPoolConfig)
    (record : BlockDepositRecord) (ctx : TxContext) :
    Except Abort (HashiPoolConfig × BlockDepositRecord) := do
  require (record.status = .approved) (.hashiPool .EInvalidStatus)
  let totalSatsConfirmed ←
    addU config.totalSatsConfirmed (record.amountSats.setWidth 128)
  let pendingSats ← addU config.pendingSats record.amountSats
  return ({ config with totalSatsConfirmed, pendingSats },
    { record with status := .confirmed
                  confirmedAtMs := some ctx.timestampMs })

def markHashiFailed (record : BlockDepositRecord) (reason : Bytes) :
    Except Abort BlockDepositRecord := do
  require (record.status = .registered ∨ record.status = .approved)
    (.hashiPool .EInvalidStatus)
  return { record with status := .failed, failureReason := some reason }

def clearPendingSats (config : HashiPoolConfig) (amount : U64) :
    HashiPoolConfig :=
  if config.pendingSats ≤ amount then { config with pendingSats := 0 }
  else { config with pendingSats := config.pendingSats - amount }

def markFunded (record : BlockDepositRecord) (batchId : FundedBy) :
    Except Abort BlockDepositRecord := do
  require (record.fundedBatchId = none) (.hashiPool .EAlreadyFunded)
  return { record with fundedBatchId := some batchId }

-- ======================================================= what they do

theorem recordBlockFound_ok {config config' : HashiPoolConfig}
    {claim : BlockFoundClaim} {txid : Bytes} {vout : U32} {amount : U64}
    {rid : ID} {ctx : TxContext} {record : BlockDepositRecord}
    (hok : recordBlockFound config claim txid vout amount rid ctx
      = .ok (config', record)) :
    config.depositIndex claim.roundId = none
      ∧ (config'.depositIndex = fun r =>
          if r = claim.roundId then some rid else config.depositIndex r)
      ∧ config'.totalDeposits.toNat = config.totalDeposits.toNat + 1
      ∧ config'.totalSatsConfirmed = config.totalSatsConfirmed
      ∧ config'.pendingSats = config.pendingSats
      ∧ record.roundId = claim.roundId ∧ record.txid = txid
      ∧ record.vout = vout ∧ record.amountSats = amount
      ∧ record.status = .unregistered ∧ record.fundedBatchId = none := by
  simp only [recordBlockFound, bind_eq_ok, require_eq_ok, pure_eq_ok,
    add_eq_ok] at hok
  obtain ⟨-, -, -, hfree, n, hn, heq⟩ := hok
  injection heq with hconfig hrecord
  subst hconfig hrecord
  exact ⟨hfree, rfl, hn, rfl, rfl, rfl, rfl, rfl, rfl, rfl, rfl⟩

/-- The marks that leave the config alone keep what the record pays and
whether it has paid; none of them confirms it. -/
structure Marked (r r' : BlockDepositRecord) : Prop where
  round : r'.roundId = r.roundId
  txid : r'.txid = r.txid
  vout : r'.vout = r.vout
  amount : r'.amountSats = r.amountSats
  funded : r'.fundedBatchId = r.fundedBatchId
  before : r.status ≠ .confirmed
  after : r'.status ≠ .confirmed
  moved : r.status.Moves r'.status

theorem registerWithHashi_ok {r r' : BlockDepositRecord}
    (hok : registerWithHashi r = .ok r') : Marked r r' := by
  simp only [registerWithHashi, bind_eq_ok, require_eq_ok, pure_eq_ok] at hok
  obtain ⟨-, hs, heq⟩ := hok
  subst heq
  exact ⟨rfl, rfl, rfl, rfl, rfl, by simp [hs], by simp, hs ▸ .register⟩

theorem setHashiRequestId_ok {r r' : BlockDepositRecord} {a : Address}
    (hok : setHashiRequestId r a = .ok r') : Marked r r' := by
  simp only [setHashiRequestId, bind_eq_ok, require_eq_ok, pure_eq_ok] at hok
  obtain ⟨-, hs, heq⟩ := hok
  subst heq
  exact ⟨rfl, rfl, rfl, rfl, rfl, by simp [hs], by simp [hs], .stay _⟩

theorem markHashiApproved_ok {r r' : BlockDepositRecord}
    (hok : markHashiApproved r = .ok r') : Marked r r' := by
  simp only [markHashiApproved, bind_eq_ok, require_eq_ok, pure_eq_ok] at hok
  obtain ⟨-, hs, heq⟩ := hok
  subst heq
  exact ⟨rfl, rfl, rfl, rfl, rfl, by simp [hs], by simp, hs ▸ .approve⟩

theorem markHashiFailed_ok {r r' : BlockDepositRecord} {reason : Bytes}
    (hok : markHashiFailed r reason = .ok r') : Marked r r' := by
  simp only [markHashiFailed, bind_eq_ok, require_eq_ok, pure_eq_ok] at hok
  obtain ⟨-, hs, heq⟩ := hok
  subst heq
  rcases hs with hs | hs
  · exact ⟨rfl, rfl, rfl, rfl, rfl, by simp [hs], by simp, hs ▸ .reject⟩
  · exact ⟨rfl, rfl, rfl, rfl, rfl, by simp [hs], by simp,
      hs ▸ .rejectApproved⟩

/-- Confirming moves an approved record to confirmed and books its
amount. -/
theorem markHashiConfirmed_ok {config config' : HashiPoolConfig}
    {r r' : BlockDepositRecord} {ctx : TxContext}
    (hok : markHashiConfirmed config r ctx = .ok (config', r')) :
    r.status = .approved
      ∧ r' = { r with status := .confirmed
                      confirmedAtMs := some ctx.timestampMs }
      ∧ config'.depositIndex = config.depositIndex
      ∧ config'.totalDeposits = config.totalDeposits
      ∧ config'.totalSatsConfirmed.toNat
          = config.totalSatsConfirmed.toNat + r.amountSats.toNat
      ∧ config'.pendingSats.toNat
          = config.pendingSats.toNat + r.amountSats.toNat := by
  simp only [markHashiConfirmed, bind_eq_ok, require_eq_ok, pure_eq_ok,
    add_eq_ok, toNat_widen] at hok
  obtain ⟨-, hs, t, ht, p, hp, heq⟩ := hok
  injection heq with hconfig hr
  subst hconfig hr
  exact ⟨hs, rfl, rfl, rfl, ht, hp⟩

@[simp] theorem markFunded_eq_ok {r r' : BlockDepositRecord} {b : FundedBy} :
    markFunded r b = .ok r' ↔ r.fundedBatchId = none
      ∧ { r with fundedBatchId := some b } = r' := by
  simp only [markFunded, bind_eq_ok, require_eq_ok, pure_eq_ok]
  constructor
  · rintro ⟨-, h⟩
    exact h
  · exact fun h => ⟨(), h⟩

/-- Recording succeeds while the round has no entry. -/
theorem recordBlockFound_of_free {config : HashiPoolConfig}
    {claim : BlockFoundClaim} {txid : Bytes} {vout : U32} {amount : U64}
    {rid : ID} {ctx : TxContext} (htxid : txid.length = 32)
    (hfree : config.depositIndex claim.roundId = none)
    (hroom : config.totalDeposits.toNat + 1 < 2 ^ 64) :
    ∃ r, recordBlockFound config claim txid vout amount rid ctx = .ok r := by
  obtain ⟨n, hn, -⟩ := add_of_lt Abort.arithmetic
    (a := config.totalDeposits) (b := 1) hroom
  exact ⟨_, bind_eq_ok.mpr ⟨(), require_eq_ok.mpr htxid,
    bind_eq_ok.mpr ⟨(), require_eq_ok.mpr hfree,
    bind_eq_ok.mpr ⟨n, hn, rfl⟩⟩⟩⟩

/-- Nothing is pending once all of it has been cleared. -/
theorem clearPendingSats_all (config : HashiPoolConfig) :
    clearPendingSats config config.pendingSats
      = { config with pendingSats := 0 } :=
  if_pos (BitVec.le_refl _)

/-- An approved record is confirmed, where the counters have room. -/
theorem markHashiConfirmed_of_approved {config : HashiPoolConfig}
    {r : BlockDepositRecord} {ctx : TxContext}
    (hstatus : r.status = .approved)
    (htotal : config.totalSatsConfirmed.toNat + r.amountSats.toNat < 2 ^ 128)
    (hpending : config.pendingSats.toNat + r.amountSats.toNat < 2 ^ 64) :
    ∃ out, markHashiConfirmed config r ctx = .ok out := by
  obtain ⟨t, ht, -⟩ := add_of_lt Abort.arithmetic
    (a := config.totalSatsConfirmed) (b := r.amountSats.setWidth 128)
    (by rw [toNat_widen]; exact htotal)
  obtain ⟨p, hp, -⟩ := add_of_lt Abort.arithmetic hpending
  exact ⟨_, bind_eq_ok.mpr ⟨(), require_eq_ok.mpr hstatus,
    bind_eq_ok.mpr ⟨t, ht, bind_eq_ok.mpr ⟨p, hp, rfl⟩⟩⟩⟩

end M1n3Protocol
