/-
What every contract module shares: the integer types, addresses and
object ids, the abort codes, the transaction context, and the lookup of
an object.

# Ids and addresses

An address or an object id is only ever compared, so both are naturals.
Ids of different object types come from different stores. A phantom coin
type `T` is named by the id of its `TreasuryCap`, of which the framework
makes exactly one a type.

# Aborts

One code for each `#[error]` constant, under the module that declares
it, and the runtime's own: arithmetic out of range, a vector read out of
bounds, an object or dynamic field that is not there or already is, and
the framework's balance and supply checks.
-/
import M1n3Protocol.Lib.Checked
import M1n3Protocol.Lib.ObjStore
import M1n3Protocol.Lib.Sha256

namespace M1n3Protocol

abbrev U32 := BitVec 32
abbrev U64 := BitVec 64
abbrev U128 := BitVec 128
abbrev U256 := BitVec 256

instance : LawfulBEq U64 := inferInstance

abbrev Address := Nat
abbrev ID := Nat

-- =============================================================== aborts

inductive BtcMathError
  | EInvalidLength
  | EInvalidMerkleHashLength
  | ECoinbaseTooShort
  | EUnsupportedVarintWidth
  | EDerivedFewerOutputs
  | EParentVoutsNotPreserved
  | ELocktimeMismatch
  | ECoinbaseMissingVout1
  | EWrongVout1Script
  deriving DecidableEq, Repr

inductive MinerError
  | ENotOwner
  | ERoundMismatch
  | EMinerMismatch
  | EStaleTemplate
  | EDuplicateRoundStats
  deriving DecidableEq, Repr

inductive ShareDedupError
  | EDuplicateShare
  | EAlreadyRegistered
  | ENotOwner
  deriving DecidableEq, Repr

inductive PoolError
  | EShareDoesNotMeetDifficulty
  | ENotAdmin
  | EInvalidVersionRolling
  | EInvalidNtime
  | EWrongTemplate
  | EWrongMiner
  | ERoundMismatch
  | EAccumulationWindowOpen
  | EInsufficientTemplateFee
  | EDerivedCoinbase1Mismatch
  | EDerivedNtimeOutOfWindow
  | EBuyOrderTemplateMismatch
  | EInsufficientHashpowerBudget
  | ENotHashpowerBuyOrderOwner
  | EHashpowerOrderExpired
  | EZeroPrice
  | EInvalidMerkleTree
  | EOrderNotDynamic
  | EBuyerOrderTemplateOwnerMismatch
  deriving DecidableEq, Repr

inductive RegistryError
  | ENoAvailableSlots
  | ESlotAlreadyRegistered
  | EWrongCap
  | EFeeTooHigh
  deriving DecidableEq, Repr

inductive HashShareError
  | ERoundMismatch
  | EDepositNotConfirmed
  | EZeroBalance
  | EZeroSupply
  | EZeroAmount
  | EWindowNotPassed
  | EAlreadyExpired
  | ERedemptionAlreadyOpen
  deriving DecidableEq, Repr

inductive HashiPoolError
  | EInvalidBtcAddress
  | EInvalidTxid
  | EInvalidStatus
  | EAlreadyFunded
  deriving DecidableEq, Repr

inductive VaultError
  | EZeroAmount
  | EInsufficientBalance
  deriving DecidableEq, Repr

inductive RewardsError
  | EInvalidStatus
  | EClaimDeadlinePassed
  | EDeadlineNotReached
  | ERoundMismatch
  | EZeroWork
  | EWrongMiner
  | EDepositNotConfirmed
  | EZeroBalance
  deriving DecidableEq, Repr

inductive MarketError
  | ENotBuyer
  | ENotSeller
  | EOrderExhausted
  | EInsufficientHashShares
  | EOrderExpired
  | ENotExpired
  | EZeroQty
  | ENotAdmin
  | EPriceTooLow
  | ENoPendingAdmin
  | ENotPendingAdmin
  deriving DecidableEq, Repr

/-- Why a transaction aborts. -/
inductive Abort
  | arithmetic
  | outOfBounds
  | noSuchObject
  | notOwner
  | fieldAlreadyExists
  | noSuchField
  | notEnough
  | clockBackwards
  | supplyOverflow
  | btcMath (e : BtcMathError)
  | miner (e : MinerError)
  | shareDedup (e : ShareDedupError)
  | pool (e : PoolError)
  | registry (e : RegistryError)
  | hashShare (e : HashShareError)
  | hashiPool (e : HashiPoolError)
  | vault (e : VaultError)
  | rewards (e : RewardsError)
  | market (e : MarketError)
  deriving DecidableEq, Repr

-- ============================================================== context

/-- Who calls, in which epoch, and what the `Clock` object says. -/
structure TxContext where
  sender : Address
  epoch : U64
  timestampMs : U64

-- =============================================================== objects

/-- The object at `id`, or the abort of a missing one. -/
def load {α : Type} (s : ObjStore α) (id : ID) : Except Abort α :=
  Checked.fetch (s.get id) .noSuchObject

@[simp] theorem load_eq_ok {α : Type} {s : ObjStore α} {id : ID} {a : α} :
    load s id = .ok a ↔ s.get id = some a := by
  simp [load]

theorem load_bind {α β : Type} {s : ObjStore α} {id : ID} {a : α}
    (h : s.get id = some a) (f : α → Except Abort β) :
    (load s id >>= f) = f a := by
  rw [load_eq_ok.mpr h]
  rfl

-- ============================================================ arithmetic

abbrev addU {w : Nat} (a b : BitVec w) : Except Abort (BitVec w) :=
  Checked.add .arithmetic a b

abbrev subU {w : Nat} (a b : BitVec w) : Except Abort (BitVec w) :=
  Checked.sub .arithmetic a b

abbrev mulU {w : Nat} (a b : BitVec w) : Except Abort (BitVec w) :=
  Checked.mul .arithmetic a b

/-- `vector::borrow`. -/
def borrow {α : Type} (v : List α) (i : Nat) : Except Abort α :=
  Checked.fetch v[i]? .outOfBounds

/-- `openzeppelin_math::mul_div` rounding down, then `destroy_some`: the
exact floor, aborting on a zero denominator or a quotient too wide. -/
def mulDivDown {w : Nat} (a b denominator : BitVec w) :
    Except Abort (BitVec w) :=
  if denominator = 0 then .error .arithmetic
  else
    let q := a.toNat * b.toNat / denominator.toNat
    if q < 2 ^ w then .ok (BitVec.ofNat w q) else .error .arithmetic

theorem mulDivDown_eq_ok {w : Nat} {a b d q : BitVec w} :
    mulDivDown a b d = .ok q
      ↔ 0 < d.toNat ∧ q.toNat = a.toNat * b.toNat / d.toNat := by
  have hd : d = 0 ↔ ¬ 0 < d.toNat := by
    rw [Nat.not_lt, Nat.le_zero]
    exact ⟨fun h => by rw [h]; rfl, fun h => BitVec.eq_of_toNat_eq h⟩
  unfold mulDivDown
  constructor
  · intro h
    split at h
    case isTrue => cases h
    case isFalse hne =>
      simp only at h
      split at h
      case isFalse => cases h
      case isTrue hlt =>
        injection h with h
        refine ⟨Classical.byContradiction fun hn => hne (hd.mpr hn), ?_⟩
        rw [← h, BitVec.toNat_ofNat, Nat.mod_eq_of_lt hlt]
  · rintro ⟨hpos, hq⟩
    have hlt : a.toNat * b.toNat / d.toNat < 2 ^ w := hq ▸ q.isLt
    rw [if_neg (fun h => hd.mp h hpos)]
    simp only [if_pos hlt]
    refine congrArg _ (BitVec.eq_of_toNat_eq ?_)
    rw [BitVec.toNat_ofNat, Nat.mod_eq_of_lt hlt, hq]

theorem mulDivDown_eq_error {w : Nat} {a b d : BitVec w} {e : Abort}
    (h : mulDivDown a b d = .error e) : e = .arithmetic := by
  unfold mulDivDown at h
  split at h
  case isTrue => exact (Except.error.inj h).symm
  case isFalse =>
    simp only at h
    split at h
    case isTrue => cases h
    case isFalse => exact (Except.error.inj h).symm

/-- `as u128` on a `u64` keeps the value. -/
theorem toNat_widen (x : U64) : (x.setWidth 128).toNat = x.toNat := by
  rw [BitVec.toNat_setWidth]
  exact Nat.mod_eq_of_lt (Nat.lt_of_lt_of_le x.isLt (by decide))

end M1n3Protocol
