/-
The framework's coins, as far as HashShares use them: a `TreasuryCap`'s
supply, minting and burning on it, and splitting and joining coins.

`coin::mint` refuses a value that would take the supply to the largest
`u64`; `coin::burn` refuses more than the supply.
-/
import M1n3Protocol.Contract.Base

namespace M1n3Protocol

open Checked

structure TreasuryCap where
  totalSupply : U64
  deriving DecidableEq, Repr

/-- A `Coin<T>`, with `T` named by the cap that issues it. -/
structure Coin where
  capId : ID
  value : U64
  deriving DecidableEq, Repr

-- =============================================================== supply

/-- `coin::mint`: the cap after `value` more units exist. -/
def coinMint (cap : TreasuryCap) (value : U64) : Except Abort TreasuryCap := do
  require (value < 18_446_744_073_709_551_615 - cap.totalSupply)
    .supplyOverflow
  let totalSupply ← addU cap.totalSupply value
  return { totalSupply }

/-- `coin::burn`: the cap after `value` units are gone. -/
def coinBurn (cap : TreasuryCap) (value : U64) : Except Abort TreasuryCap := do
  require (value ≤ cap.totalSupply) .supplyOverflow
  let totalSupply ← subU cap.totalSupply value
  return { totalSupply }

-- ============================================================== balances

/-- `balance::split`: what is left after `amount` is taken out. -/
def balanceSplit (balance amount : U64) : Except Abort U64 := do
  require (amount ≤ balance) .notEnough
  subU balance amount

/-- `balance::join`. -/
def balanceJoin (balance amount : U64) : Except Abort U64 :=
  addU balance amount

-- ======================================================= what they do

theorem coinMint_ok {cap cap' : TreasuryCap} {v : U64}
    (hok : coinMint cap v = .ok cap') :
    cap'.totalSupply.toNat = cap.totalSupply.toNat + v.toNat := by
  simp only [coinMint, bind_eq_ok, require_eq_ok, pure_eq_ok,
    add_eq_ok] at hok
  obtain ⟨-, -, s, hs, heq⟩ := hok
  rw [← heq]
  exact hs

theorem coinBurn_ok {cap cap' : TreasuryCap} {v : U64}
    (hok : coinBurn cap v = .ok cap') :
    cap'.totalSupply.toNat + v.toNat = cap.totalSupply.toNat := by
  simp only [coinBurn, bind_eq_ok, require_eq_ok, pure_eq_ok,
    sub_eq_ok] at hok
  obtain ⟨-, -, s, hs, heq⟩ := hok
  rw [← heq]
  exact hs

/-- Burning no more than the supply succeeds. -/
theorem coinBurn_of_le {cap : TreasuryCap} {v : U64}
    (h : v.toNat ≤ cap.totalSupply.toNat) :
    ∃ cap', coinBurn cap v = .ok cap'
      ∧ cap'.totalSupply.toNat + v.toNat = cap.totalSupply.toNat := by
  obtain ⟨s, hs, hval⟩ := sub_of_le Abort.arithmetic h
  refine ⟨⟨s⟩, ?_, hval⟩
  unfold coinBurn
  rw [require_of (BitVec.le_def.mpr h)]
  show ((do let totalSupply ← subU cap.totalSupply v; return _) :
    Except _ _) = _
  rw [subU, hs]
  rfl

@[simp] theorem balanceSplit_eq_ok {b a c : U64} :
    balanceSplit b a = .ok c ↔ c.toNat + a.toNat = b.toNat := by
  simp only [balanceSplit, bind_eq_ok, require_eq_ok, sub_eq_ok,
    BitVec.le_def]
  constructor
  · rintro ⟨-, -, h⟩
    exact h
  · intro h
    exact ⟨(), by omega, h⟩

theorem balanceSplit_eq_error {b a : U64} {e : Abort}
    (h : balanceSplit b a = .error e) : e = .notEnough ∨ e = .arithmetic := by
  simp only [balanceSplit, bind_eq_error, require_eq_error] at h
  rcases h with ⟨-, rfl⟩ | ⟨-, -, h⟩
  · exact .inl rfl
  · exact .inr (sub_eq_error h).symm

@[simp] theorem balanceJoin_eq_ok {b a c : U64} :
    balanceJoin b a = .ok c ↔ c.toNat = b.toNat + a.toNat :=
  add_eq_ok

end M1n3Protocol
