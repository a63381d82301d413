/-
`hashi_vault.move`: the shared vault that collects the pool's hBTC. Its
SUI side, which no other function touches, is left out.
-/
import M1n3Protocol.Contract.Coin

namespace M1n3Protocol

open Checked

structure HashiVault where
  hbtc : U64
  totalReceivedHbtc : U64
  totalWithdrawnHbtc : U64

/-- `create_shared`. -/
def HashiVault.empty : HashiVault where
  hbtc := 0
  totalReceivedHbtc := 0
  totalWithdrawnHbtc := 0

/-- `deposit_hbtc`, and what `receive_hbtc` and `claim_accumulated_hbtc`
do once they hold the balance. -/
def depositHbtc (vault : HashiVault) (amount : U64) :
    Except Abort HashiVault := do
  let hbtc ← balanceJoin vault.hbtc amount
  let totalReceivedHbtc ← addU vault.totalReceivedHbtc amount
  return { vault with hbtc, totalReceivedHbtc }

/-- The coin received has value `amount`. -/
def receiveHbtc (vault : HashiVault) (amount : U64) :
    Except Abort HashiVault :=
  depositHbtc vault amount

/-- `accumulated` is the vault's entry in the funds accumulator: the
withdrawal takes `amount` out of it or aborts. -/
def claimAccumulatedHbtc (vault : HashiVault) (accumulated amount : U64) :
    Except Abort (HashiVault × U64) := do
  let rest ← balanceSplit accumulated amount
  let vault ← depositHbtc vault amount
  return (vault, rest)

def takeExactHbtc (vault : HashiVault) (amount : U64) :
    Except Abort HashiVault := do
  require (0 < amount) (.vault .EZeroAmount)
  require (amount ≤ vault.hbtc) (.vault .EInsufficientBalance)
  let hbtc ← balanceSplit vault.hbtc amount
  let totalWithdrawnHbtc ← addU vault.totalWithdrawnHbtc amount
  return { vault with hbtc, totalWithdrawnHbtc }

-- ======================================================= what they do

theorem depositHbtc_ok {v v' : HashiVault} {a : U64}
    (hok : depositHbtc v a = .ok v') :
    v'.hbtc.toNat = v.hbtc.toNat + a.toNat
      ∧ v'.totalReceivedHbtc.toNat = v.totalReceivedHbtc.toNat + a.toNat
      ∧ v'.totalWithdrawnHbtc = v.totalWithdrawnHbtc := by
  simp only [depositHbtc, bind_eq_ok, balanceJoin_eq_ok, add_eq_ok,
    pure_eq_ok] at hok
  obtain ⟨b, hb, r, hr, heq⟩ := hok
  subst heq
  exact ⟨hb, hr, rfl⟩

theorem claimAccumulatedHbtc_ok {v v' : HashiVault} {acc a rest : U64}
    (hok : claimAccumulatedHbtc v acc a = .ok (v', rest)) :
    depositHbtc v a = .ok v' ∧ rest.toNat + a.toNat = acc.toNat := by
  simp only [claimAccumulatedHbtc, bind_eq_ok, balanceSplit_eq_ok,
    pure_eq_ok] at hok
  obtain ⟨r, hr, w, hw, heq⟩ := hok
  injection heq with hv hrest
  subst hv hrest
  exact ⟨hw, hr⟩

/-- A take leaves the vault with exactly that much less, and books it. -/
theorem takeExactHbtc_ok {v v' : HashiVault} {a : U64}
    (hok : takeExactHbtc v a = .ok v') :
    0 < a.toNat ∧ v'.hbtc.toNat + a.toNat = v.hbtc.toNat
      ∧ v'.totalReceivedHbtc = v.totalReceivedHbtc
      ∧ v'.totalWithdrawnHbtc.toNat = v.totalWithdrawnHbtc.toNat + a.toNat := by
  simp only [takeExactHbtc, bind_eq_ok, require_eq_ok, balanceSplit_eq_ok,
    add_eq_ok, pure_eq_ok] at hok
  obtain ⟨-, hpos, -, -, b, hb, w, hw, heq⟩ := hok
  subst heq
  exact ⟨BitVec.lt_def.mp hpos, hb, rfl, hw⟩

theorem depositHbtc_of_lt {v : HashiVault} {a : U64}
    (hheld : v.hbtc.toNat + a.toNat < 2 ^ 64)
    (htotal : v.totalReceivedHbtc.toNat + a.toNat < 2 ^ 64) :
    ∃ v', depositHbtc v a = .ok v' := by
  obtain ⟨b, hb, -⟩ := add_of_lt Abort.arithmetic hheld
  obtain ⟨r, hr, -⟩ := add_of_lt Abort.arithmetic htotal
  exact ⟨_, bind_eq_ok.mpr ⟨b, hb, bind_eq_ok.mpr ⟨r, hr, rfl⟩⟩⟩

theorem takeExactHbtc_of_le {v : HashiVault} {a : U64} (hpos : 0 < a)
    (hheld : a.toNat ≤ v.hbtc.toNat)
    (htotal : v.totalWithdrawnHbtc.toNat + a.toNat < 2 ^ 64) :
    ∃ v', takeExactHbtc v a = .ok v' := by
  obtain ⟨b, -, hval⟩ := sub_of_le Abort.arithmetic hheld
  obtain ⟨w, hw, -⟩ := add_of_lt Abort.arithmetic htotal
  exact ⟨_, bind_eq_ok.mpr ⟨(), require_eq_ok.mpr hpos,
    bind_eq_ok.mpr ⟨(), require_eq_ok.mpr (BitVec.le_def.mpr hheld),
    bind_eq_ok.mpr ⟨b, balanceSplit_eq_ok.mpr hval,
    bind_eq_ok.mpr ⟨w, hw, rfl⟩⟩⟩⟩⟩

end M1n3Protocol
