/-
What one call can do to the coin slots, said once.

`Slots.Step` has a constructor for each effect on the registry, the caps
and the coins: the framework's own calls on them, the registration and
binding of slots, a mint for a share and a burn by a redemption.
`World.exec_slots` takes any successful call to such a step under its own
name, or to none.
-/
import M1n3Protocol.Chain.World

namespace M1n3Protocol

open Checked

inductive Slots.Step (s : Slots) : Call → Slots → Prop
  | settings {call : SlotAdminCall} {registry : HashShareRegistry}
      (hslots : registry.availableSlots = s.registry.availableSlots)
      (hcaps : registry.registeredCaps = s.registry.registeredCaps)
      (hrounds : registry.rounds = s.registry.rounds)
      (hbound : registry.totalBound = s.registry.totalBound)
      (hregistered : registry.totalRegistered = s.registry.totalRegistered) :
      Step s (.slotAdmin call) { s with registry }
  | createCurrency :
      Step s (.slot .createCurrency) { s with caps := s.caps.alloc ⟨0⟩ }
  | coinMint {id : ID} {value : U64} {cap cap' : TreasuryCap}
      (hcap : s.caps.get id = some cap)
      (hok : M1n3Protocol.coinMint cap value = .ok cap') :
      Step s (.slot (.coinMint id value)) { s with
        caps := s.caps.put id cap', coins := s.coins.alloc ⟨id, value⟩ }
  | coinBurn {id kid : ID} {coin : Coin} {cap cap' : TreasuryCap}
      (hcap : s.caps.get id = some cap) (hcoin : s.coins.get kid = some coin)
      (hof : coin.capId = id)
      (hok : M1n3Protocol.coinBurn cap coin.value = .ok cap') :
      Step s (.slot (.coinBurn id kid)) { s with
        caps := s.caps.put id cap', coins := s.coins.erase kid }
  | treasuryIntoSupply {id : ID} {cap : TreasuryCap}
      (hcap : s.caps.get id = some cap) :
      Step s (.slot (.treasuryIntoSupply id))
        { s with caps := s.caps.erase id }
  | coinSplit {kid : ID} {coin : Coin} {amount rest : U64}
      (hcoin : s.coins.get kid = some coin)
      (hrest : rest.toNat + amount.toNat = coin.value.toNat) :
      Step s (.slot (.coinSplit kid amount)) { s with
        coins := (s.coins.put kid { coin with value := rest }).alloc
          ⟨coin.capId, amount⟩ }
  | coinJoin {kid other : ID} {coin c : Coin} {value : U64}
      (hne : kid ≠ other) (hcoin : s.coins.get kid = some coin)
      (hother : s.coins.get other = some c) (hof : c.capId = coin.capId)
      (hvalue : value.toNat = coin.value.toNat + c.value.toNat) :
      Step s (.slot (.coinJoin kid other)) { s with
        coins := (s.coins.put kid { coin with value }).erase other }
  | register {id : ID} {label : Bytes} {registry : HashShareRegistry}
      (hok : registerSlot s.registry id label = .ok registry) :
      Step s (.slot (.registerSlot id label)) { s with registry }
  | bind {roundId : U64} {registry : HashShareRegistry} {b : RoundBinding}
      (hok : bindSlotToRound s.registry roundId = .ok (registry, b)) :
      Step s (.slot (.bindSlotToRound roundId)) { s with registry }
  | mintShare {capId rid sid : ID} {cap cap' : TreasuryCap}
      {b : RoundBinding} {roundId difficulty minerUnits feeUnits : U64}
      (hcap : s.caps.get capId = some cap)
      (hround : s.registry.rounds roundId = some b) (hb : b.capId = capId)
      (hok : M1n3Protocol.coinMint cap (difficulty / Const.bundleFactor)
        = .ok cap')
      (hunits : minerUnits.toNat + feeUnits.toNat
        = difficulty.toNat / 10_000) :
      Step s (.mintShare capId rid sid) { s with
        caps := s.caps.put capId cap'
        coins := mintedCoins s.coins capId minerUnits feeUnits
        mints := s.mints.alloc ⟨capId, roundId, difficulty⟩ }
  | redeem {did capId kid : ID} {cap cap' : TreasuryCap} {coin : Coin}
      (hcap : s.caps.get capId = some cap)
      (hcoin : s.coins.get kid = some coin) (hof : coin.capId = capId)
      (hok : M1n3Protocol.coinBurn cap coin.value = .ok cap') :
      Step s (.redeem did capId kid) { s with
        caps := s.caps.put capId cap'
        coins := s.coins.erase kid
        burns := s.burns.alloc ⟨capId, coin.value⟩ }

/-- Only `mint_share` mints a share. -/
theorem Slots.Step.mints_eq {s s' : Slots} {c : Call}
    (hs : Slots.Step s c s')
    (hmint : ∀ cap receipt mrs, c ≠ .mintShare cap receipt mrs) :
    s'.mints = s.mints := by
  cases hs with
  | mintShare => exact absurd rfl (hmint _ _ _)
  | settings | createCurrency | coinMint | coinBurn | treasuryIntoSupply
  | coinSplit | coinJoin | register | bind | redeem => rfl

-- ============================================================= inversion

variable {H : HashFn} {w w' : World}

theorem Slots.execAdmin_step {s s' : Slots} {c : SlotAdminCall}
    (h : s.execAdmin c = .ok s') : Slots.Step s (.slotAdmin c) s' := by
  cases c with
  | setFeeBps newBps =>
      simp only [Slots.execAdmin, bind_eq_ok, pure_eq_ok] at h
      obtain ⟨registry, hok, heq⟩ := h
      obtain ⟨-, rfl⟩ := setFeeBps_ok hok
      subst heq
      exact .settings rfl rfl rfl rfl rfl
  | setFeeRecipient newRecipient =>
      simp only [Slots.execAdmin, pure_eq_ok] at h
      subst h
      exact .settings rfl rfl rfl rfl rfl

theorem Slots.exec_step {s s' : Slots} {c : SlotCall}
    (h : s.exec c = .ok s') : Slots.Step s (.slot c) s' := by
  cases c with
  | createCurrency =>
      simp only [Slots.exec, pure_eq_ok] at h
      subst h
      exact .createCurrency
  | coinMint id value =>
      simp only [Slots.exec, bind_eq_ok, load_eq_ok, pure_eq_ok] at h
      obtain ⟨cap, hcap, cap', hok, heq⟩ := h
      subst heq
      exact .coinMint hcap hok
  | coinBurn id kid =>
      simp only [Slots.exec, bind_eq_ok, load_eq_ok, require_eq_ok,
        pure_eq_ok] at h
      obtain ⟨cap, hcap, coin, hcoin, -, hof, cap', hok, heq⟩ := h
      subst heq
      exact .coinBurn hcap hcoin hof hok
  | treasuryIntoSupply id =>
      simp only [Slots.exec, bind_eq_ok, load_eq_ok, pure_eq_ok] at h
      obtain ⟨cap, hcap, heq⟩ := h
      subst heq
      exact .treasuryIntoSupply hcap
  | coinSplit kid amount =>
      simp only [Slots.exec, bind_eq_ok, load_eq_ok, balanceSplit_eq_ok,
        pure_eq_ok] at h
      obtain ⟨coin, hcoin, rest, hrest, heq⟩ := h
      subst heq
      exact .coinSplit hcoin hrest
  | coinJoin kid other =>
      simp only [Slots.exec, bind_eq_ok, load_eq_ok, require_eq_ok,
        balanceJoin_eq_ok, pure_eq_ok] at h
      obtain ⟨-, hne, coin, hcoin, c, hother, -, hof, value, hvalue, heq⟩ := h
      subst heq
      exact .coinJoin hne hcoin hother hof hvalue
  | registerSlot id label =>
      simp only [Slots.exec, bind_eq_ok, pure_eq_ok] at h
      obtain ⟨registry, hok, heq⟩ := h
      subst heq
      exact .register hok
  | bindSlotToRound roundId =>
      simp only [Slots.exec, bind_eq_ok, pure_eq_ok] at h
      obtain ⟨⟨registry, b⟩, hok, heq⟩ := h
      subst heq
      exact .bind hok

/-- The calls that reach the slots. -/
def Call.onSlots : Call → Bool
  | .slotAdmin _ | .slot _ | .mintShare .. | .redeem .. => true
  | _ => false

/-- Every call that reaches the slots is a step there; the others leave
them alone. -/
theorem World.exec_slots {c : Call} (h : w.exec H c = .ok w') :
    (c.onSlots = true ∧ Slots.Step w.slots c w'.slots)
      ∨ (c.onSlots = false ∧ w'.slots = w.slots) := by
  cases c with
  | beginTx sender epoch ts =>
      simp only [World.exec, World.beginTx, bind_eq_ok, pure_eq_ok] at h
      obtain ⟨_, -, heq⟩ := h
      subst heq
      exact .inr ⟨rfl, rfl⟩
  | transferAdminCap recipient =>
      simp only [World.exec, bind_eq_ok, pure_eq_ok] at h
      obtain ⟨_, -, heq⟩ := h
      subst heq
      exact .inr ⟨rfl, rfl⟩
  | admin c | hashiAdmin c =>
      simp only [World.exec, bind_eq_ok, pure_eq_ok] at h
      obtain ⟨_, -, _, -, heq⟩ := h
      subst heq
      exact .inr ⟨rfl, rfl⟩
  | mining c | order c | hashi c =>
      simp only [World.exec, bind_eq_ok, pure_eq_ok] at h
      obtain ⟨_, -, heq⟩ := h
      subst heq
      exact .inr ⟨rfl, rfl⟩
  | pay c =>
      refine .inr ⟨rfl, ?_⟩
      replace h : w.pay H c = .ok w' := h
      cases c with
      | submitShareForPay | submitShareForPayDerived
      | submitShareForBuyerPay =>
          simp only [World.pay, bind_eq_ok, pure_eq_ok] at h
          obtain ⟨t, -, b, -, o, -, paid, -, heq⟩ := h
          subst heq
          rfl
      | submitShareForBuyerPayDerived =>
          simp only [World.pay, bind_eq_ok, pure_eq_ok] at h
          obtain ⟨d, -, p, -, b, -, o, -, paid, -, heq⟩ := h
          subst heq
          rfl
  | slotAdmin c =>
      simp only [World.exec, bind_eq_ok, pure_eq_ok] at h
      obtain ⟨_, -, slots, hs, heq⟩ := h
      subst heq
      exact .inl ⟨rfl, Slots.execAdmin_step hs⟩
  | slot c =>
      simp only [World.exec, bind_eq_ok, pure_eq_ok] at h
      obtain ⟨slots, hs, heq⟩ := h
      subst heq
      exact .inl ⟨rfl, Slots.exec_step hs⟩
  | mintShare capId rid sid =>
      simp only [World.exec, World.mintShare, bind_eq_ok, load_eq_ok,
        pure_eq_ok] at h
      obtain ⟨cap, hcap, r, -, mrs, -, out, hmint, heq⟩ := h
      subst heq
      obtain ⟨⟨b, hround, hb⟩, -, hok, hunits⟩ := mintShare_ok hmint
      exact .inl ⟨rfl, .mintShare hcap hround hb hok hunits⟩
  | recordBlockFound | openAndFundRoundBatch =>
      simp only [World.exec, World.recordBlockFound,
        World.openAndFundRoundBatch, bind_eq_ok, pure_eq_ok] at h
      obtain ⟨_, -, _, -, _, -, heq⟩ := h
      subst heq
      exact .inr ⟨rfl, rfl⟩
  | claimReward | openRedemption =>
      simp only [World.exec, World.claimReward, World.openRedemption,
        bind_eq_ok, pure_eq_ok] at h
      obtain ⟨_, -, _, -, _, -, _, -, heq⟩ := h
      subst heq
      exact .inr ⟨rfl, rfl⟩
  | redeem did capId kid =>
      simp only [World.exec, World.redeem, bind_eq_ok, load_eq_ok,
        require_eq_ok, pure_eq_ok] at h
      obtain ⟨r, -, cap, hcap, coin, hcoin, -, ⟨-, hof⟩, out, hok, heq⟩ := h
      subst heq
      exact .inl ⟨rfl, .redeem hcap hcoin hof (redeem_ok hok).burn_ok⟩

end M1n3Protocol
