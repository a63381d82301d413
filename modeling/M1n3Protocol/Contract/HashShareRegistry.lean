/-
`hash_share_registry.move`: the queue of published coin slots, the
binding of a slot to each round, and the mint fee.

A slot is a `TreasuryCap`, known here by its id only: registration never
sees the cap itself. The dynamic fields keyed by cap id are the list
`registeredCaps`; the `Table` of rounds is a partial function.
-/
import M1n3Protocol.Contract.Base

namespace M1n3Protocol

open Checked

def Const.defaultFeeBps : U64 := 100
def Const.bpsDenom : U64 := 10_000
def Const.maxFeeBps : U64 := 1_000

structure AvailableSlot where
  capId : ID
  label : Bytes

structure RoundBinding where
  capId : ID
  label : Bytes
  boundAtRoundIdx : U64

structure HashShareRegistry where
  availableSlots : List AvailableSlot
  registeredCaps : List ID
  rounds : U64 → Option RoundBinding
  totalBound : U64
  totalRegistered : U64
  feeBps : U64
  feeRecipient : Address

/-- `init`: the registry as published by `publisher`. -/
def HashShareRegistry.init (publisher : Address) : HashShareRegistry where
  availableSlots := []
  registeredCaps := []
  rounds := fun _ => none
  totalBound := 0
  totalRegistered := 0
  feeBps := Const.defaultFeeBps
  feeRecipient := publisher

-- ============================================================ fee admin

def setFeeBps (registry : HashShareRegistry) (newBps : U64) :
    Except Abort HashShareRegistry := do
  require (newBps ≤ Const.maxFeeBps) (.registry .EFeeTooHigh)
  return { registry with feeBps := newBps }

def setFeeRecipient (registry : HashShareRegistry) (newRecipient : Address) :
    HashShareRegistry :=
  { registry with feeRecipient := newRecipient }

-- ====================================================== slots and rounds

def registerSlot (registry : HashShareRegistry) (capId : ID) (label : Bytes) :
    Except Abort HashShareRegistry := do
  require (capId ∉ registry.registeredCaps) (.registry .ESlotAlreadyRegistered)
  let totalRegistered ← addU registry.totalRegistered 1
  return { registry with
    registeredCaps := capId :: registry.registeredCaps
    availableSlots := registry.availableSlots ++ [⟨capId, label⟩]
    totalRegistered }

/-- A bound round keeps its binding; an unbound one takes the slot at the
head of the queue. -/
def bindSlotToRound (registry : HashShareRegistry) (roundId : U64) :
    Except Abort (HashShareRegistry × RoundBinding) :=
  match registry.rounds roundId with
  | some binding => pure (registry, binding)
  | none =>
      match registry.availableSlots with
      | [] => .error (.registry .ENoAvailableSlots)
      | slot :: rest => do
          let totalBound ← addU registry.totalBound 1
          let binding : RoundBinding :=
            ⟨slot.capId, slot.label, registry.totalBound⟩
          return ({ registry with
            availableSlots := rest
            rounds := fun r =>
              if r = roundId then some binding else registry.rounds r
            totalBound }, binding)

def assertCapMatchesRound (registry : HashShareRegistry) (roundId : U64)
    (capId : ID) : Except Abort Unit := do
  let b ← fetch (registry.rounds roundId) (.registry .ENoAvailableSlots)
  require (b.capId = capId) (.registry .EWrongCap)

-- ======================================================= what they do

theorem setFeeBps_ok {reg reg' : HashShareRegistry} {bps : U64}
    (hok : setFeeBps reg bps = .ok reg') :
    bps ≤ Const.maxFeeBps ∧ reg' = { reg with feeBps := bps } := by
  simp only [setFeeBps, bind_eq_ok, require_eq_ok, pure_eq_ok] at hok
  obtain ⟨-, hle, heq⟩ := hok
  exact ⟨hle, heq.symm⟩

/-- A registration queues a cap never registered before, last. -/
theorem registerSlot_ok {reg reg' : HashShareRegistry} {cap : ID}
    {label : Bytes} (hok : registerSlot reg cap label = .ok reg') :
    cap ∉ reg.registeredCaps
      ∧ reg'.registeredCaps = cap :: reg.registeredCaps
      ∧ reg'.availableSlots = reg.availableSlots ++ [⟨cap, label⟩]
      ∧ reg'.rounds = reg.rounds
      ∧ reg'.totalBound = reg.totalBound
      ∧ reg'.totalRegistered.toNat = reg.totalRegistered.toNat + 1
      ∧ reg'.feeBps = reg.feeBps := by
  simp only [registerSlot, bind_eq_ok, require_eq_ok, pure_eq_ok,
    add_eq_ok] at hok
  obtain ⟨-, hnew, n, hn, heq⟩ := hok
  subst heq
  exact ⟨hnew, rfl, rfl, rfl, rfl, hn, rfl⟩

/-- Binding a bound round changes nothing; binding an unbound one takes
the oldest queued slot. -/
theorem bindSlotToRound_ok {reg reg' : HashShareRegistry} {r : U64}
    {b : RoundBinding} (hok : bindSlotToRound reg r = .ok (reg', b)) :
    (reg.rounds r = some b ∧ reg' = reg)
      ∨ (reg.rounds r = none ∧ ∃ slot rest,
          reg.availableSlots = slot :: rest
            ∧ b = ⟨slot.capId, slot.label, reg.totalBound⟩
            ∧ reg'.availableSlots = rest
            ∧ reg'.registeredCaps = reg.registeredCaps
            ∧ (reg'.rounds = fun r' =>
                if r' = r then some b else reg.rounds r')
            ∧ reg'.totalBound.toNat = reg.totalBound.toNat + 1
            ∧ reg'.totalRegistered = reg.totalRegistered
            ∧ reg'.feeBps = reg.feeBps) := by
  unfold bindSlotToRound at hok
  split at hok
  case h_1 binding hb =>
    rw [pure_eq_ok] at hok
    injection hok with hreg hbind
    subst hreg hbind
    exact .inl ⟨hb, rfl⟩
  case h_2 hb =>
    split at hok
    case h_1 => cases hok
    case h_2 slot rest hslots =>
      simp only [bind_eq_ok, pure_eq_ok, add_eq_ok] at hok
      obtain ⟨n, hn, heq⟩ := hok
      injection heq with hreg hbind
      subst hreg hbind
      exact .inr ⟨hb, slot, rest, hslots, rfl, rfl, rfl, rfl, hn, rfl, rfl⟩

@[simp] theorem assertCapMatchesRound_eq_ok {reg : HashShareRegistry}
    {r : U64} {cap : ID} {u : Unit} :
    assertCapMatchesRound reg r cap = .ok u
      ↔ ∃ b, reg.rounds r = some b ∧ b.capId = cap := by
  simp only [assertCapMatchesRound, bind_eq_ok, fetch_eq_ok, require_eq_ok]

end M1n3Protocol
