/-
How fast the slots go, and whether a round's miners get one they can mint
on.

# What it comes to

Which caps are worth minting on is judged off chain, so it is a parameter
here. A round that has not begun can take a slot, and a made-up slot
stands in the queue like any other: both are the callers' to do. Where
they do neither, the genuine slots stand before the made-up ones, and the
current round has a genuine one or gets one when it asks.

# The shape

`SlotsTimely` is kept by one registration or binding under the condition,
and by the rounds moving on under none.
-/
import M1n3Protocol.Proofs.SlotLedger
import M1n3Protocol.Chain.MiningStep

namespace M1n3Protocol

open Checked

variable {H : HashFn} {publisher : Address}

-- ============================================================== the rounds

/-- The current round never goes back. -/
theorem Mining.Step.round_le {ctx : TxContext} {m m' : Mining}
    {ev : MiningEvent} (hs : Mining.Step H ctx m ev m') :
    m.pool.currentRound ≤ m'.pool.currentRound := by
  have hsame := BitVec.le_refl m.pool.currentRound
  cases hs with
  | quiet hq =>
      dsimp only
      rw [hq.round]
      exact hsame
  | finalize hacc hok =>
      obtain ⟨-, -, hround, -⟩ := finalizeRound_ok hok
      rw [BitVec.le_def]
      dsimp only
      rw [hround]
      exact Nat.le_succ _
  | createRoundStats | closeRoundStats | createDedup | dropHashes
  | deleteDedup | share | clearReceipts | mint | openAccumulator | skip
  | count | consume => exact hsame

theorem World.exec_round {w w' : World} {c : Call}
    (hs : w.exec H c = .ok w') :
    w.mining.pool.currentRound ≤ w'.mining.pool.currentRound :=
  (World.exec_mining hs).preserves
    (P := fun m => w.mining.pool.currentRound ≤ m.pool.currentRound)
    (fun _ _ _ hle hs => BitVec.le_trans hle hs.round_le) (BitVec.le_refl _)

-- =========================================================== the condition

/-- A genuine cap is registered neither behind a made-up one nor for a
round that has taken one; and a round takes no slot before it begins. -/
def slotsInTurn (genuine : ID → Prop) (w : World) : Call → Prop
  | .slot (.registerSlot capId _) => genuine capId →
      (∀ slot ∈ w.slots.registry.availableSlots, genuine slot.capId)
        ∧ ∀ b, w.slots.registry.rounds w.mining.pool.currentRound = some b →
          genuine b.capId
  | .slot (.bindSlotToRound r) => w.slots.registry.rounds r = none →
      r ≤ w.mining.pool.currentRound
  | _ => True

structure SlotsTimely (genuine : ID → Prop) (reg : HashShareRegistry)
    (round : U64) : Prop where
  begun : ∀ r b, reg.rounds r = some b → r ≤ round
  in_front : reg.availableSlots.Pairwise fun slot later =>
    genuine later.capId → genuine slot.capId
  current : (∃ slot ∈ reg.availableSlots, genuine slot.capId) →
    ∀ b, reg.rounds round = some b → genuine b.capId

section
variable {genuine : ID → Prop} {reg reg' : HashShareRegistry}
  {round round' : U64}

theorem SlotsTimely.init :
    SlotsTimely genuine (HashShareRegistry.init publisher) round where
  begun _ _ h := by cases h
  in_front := .nil
  current _ _ h := by cases h

/-- A later round has no slot yet. -/
theorem SlotsTimely.later (ht : SlotsTimely genuine reg round)
    (hle : round ≤ round') : SlotsTimely genuine reg round' where
  begun r b hr := BitVec.le_trans (ht.begun r b hr) hle
  in_front := ht.in_front
  current hqueued b hb := by
    have hback := ht.begun round' b hb
    have hsame : round' = round := by
      rw [BitVec.le_def] at hback hle
      exact BitVec.eq_of_toNat_eq (Nat.le_antisymm hback hle)
    exact ht.current hqueued b (hsame ▸ hb)

theorem SlotsTimely.register (ht : SlotsTimely genuine reg round)
    {capId : ID} {label : Bytes}
    (hcond : genuine capId →
      (∀ slot ∈ reg.availableSlots, genuine slot.capId)
        ∧ ∀ b, reg.rounds round = some b → genuine b.capId)
    (hok : registerSlot reg capId label = .ok reg') :
    SlotsTimely genuine reg' round := by
  obtain ⟨-, -, hslots, hrounds, -⟩ := registerSlot_ok hok
  constructor
  · rw [hrounds]
    exact ht.begun
  · rw [hslots, List.pairwise_append]
    refine ⟨ht.in_front, List.pairwise_singleton .., ?_⟩
    intro slot hslot later hlater hgenuine
    rw [List.mem_singleton] at hlater
    subst hlater
    exact (hcond hgenuine).1 slot hslot
  · rw [hslots, hrounds]
    rintro ⟨slot, hslot, hgenuine⟩
    rw [List.mem_append, List.mem_singleton] at hslot
    rcases hslot with hslot | rfl
    · exact ht.current ⟨slot, hslot, hgenuine⟩
    · exact (hcond hgenuine).2

/-- What is taken while a genuine slot stands behind it is genuine. -/
theorem SlotsTimely.take (ht : SlotsTimely genuine reg round) {r : U64}
    {b : RoundBinding} (hcond : reg.rounds r = none → r ≤ round)
    (hok : bindSlotToRound reg r = .ok (reg', b)) :
    SlotsTimely genuine reg' round := by
  rcases bindSlotToRound_ok hok with ⟨-, rfl⟩
    | ⟨hnone, slot, rest, hslots, hb, hrest, -, hrounds, -⟩
  · exact ht
  have hfront := ht.in_front
  rw [hslots, List.pairwise_cons] at hfront
  obtain ⟨hhead, hfront⟩ := hfront
  constructor
  · rw [hrounds]
    intro r' b' hr'
    by_cases hrr : r' = r
    · rw [hrr]
      exact hcond hnone
    · exact ht.begun r' b' ((if_neg hrr).symm.trans hr')
  · rw [hrest]
    exact hfront
  · rw [hrest, hrounds]
    rintro ⟨later, hlater, hgenuine⟩ b' hb'
    by_cases hrr : round = r
    · have heq : some b = some b' := (if_pos hrr).symm.trans hb'
      injection heq with heq
      rw [← heq, hb]
      exact hhead later hlater hgenuine
    · have hin : later ∈ reg.availableSlots := by
        rw [hslots]
        exact List.mem_cons_of_mem _ hlater
      exact ht.current ⟨later, hin, hgenuine⟩ b'
        ((if_neg hrr).symm.trans hb')

end

/-- A call off the registry leaves the queue and the bindings. -/
theorem SlotsTimely.step {genuine : ID → Prop} {s s' : Slots} {c : Call}
    {w : World} (hw : w.slots = s)
    (ht : SlotsTimely genuine s.registry w.mining.pool.currentRound)
    (hcond : slotsInTurn genuine w c) (hs : Slots.Step s c s') :
    SlotsTimely genuine s'.registry w.mining.pool.currentRound := by
  subst hw
  cases hs with
  | settings hslots hcaps hrounds =>
      constructor
      · dsimp only
        rw [hrounds]
        exact ht.begun
      · dsimp only
        rw [hslots]
        exact ht.in_front
      · dsimp only
        rw [hslots, hrounds]
        exact ht.current
  | register hok => exact ht.register hcond hok
  | bind hok => exact ht.take hcond hok
  | createCurrency | coinMint | coinBurn | treasuryIntoSupply | coinSplit
  | coinJoin | mintShare | redeem => exact ht

theorem slotsTimely_of_reach {genuine : ID → Prop} {w : World}
    (h : Machine.ReachVia (contract H publisher) (slotsInTurn genuine) w) :
    SlotsTimely genuine w.slots.registry w.mining.pool.currentRound := by
  refine Machine.ReachVia.invariant (I := fun w =>
    SlotsTimely genuine w.slots.registry w.mining.pool.currentRound)
    .init ?_ h
  intro w c w' ht hcond hs
  refine SlotsTimely.later ?_ (World.exec_round hs)
  rcases World.exec_slots hs with ⟨-, hstep⟩ | ⟨-, hsame⟩
  · exact ht.step rfl hcond hstep
  · rw [hsame]
    exact ht

-- ================================================================ the rate

/-- Distinct rounds up to the current one are no more than it counts. -/
theorem length_le_of_rounds {rounds : List U64} {round : U64}
    (hnodup : rounds.Nodup) (hle : ∀ r ∈ rounds, r ≤ round) :
    rounds.length ≤ round.toNat + 1 := by
  have hmap : (rounds.map BitVec.toNat).Nodup :=
    hnodup.map fun _ _ h => BitVec.eq_of_toNat_eq h
  have hsub : rounds.map BitVec.toNat ⊆ List.range (round.toNat + 1) := by
    intro n hn
    obtain ⟨r, hr, rfl⟩ := List.mem_map.mp hn
    exact List.mem_range.mpr (Nat.lt_succ_of_le (hle r hr))
  have hlen := (hmap.subperm hsub).length_le
  rwa [List.length_map, List.length_range] at hlen

/-- The queue holds what was registered and not taken, so a round that
asks while it is not empty gets the slot at its head. -/
theorem bindSlotToRound_of_queued {w : World}
    (h : Machine.Reach (contract H publisher) w) {r : U64}
    {slot : AvailableSlot} {rest : List AvailableSlot}
    (hnone : w.slots.registry.rounds r = none)
    (hslots : w.slots.registry.availableSlots = slot :: rest) :
    ∃ reg b, bindSlotToRound w.slots.registry r = .ok (reg, b)
      ∧ b.capId = slot.capId ∧ reg.rounds r = some b := by
  obtain ⟨log, hl⟩ := exists_slotLedger h
  have htotals := hl.totals
  rw [hslots, List.length_cons] at htotals
  have hroom : w.slots.registry.totalBound.toNat + (1 : U64).toNat
      < 2 ^ 64 := by
    have hmax := w.slots.registry.totalRegistered.isLt
    have hone : (1 : U64).toNat = 1 := rfl
    omega
  obtain ⟨n, hn, -⟩ := add_of_lt Abort.arithmetic hroom
  have hsucceeds : ∃ out, bindSlotToRound w.slots.registry r = .ok out := by
    simp only [bindSlotToRound, hnone, hslots]
    exact ⟨_, bind_eq_ok.mpr ⟨n, hn, rfl⟩⟩
  obtain ⟨⟨reg, b⟩, hok⟩ := hsucceeds
  rcases bindSlotToRound_ok hok with ⟨hsome, -⟩
    | ⟨-, head, _, hhead, hb, -, -, hrounds, -⟩
  · rw [hnone] at hsome
    cases hsome
  · rw [hslots] at hhead
    injection hhead with hhead
    refine ⟨reg, b, hok, ?_, (congrFun hrounds r).trans (if_pos rfl)⟩
    rw [hb, hhead]

/-- Where nobody registers a genuine cap behind a made-up one or binds a
round to come: only rounds that have begun have slots, one each; and
while a genuine cap waits, binding the current round gives a genuine cap,
the one its mints are checked against. -/
theorem slots_at_round_rate {genuine : ID → Prop} {w : World}
    (h : Machine.ReachVia (contract H publisher) (slotsInTurn genuine) w) :
    (∀ r b, w.slots.registry.rounds r = some b →
        r ≤ w.mining.pool.currentRound)
      ∧ w.slots.registry.totalBound.toNat
          ≤ w.mining.pool.currentRound.toNat + 1
      ∧ ((∃ slot ∈ w.slots.registry.availableSlots, genuine slot.capId) →
          ∃ reg b, bindSlotToRound w.slots.registry
                w.mining.pool.currentRound = .ok (reg, b)
            ∧ genuine b.capId
            ∧ assertCapMatchesRound reg w.mining.pool.currentRound b.capId
              = .ok ()) := by
  have ht := slotsTimely_of_reach h
  refine ⟨ht.begun, ?_, ?_⟩
  · obtain ⟨log, hl⟩ := exists_slotLedger h.reach
    rw [hl.bound_total]
    refine length_le_of_rounds hl.rounds_once fun r hr => ?_
    obtain ⟨b, hb⟩ := (hl.mem_bound r).mp hr
    exact ht.begun r b hb
  · rintro ⟨slot, hslot, hgenuine⟩
    cases hround : w.slots.registry.rounds w.mining.pool.currentRound with
    | some b =>
        have hb : genuine b.capId :=
          ht.current ⟨slot, hslot, hgenuine⟩ b hround
        exact ⟨_, b, bindSlotToRound_of_bound hround, hb,
          assertCapMatchesRound_eq_ok.mpr ⟨b, hround, rfl⟩⟩
    | none =>
        -- The head is that slot, or stands before it.
        cases hslots : w.slots.registry.availableSlots with
        | nil =>
            rw [hslots] at hslot
            cases hslot
        | cons head rest =>
            have hhead : genuine head.capId := by
              have hfront := ht.in_front
              rw [hslots] at hslot hfront
              rcases List.mem_cons.mp hslot with rfl | hrest
              · exact hgenuine
              · exact List.rel_of_pairwise_cons hfront hrest hgenuine
            obtain ⟨reg, b, hok, hcap, hbound⟩ :=
              bindSlotToRound_of_queued h.reach hround hslots
            exact ⟨reg, b, hok, hcap ▸ hhead,
              assertCapMatchesRound_eq_ok.mpr ⟨b, hbound, rfl⟩⟩

/-- The condition, tested. -/
def inTurn (genuine : ID → Bool) (w : World) : Call → Bool
  | .slot (.registerSlot capId _) => !genuine capId
      || (w.slots.registry.availableSlots.all fun slot => genuine slot.capId)
        && (w.slots.registry.rounds w.mining.pool.currentRound).all
          fun b => genuine b.capId
  | .slot (.bindSlotToRound r) => (w.slots.registry.rounds r).isSome
      || decide (r ≤ w.mining.pool.currentRound)
  | _ => true

theorem slotsInTurn_of_inTurn {genuine : ID → Bool} (w : World) (c : Call)
    (h : inTurn genuine w c = true) :
    slotsInTurn (fun id => genuine id = true) w c := by
  cases c with
  | slot c =>
      cases c with
      | registerSlot capId label =>
          intro hgenuine
          simp only [inTurn, hgenuine, Bool.not_true, Bool.false_or,
            Bool.and_eq_true, List.all_eq_true] at h
          refine ⟨h.1, fun b hb => ?_⟩
          have hall := h.2
          rw [hb] at hall
          exact hall
      | bindSlotToRound r =>
          intro hnone
          simp only [inTurn, hnone, Option.isSome_none, Bool.false_or] at h
          exact of_decide_eq_true h
      | _ => trivial
  | _ => trivial

/-- Two genuine slots, a made-up one behind them, and round 0 bound. -/
def genuineFirst : List Call :=
  [.slot .createCurrency,
   .slot .createCurrency,
   .slot (.registerSlot 0 []),
   .slot (.registerSlot 1 []),
   .beginTx 9 0 0,
   .slot (.registerSlot 70 []),
   .slot (.bindSlotToRound 0)]

/-- Round 0 mints on a genuine cap, and the next one waits. -/
theorem slots_at_round_rate_genuineFirst :
    ∃ w, Machine.ReachVia (contract sha256 0)
        (slotsInTurn fun id => decide (id < 2) = true) w
      ∧ (∃ slot ∈ w.slots.registry.availableSlots, slot.capId = 1)
      ∧ ∃ reg b, bindSlotToRound w.slots.registry w.mining.pool.currentRound
            = .ok (reg, b)
        ∧ b.capId < 2 := by
  have hrun : (contract sha256 0).endsFrom (inTurn fun id => decide (id < 2))
      (fun w => w.slots.registry.availableSlots.any fun slot =>
        decide (slot.capId = 1))
      genuineFirst (World.init 0) = true := by
    decide +kernel
  obtain ⟨w, hw, hcheck⟩ := Machine.reachVia_of_endsFrom
    slotsInTurn_of_inTurn .init hrun
  obtain ⟨slot, hslot, hcap⟩ := List.any_eq_true.mp hcheck
  replace hcap : slot.capId = 1 := of_decide_eq_true hcap
  obtain ⟨-, -, husable⟩ := slots_at_round_rate hw
  obtain ⟨reg, b, hok, hb, -⟩ :=
    husable ⟨slot, hslot, by rw [hcap]; decide⟩
  exact ⟨w, hw, ⟨slot, hslot, hcap⟩, reg, b, hok, of_decide_eq_true hb⟩

/-- An outsider registers two made-up slots before the genuine one, has
round 5 take the first, and round 0 the second. -/
def madeUpFirst : List Call :=
  [.slot .createCurrency,
   .beginTx 9 0 0,
   .slot (.registerSlot 70 []),
   .slot (.registerSlot 71 []),
   .slot (.bindSlotToRound 5),
   .beginTx 0 0 0,
   .slot (.registerSlot 0 []),
   .beginTx 9 0 0,
   .slot (.bindSlotToRound 0)]

/-- A slot is gone to a round that has not begun; and while the one
genuine cap waits, the current round is on a made-up one, whatever comes
after. -/
theorem slots_taken_by_outsider :
    ∃ w, Machine.Reach (contract sha256 0) w
      ∧ (∃ r b, w.slots.registry.rounds r = some b
          ∧ w.mining.pool.currentRound < r)
      ∧ (∃ slot ∈ w.slots.registry.availableSlots, slot.capId = 0)
      ∧ ∀ w', (contract sha256 0).Leads w w' →
          ∀ reg b, bindSlotToRound w'.slots.registry
            w.mining.pool.currentRound = .ok (reg, b) → b.capId ≠ 0 := by
  have hrun : (contract sha256 0).endsIn madeUpFirst (fun w =>
      ((w.slots.registry.rounds 5).isSome
        && decide (w.mining.pool.currentRound < 5))
      && (w.slots.registry.availableSlots.any fun slot =>
          decide (slot.capId = 0))
      && (w.slots.registry.rounds w.mining.pool.currentRound).any
          fun b => decide (b.capId ≠ 0)) = true := by
    decide +kernel
  obtain ⟨w, hw, hcheck⟩ := Machine.reach_of_endsIn hrun
  simp only [Bool.and_eq_true] at hcheck
  obtain ⟨⟨⟨hearly, hround⟩, hqueued⟩, hbound⟩ := hcheck
  obtain ⟨early, hearly⟩ := Option.isSome_iff_exists.mp hearly
  obtain ⟨slot, hslot, hcap⟩ := List.any_eq_true.mp hqueued
  obtain ⟨b, hb, hmade⟩ := (Option.any_eq_true ..).mp hbound
  refine ⟨w, hw, ⟨5, early, hearly, of_decide_eq_true hround⟩,
    ⟨slot, hslot, of_decide_eq_true hcap⟩, ?_⟩
  intro w' hw' reg b' hok
  rw [bindSlotToRound_of_bound (rounds_kept hw' hb)] at hok
  injection hok with hok
  injection hok with _ hok
  rw [← hok]
  exact of_decide_eq_true hmade

end M1n3Protocol
