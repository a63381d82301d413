/-
The slot registry as a ledger: what it holds at any time is read off two
lists, the slots in the order they were registered and the rounds in the
order they took one.

# What it rests on

`SlotLog` is those two lists, written from the calls and read by none.
`SlotLedger` ties the registry's queue, map, key set and counters to
them: the queue is the registered slots without the first so many, and
the k-th round to take a slot took the k-th slot. One lemma for a
registration, one for a binding; no other call moves either side.

# What others may do

Nothing is asked of the calls. Rounds are bound in any order, in time or
far ahead, by anyone.
-/
import M1n3Protocol.Chain.SlotStep

namespace M1n3Protocol

open Checked

structure SlotLog where
  registered : List AvailableSlot
  bound : List U64

def SlotLog.empty : SlotLog := ⟨[], []⟩

/-- A registration is taken down, and a binding unless the round has one
already. -/
def SlotLog.record (reg : HashShareRegistry) (log : SlotLog) :
    Call → SlotLog
  | .slot (.registerSlot capId label) =>
      { log with registered := log.registered ++ [⟨capId, label⟩] }
  | .slot (.bindSlotToRound roundId) =>
      match reg.rounds roundId with
      | some _ => log
      | none => { log with bound := log.bound ++ [roundId] }
  | _ => log

/-- The contract with the log of its slots. -/
def slotLogged (H : HashFn) (publisher : Address) :
    Machine Abort (World × SlotLog) Call :=
  (contract H publisher).withGhost .empty
    fun w c _ log => log.record w.slots.registry c

/-- The k-th round in the log to take a slot is `r`, and its binding says
so. -/
structure SlotLog.Binds (log : SlotLog) (k : Nat) (r : U64)
    (b : RoundBinding) : Prop where
  round : log.bound[k]? = some r
  slot : log.registered[k]? = some ⟨b.capId, b.label⟩
  index : b.boundAtRoundIdx.toNat = k

structure SlotLedger (reg : HashShareRegistry) (log : SlotLog) : Prop where
  queue : reg.availableSlots = log.registered.drop log.bound.length
  within : log.bound.length ≤ log.registered.length
  caps : reg.registeredCaps = (log.registered.map AvailableSlot.capId).reverse
  caps_once : (log.registered.map AvailableSlot.capId).Nodup
  rounds_once : log.bound.Nodup
  binding : ∀ r b, reg.rounds r = some b ↔ ∃ k, log.Binds k r b
  bound_total : reg.totalBound.toNat = log.bound.length
  registered_total : reg.totalRegistered.toNat = log.registered.length

variable {H : HashFn} {reg reg' : HashShareRegistry} {log : SlotLog}

-- ============================================================== one call

theorem SlotLedger.init (publisher : Address) :
    SlotLedger (HashShareRegistry.init publisher) .empty where
  queue := rfl
  within := Nat.le_refl _
  caps := rfl
  caps_once := List.nodup_nil
  rounds_once := List.nodup_nil
  binding r b := by
    constructor
    · intro h
      cases h
    · rintro ⟨k, h⟩
      cases h.round
  bound_total := rfl
  registered_total := rfl

/-- A slot of a longer list of registrations binds what it did. -/
theorem SlotLog.Binds.of_register {k : Nat} {r : U64} {b : RoundBinding}
    (h : log.Binds k r b) (slot : AvailableSlot) :
    SlotLog.Binds { log with registered := log.registered ++ [slot] } k r b
    where
  round := h.round
  slot := by
    obtain ⟨hlt, -⟩ := List.getElem?_eq_some_iff.mp h.slot
    rw [List.getElem?_append_left hlt]
    exact h.slot
  index := h.index

/-- A round that comes to the end of the list takes the slot at that
place; the others keep theirs. -/
theorem SlotLog.binds_take {k : Nat} {r roundId : U64} {b : RoundBinding} :
    SlotLog.Binds { log with bound := log.bound ++ [roundId] } k r b
      ↔ log.Binds k r b ∨ k = log.bound.length ∧ r = roundId
        ∧ log.registered[k]? = some ⟨b.capId, b.label⟩
        ∧ b.boundAtRoundIdx.toNat = k := by
  constructor
  · rintro ⟨hround, hslot, hindex⟩
    dsimp only at hround hslot
    by_cases hk : k < log.bound.length
    · rw [List.getElem?_append_left hk] at hround
      exact .inl ⟨hround, hslot, hindex⟩
    · obtain ⟨hklt, -⟩ := List.getElem?_eq_some_iff.mp hround
      rw [List.length_append, List.length_singleton] at hklt
      have hlast : k = log.bound.length := by omega
      rw [hlast, List.getElem?_concat_length, Option.some.injEq] at hround
      exact .inr ⟨hlast, hround.symm, hslot, hindex⟩
  · rintro (h | ⟨rfl, rfl, hslot, hindex⟩)
    · obtain ⟨hlt, -⟩ := List.getElem?_eq_some_iff.mp h.round
      refine ⟨?_, h.slot, h.index⟩
      dsimp only
      rw [List.getElem?_append_left hlt]
      exact h.round
    · exact ⟨List.getElem?_concat_length, hslot, hindex⟩

/-- The rounds that have taken a slot are those with a binding. -/
theorem SlotLedger.mem_bound (hl : SlotLedger reg log) (r : U64) :
    r ∈ log.bound ↔ ∃ b, reg.rounds r = some b := by
  constructor
  · intro hr
    obtain ⟨k, hk⟩ := List.mem_iff_getElem?.mp hr
    obtain ⟨hlt, -⟩ := List.getElem?_eq_some_iff.mp hk
    have hslot : k < log.registered.length := Nat.lt_of_lt_of_le hlt hl.within
    have hword : k < 2 ^ 64 := by
      have hcount := hl.bound_total
      have hmax := reg.totalBound.isLt
      omega
    refine ⟨⟨log.registered[k].capId, log.registered[k].label,
      BitVec.ofNat 64 k⟩, (hl.binding r _).mpr ⟨k, hk, ?_, ?_⟩⟩
    · exact List.getElem?_eq_getElem hslot
    · rw [BitVec.toNat_ofNat]
      exact Nat.mod_eq_of_lt hword
  · rintro ⟨b, hb⟩
    obtain ⟨k, hk⟩ := (hl.binding r b).mp hb
    exact List.mem_of_getElem? hk.round

theorem SlotLedger.register (hl : SlotLedger reg log) {capId : ID}
    {label : Bytes} (hok : registerSlot reg capId label = .ok reg') :
    SlotLedger reg'
      { log with registered := log.registered ++ [⟨capId, label⟩] } := by
  obtain ⟨hnew, hcaps, hslots, hrounds, hbound, htotal, -⟩ :=
    registerSlot_ok hok
  constructor
  case queue =>
    dsimp only
    rw [hslots, hl.queue, List.drop_append_of_le_length hl.within]
  case within =>
    dsimp only
    rw [List.length_append]
    exact Nat.le_add_right_of_le hl.within
  case caps =>
    dsimp only
    rw [hcaps, hl.caps, List.map_append, List.reverse_append]
    rfl
  case caps_once =>
    -- The key set refuses a cap that was ever registered.
    have hfresh : capId ∉ log.registered.map AvailableSlot.capId := by
      rwa [hl.caps, List.mem_reverse] at hnew
    dsimp only
    rw [List.map_append, List.map_singleton, ← List.concat_eq_append]
    exact hl.caps_once.concat hfresh
  case rounds_once => exact hl.rounds_once
  case binding =>
    intro r b
    rw [hrounds, hl.binding]
    constructor
    · rintro ⟨k, hk⟩
      exact ⟨k, hk.of_register _⟩
    · rintro ⟨k, hk⟩
      -- A round takes a slot registered before it.
      have hlt : k < log.registered.length := by
        obtain ⟨hlt, -⟩ := List.getElem?_eq_some_iff.mp hk.round
        exact Nat.lt_of_lt_of_le hlt hl.within
      refine ⟨k, hk.round, ?_, hk.index⟩
      have hslot := hk.slot
      dsimp only at hslot
      rwa [List.getElem?_append_left hlt] at hslot
  case bound_total => rw [hbound, hl.bound_total]
  case registered_total =>
    rw [htotal, hl.registered_total, List.length_append]
    rfl

/-- An unbound round takes the slot that is next in the log. -/
theorem SlotLedger.take (hl : SlotLedger reg log) {roundId : U64}
    {b : RoundBinding} (hnone : reg.rounds roundId = none)
    (hok : bindSlotToRound reg roundId = .ok (reg', b)) :
    SlotLedger reg' { log with bound := log.bound ++ [roundId] } := by
  rcases bindSlotToRound_ok hok with ⟨hsome, -⟩
    | ⟨-, slot, rest, hslots, hb, hrest, hcaps, hrounds, htotal, hregd, -⟩
  · rw [hnone] at hsome
    cases hsome
  have hdrop : log.registered.drop log.bound.length = slot :: rest := by
    rw [← hl.queue, hslots]
  have hhead : log.registered[log.bound.length]? = some slot := by
    rw [← List.head?_drop, hdrop]
    rfl
  have hlt : log.bound.length < log.registered.length :=
    (List.getElem?_eq_some_iff.mp hhead).1
  have hfresh : roundId ∉ log.bound := by
    intro hmem
    obtain ⟨b', hb'⟩ := (hl.mem_bound roundId).mp hmem
    rw [hnone] at hb'
    cases hb'
  constructor
  case queue =>
    dsimp only
    rw [hrest, List.length_append, List.length_singleton, ← List.drop_drop,
      hdrop]
    rfl
  case within =>
    dsimp only
    rw [List.length_append]
    exact hlt
  case caps => rw [hcaps, hl.caps]
  case caps_once => exact hl.caps_once
  case rounds_once =>
    dsimp only
    rw [← List.concat_eq_append]
    exact hl.rounds_once.concat hfresh
  case binding =>
    intro r b'
    rw [hrounds]
    dsimp only
    simp only [SlotLog.binds_take, exists_or]
    rw [← hl.binding]
    by_cases hrr : r = roundId
    · subst hrr
      rw [if_pos rfl, hnone]
      constructor
      · intro hsome
        injection hsome with hsame
        rw [← hsame, hb]
        exact .inr ⟨_, rfl, rfl, hhead, hl.bound_total⟩
      · rintro (hsome | ⟨k, rfl, -, hslot, hindex⟩)
        · cases hsome
        · rw [hhead] at hslot
          obtain ⟨capId, label, idx⟩ := b'
          cases hslot
          have hidx : idx = reg.totalBound :=
            BitVec.eq_of_toNat_eq (hindex.trans hl.bound_total.symm)
          rw [hb, hidx]
    · rw [if_neg hrr]
      constructor
      · exact .inl
      · rintro (hold | ⟨k, -, heq, -⟩)
        · exact hold
        · exact absurd heq hrr
  case bound_total =>
    rw [htotal, hl.bound_total, List.length_append]
    rfl
  case registered_total => rw [hregd, hl.registered_total]

/-- A call off the slots writes nothing. -/
theorem SlotLog.record_of_off {c : Call} (hoff : c.onSlots = false) :
    log.record reg c = log := by
  cases c with
  | slot => cases hoff
  | _ => rfl

/-- Whatever a call does to the slots, the log follows. -/
theorem SlotLedger.step {s s' : Slots} {c : Call}
    (hl : SlotLedger s.registry log) (hs : Slots.Step s c s') :
    SlotLedger s'.registry (log.record s.registry c) := by
  cases hs with
  | settings hslots hcaps hrounds hbound hregistered =>
      constructor
      case queue => exact hslots.trans hl.queue
      case within => exact hl.within
      case caps => exact hcaps.trans hl.caps
      case caps_once => exact hl.caps_once
      case rounds_once => exact hl.rounds_once
      case binding =>
        dsimp only
        rw [hrounds]
        exact hl.binding
      case bound_total =>
        dsimp only
        rw [hbound]
        exact hl.bound_total
      case registered_total =>
        dsimp only
        rw [hregistered]
        exact hl.registered_total
  | register hok => exact hl.register hok
  | @bind roundId registry b hok =>
      cases hr : s.registry.rounds roundId with
      | none =>
          have hlog : log.record s.registry (.slot (.bindSlotToRound roundId))
              = { log with bound := log.bound ++ [roundId] } := by
            simp only [SlotLog.record, hr]
          rw [hlog]
          exact hl.take hr hok
      | some b' =>
          have hlog : log.record s.registry (.slot (.bindSlotToRound roundId))
              = log := by
            simp only [SlotLog.record, hr]
          rw [hlog]
          rcases bindSlotToRound_ok hok with ⟨-, rfl⟩ | ⟨hnone, -⟩
          · exact hl
          · rw [hr] at hnone
            cases hnone
  | createCurrency | coinMint | coinBurn | treasuryIntoSupply | coinSplit
  | coinJoin | mintShare | redeem => exact hl

theorem slotLedger_of_reach {publisher : Address} {w : World}
    (h : Machine.Reach (slotLogged H publisher) (w, log)) :
    SlotLedger w.slots.registry log := by
  refine Machine.ReachVia.withGhost_invariant
    (I := fun w log => SlotLedger w.slots.registry log)
    (SlotLedger.init publisher) ?_ h
  intro w c w' log _ hl _ hexec
  rcases World.exec_slots hexec with ⟨-, hstep⟩ | ⟨hoff, hsame⟩
  · exact hl.step hstep
  · rw [hsame, SlotLog.record_of_off hoff]
    exact hl

/-- Every reachable registry is one such log's. -/
theorem exists_slotLedger {publisher : Address} {w : World}
    (h : Machine.Reach (contract H publisher) w) :
    ∃ log, SlotLedger w.slots.registry log := by
  obtain ⟨log, hlog⟩ := h.withGhost SlotLog.empty
    fun w c _ log => log.record w.slots.registry c
  exact ⟨log, slotLedger_of_reach hlog⟩

-- ======================================================== what it gives

/-- A cap is the slot of one round. -/
theorem SlotLedger.bound_once (hl : SlotLedger reg log) {r r' : U64}
    {b b' : RoundBinding} (hr : reg.rounds r = some b)
    (hr' : reg.rounds r' = some b') (hcap : b.capId = b'.capId) : r = r' := by
  obtain ⟨k, hk⟩ := (hl.binding r b).mp hr
  obtain ⟨k', hk'⟩ := (hl.binding r' b').mp hr'
  have hcapAt : (log.registered.map AvailableSlot.capId)[k]?
      = some b.capId := by
    rw [List.getElem?_map, hk.slot]
    rfl
  have hcapAt' : (log.registered.map AvailableSlot.capId)[k']?
      = some b.capId := by
    rw [List.getElem?_map, hk'.slot, hcap]
    rfl
  -- Registered once, so at one place in the log; and a place is one round's.
  obtain ⟨hlt, -⟩ := List.getElem?_eq_some_iff.mp hcapAt
  have hsame : k = k' := by
    refine (List.getElem?_inj hlt hl.caps_once).mp ?_
    rw [hcapAt, hcapAt']
  have hround := hk.round
  rw [hsame, hk'.round, Option.some.injEq] at hround
  exact hround.symm

/-- The queue and the bindings share out what was registered. -/
theorem SlotLedger.totals (hl : SlotLedger reg log) :
    reg.totalRegistered.toNat
      = reg.totalBound.toNat + reg.availableSlots.length := by
  have hlen : reg.availableSlots.length
      = log.registered.length - log.bound.length := by
    rw [hl.queue, List.length_drop]
  have hwithin := hl.within
  rw [hl.registered_total, hl.bound_total, hlen]
  omega

theorem bindSlotToRound_of_bound {r : U64} {b : RoundBinding}
    (hr : reg.rounds r = some b) : bindSlotToRound reg r = .ok (reg, b) := by
  simp only [bindSlotToRound, hr]
  rfl

/-- No call unbinds a round or binds it anew. -/
theorem Slots.Step.rounds_kept {s s' : Slots} {c : Call}
    (hs : Slots.Step s c s') {r : U64} {b : RoundBinding}
    (hr : s.registry.rounds r = some b) :
    s'.registry.rounds r = some b := by
  cases hs with
  | settings _ _ hrounds => exact (congrFun hrounds r).trans hr
  | register hok =>
      obtain ⟨-, -, -, hrounds, -⟩ := registerSlot_ok hok
      exact (congrFun hrounds r).trans hr
  | @bind roundId registry b' hok =>
      rcases bindSlotToRound_ok hok with ⟨-, rfl⟩
        | ⟨hnone, slot, rest, -, -, -, -, hrounds, -⟩
      · exact hr
      · have hne : r ≠ roundId := by
          rintro rfl
          rw [hr] at hnone
          cases hnone
        exact (congrFun hrounds r).trans ((if_neg hne).trans hr)
  | createCurrency | coinMint | coinBurn | treasuryIntoSupply | coinSplit
  | coinJoin | mintShare | redeem => exact hr

theorem rounds_kept {publisher : Address} {w w' : World}
    (h : (contract H publisher).Leads w w') {r : U64} {b : RoundBinding}
    (hr : w.slots.registry.rounds r = some b) :
    w'.slots.registry.rounds r = some b := by
  refine Machine.ReachVia.invariant
    (I := fun w => w.slots.registry.rounds r = some b) hr ?_ h
  intro w c w' hr _ hs
  rcases World.exec_slots hs with ⟨-, hstep⟩ | ⟨-, hsame⟩
  · exact hstep.rounds_kept hr
  · rw [hsame]
    exact hr

-- =============================================================== bindings

/-- In every run, with the slots registered and the rounds that took one
in their order: a cap is registered once, the queue is the slots not yet
taken, and a round takes one slot at most. The k-th such round has the
k-th slot, and says so, and no other round is bound. A cap is the slot of
one round; a binding is for good, and binding its round again changes
nothing. The counters are what was registered and what was taken; and the
check of a round's cap passes for the cap bound to it and no other. -/
theorem slots_bound_in_order {publisher : Address} {w : World}
    {log : SlotLog} (h : Machine.Reach (slotLogged H publisher) (w, log)) :
    (log.registered.map AvailableSlot.capId).Nodup
      ∧ w.slots.registry.availableSlots
          = log.registered.drop log.bound.length
      ∧ log.bound.Nodup
      ∧ (∀ k r, log.bound[k]? = some r →
          ∃ b, w.slots.registry.rounds r = some b
            ∧ log.registered[k]? = some ⟨b.capId, b.label⟩
            ∧ b.boundAtRoundIdx.toNat = k)
      ∧ (∀ r b, w.slots.registry.rounds r = some b →
          log.bound[b.boundAtRoundIdx.toNat]? = some r)
      ∧ (∀ r r' b b', w.slots.registry.rounds r = some b →
          w.slots.registry.rounds r' = some b' → b.capId = b'.capId → r = r')
      ∧ (∀ r b, w.slots.registry.rounds r = some b →
          w.exec H (.slot (.bindSlotToRound r)) = .ok w
            ∧ ∀ w', (contract H publisher).Leads w w' →
              w'.slots.registry.rounds r = some b)
      ∧ w.slots.registry.totalBound.toNat = log.bound.length
      ∧ w.slots.registry.totalRegistered.toNat
          = w.slots.registry.totalBound.toNat
            + w.slots.registry.availableSlots.length
      ∧ (∀ r cap, assertCapMatchesRound w.slots.registry r cap = .ok ()
          ↔ ∃ b, w.slots.registry.rounds r = some b ∧ b.capId = cap) := by
  have hl := slotLedger_of_reach h
  refine ⟨hl.caps_once, hl.queue, hl.rounds_once, ?_, ?_,
    fun r r' b b' => hl.bound_once, ?_, hl.bound_total, hl.totals,
    fun r cap => assertCapMatchesRound_eq_ok⟩
  · intro k r hk
    obtain ⟨b, hb⟩ := (hl.mem_bound r).mp (List.mem_of_getElem? hk)
    obtain ⟨k', hk'⟩ := (hl.binding r b).mp hb
    obtain ⟨hlt, -⟩ := List.getElem?_eq_some_iff.mp hk
    have hsame : k = k' := by
      refine (List.getElem?_inj hlt hl.rounds_once).mp ?_
      rw [hk, hk'.round]
    subst hsame
    exact ⟨b, hb, hk'.slot, hk'.index⟩
  · intro r b hb
    obtain ⟨k, hk⟩ := (hl.binding r b).mp hb
    rw [hk.index]
    exact hk.round
  · intro r b hb
    refine ⟨?_, fun w' hw' => rounds_kept hw' hb⟩
    simp only [World.exec, Slots.exec, bindSlotToRound_of_bound hb]
    rfl

/-- Two slots, bound to rounds 5 and 0, and round 5 bound again. -/
def outOfOrderRounds : List Call :=
  [.slot (.registerSlot 10 [97]),
   .slot (.registerSlot 11 [98]),
   .slot (.bindSlotToRound 5),
   .beginTx 3 0 0,
   .slot (.bindSlotToRound 5),
   .slot (.bindSlotToRound 0),
   .slot (.registerSlot 12 [99])]

/-- Round 0 is the second to take a slot, so it has the second slot. -/
theorem slots_bound_in_order_outOfOrderRounds :
    ∃ w log, Machine.Reach (slotLogged sha256 0) (w, log)
      ∧ log.bound = [5, 0]
      ∧ (∃ b, w.slots.registry.rounds 0 = some b
          ∧ log.registered[1]? = some ⟨b.capId, b.label⟩
          ∧ b.boundAtRoundIdx.toNat = 1)
      ∧ w.slots.registry.totalRegistered.toNat
          = w.slots.registry.totalBound.toNat
            + w.slots.registry.availableSlots.length := by
  have hrun : (slotLogged sha256 0).endsIn outOfOrderRounds
      (fun p => decide (p.2.bound = [5, 0])) = true := by
    decide +kernel
  obtain ⟨⟨w, log⟩, hw, hcheck⟩ := Machine.reach_of_endsIn hrun
  have hbound : log.bound = [5, 0] := of_decide_eq_true hcheck
  obtain ⟨-, -, -, hplaced, -, -, -, -, htotals, -⟩ :=
    slots_bound_in_order hw
  refine ⟨w, log, hw, hbound, hplaced 1 0 ?_, htotals⟩
  rw [hbound]
  rfl

end M1n3Protocol
