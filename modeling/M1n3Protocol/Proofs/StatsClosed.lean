/-
Whether the client closes a round's stats only after they were counted.

# What the contract does

`accumulate_miner_stats` consumes the object it counts, and no second one
is ever made for the same miner and round. So once a round is counted
there is nothing left for `close_mrs` to close.

# What the client does

It remembers a round as accumulated when `exec` answers, and `exec`
answers for an aborted transaction too. After an abort the stats are still
there, uncounted, and the client closes them as soon as the round moves
on. Where no accumulation is answered with an abort, every remembered
round was counted, and no call to close ever takes effect.
-/
import M1n3Protocol.Client.MinerClient
import M1n3Protocol.Proofs.Rounds

namespace M1n3Protocol

open Checked

variable {H : HashFn}

-- ============================================== the stats objects of a chain

/-- Ids and registrations stay, and so do the keys of the objects that
stay; any other object is new, under a key that was not registered. -/
structure Mining.StatsKept (m m' : Mining) : Prop where
  next_le : m.roundStats.next ≤ m'.roundStats.next
  registered : ∀ k ∈ m.roundRegistry, k ∈ m'.roundRegistry
  objects : ∀ i s', m'.roundStats.get i = some s' →
    (∃ s, m.roundStats.get i = some s ∧ s'.key = s.key)
      ∨ (m.roundStats.next ≤ i ∧ s'.key ∉ m.roundRegistry)

theorem Mining.StatsKept.refl (m : Mining) : m.StatsKept m where
  next_le := Nat.le_refl _
  registered _ h := h
  objects _ s h := .inl ⟨s, h, rfl⟩

theorem Mining.StatsKept.trans {m m' m'' : Mining} (h : m.StatsKept m')
    (h' : m'.StatsKept m'') : m.StatsKept m'' where
  next_le := Nat.le_trans h.next_le h'.next_le
  registered k hk := h'.registered k (h.registered k hk)
  objects i s'' hi := by
    rcases h'.objects i s'' hi with ⟨s', hi', hkey'⟩ | ⟨hnew, hkey'⟩
    · rw [hkey']
      rcases h.objects i s' hi' with ⟨s, hi, hkey⟩ | hnew
      · exact .inl ⟨s, hi, hkey⟩
      · exact .inr hnew
    · exact .inr ⟨Nat.le_trans h.next_le hnew,
        fun hk => hkey' (h.registered _ hk)⟩

/-- Where no object is made, it is enough that those left keep their
keys. -/
theorem Mining.StatsKept.of_same {m m' : Mining}
    (hnext : m'.roundStats.next = m.roundStats.next)
    (hregistry : m'.roundRegistry = m.roundRegistry)
    (hkeys : ∀ i s', m'.roundStats.get i = some s' →
      ∃ s, m.roundStats.get i = some s ∧ s'.key = s.key) :
    m.StatsKept m' where
  next_le := Nat.le_of_eq hnext.symm
  registered k hk := by
    rw [hregistry]
    exact hk
  objects i s' hi := .inl (hkeys i s' hi)

theorem get_erase_key {s : ObjStore MinerRoundStats} {id i : ID}
    {a : MinerRoundStats} (h : (s.erase id).get i = some a) :
    ∃ b, s.get i = some b ∧ a.key = b.key :=
  ⟨a, (ObjStore.get_erase_eq_some h).2, rfl⟩

theorem Mining.Step.statsKept {ctx : TxContext} {m m' : Mining}
    {ev : MiningEvent} (hs : Mining.Step H ctx m ev m') : m.StatsKept m' := by
  cases hs with
  | quiet | createDedup | dropHashes | deleteDedup | clearReceipts
  | openAccumulator | finalize | consume =>
      exact .of_same rfl rfl fun _ s h => ⟨s, h, rfl⟩
  | createRoundStats hok =>
      obtain ⟨hfresh, rfl, -⟩ := createRoundStats_ok hok
      refine ⟨Nat.le_succ _, fun k hk => List.mem_cons_of_mem _ hk, ?_⟩
      intro i s' hi
      rcases ObjStore.get_alloc_eq_some hi with ⟨rfl, rfl⟩ | hi
      · exact .inr ⟨Nat.le_refl _, hfresh⟩
      · exact .inl ⟨s', hi, rfl⟩
  | closeRoundStats | skip | count =>
      exact .of_same rfl rfl fun _ _ h => get_erase_key h
  | share h =>
      have hkey := key_of_recordShare h.accepted.record_ok
      exact .of_same rfl rfl fun _ _ hi => get_put_key h.round_get hkey hi
  | mint _ hget hok =>
      have hkey := key_of_recordSoldShare hok
      exact .of_same rfl rfl fun _ _ hi => get_put_key hget hkey hi

theorem World.exec_statsKept {w w' : World} {c : Call}
    (h : w.exec H c = .ok w') : w.mining.StatsKept w'.mining :=
  (World.exec_mining h).preserves (P := fun m => w.mining.StatsKept m)
    (fun _ _ _ hm hs => hm.trans hs.statsKept) (.refl _)

/-- Registered, and no object is left under it: none will ever be. -/
structure Mining.Gone (m : Mining) (k : MinerRoundKey) : Prop where
  registered : k ∈ m.roundRegistry
  none_left : ∀ i s, m.roundStats.get i = some s → s.key ≠ k

theorem Mining.Gone.kept {m m' : Mining} {k : MinerRoundKey} (h : m.Gone k)
    (hkept : m.StatsKept m') : m'.Gone k where
  registered := hkept.registered k h.registered
  none_left i s' hi := by
    rcases hkept.objects i s' hi with ⟨s, hi, hkey⟩ | ⟨-, hkey⟩
    · rw [hkey]
      exact h.none_left i s hi
    · exact fun heq => hkey (heq ▸ h.registered)

namespace Client

variable {publisher miner : Address}

-- ================================================================ the claim

/-- A round is remembered, and stats are closed, only after the stats were
counted. -/
structure ClosedCounted (s : State) : Prop where
  accumulated : ∀ r ∈ s.cache.accumulatedRounds, ∃ id, (id, r) ∈ s.counted
  closed : ∀ id ∈ s.closed, ∃ r, (id, r) ∈ s.counted

/-- No accumulation is executed with a failure status. -/
def Event.noFailedCount : Event → Bool
  | .pollAndAccumulate _ _ sent _ => sent ≠ .failed
  | _ => true

-- ============================================================ the invariant

/-- The object a cache holds, if it is still there, is the miner's of the
round; and every round it remembers was counted. -/
structure CacheOk (miner : Address) (m : Mining) (counted : List (ID × U64))
    (c : Cache) : Prop where
  held : ∀ id, c.minerRoundStatsId = some id → id < m.roundStats.next
    ∧ ∀ mrs, m.roundStats.get id = some mrs →
      mrs.key = ⟨miner, c.currentRound⟩
  accumulated : ∀ r ∈ c.accumulatedRounds, ∃ id, (id, r) ∈ counted

theorem CacheOk.new (miner : Address) (m : Mining)
    (counted : List (ID × U64)) : CacheOk miner m counted .new where
  held _ h := by cases h
  accumulated _ h := by cases h

theorem CacheOk.kept {m m' : Mining} {counted counted' : List (ID × U64)}
    {c : Cache} (h : CacheOk miner m counted c) (hkept : m.StatsKept m')
    (hcounted : ∀ e ∈ counted, e ∈ counted') :
    CacheOk miner m' counted' c where
  held id hid := by
    obtain ⟨hlt, hkey⟩ := h.held id hid
    refine ⟨Nat.lt_of_lt_of_le hlt hkept.next_le, fun mrs' hi => ?_⟩
    rcases hkept.objects id mrs' hi with ⟨mrs, hi, heq⟩ | ⟨hnew, -⟩
    · rw [heq]
      exact hkey mrs hi
    · exact absurd hlt (Nat.not_lt.mpr hnew)
  accumulated r hr := by
    obtain ⟨id, hid⟩ := h.accumulated r hr
    exact ⟨id, hcounted _ hid⟩

structure Inv (H : HashFn) (publisher miner : Address) (s : State) :
    Prop where
  reach : Machine.Reach (contract H publisher) s.world
  cache : CacheOk miner s.world.mining s.counted s.cache
  file : ∀ c ∈ s.stateFile, CacheOk miner s.world.mining s.counted c
  gone : ∀ e ∈ s.counted, s.world.mining.Gone ⟨miner, e.2⟩
  closed : s.closed = []

/-- More of the chain has happened, and nothing was counted in it. -/
theorem Inv.world {s : State} {w : World} (h : Inv H publisher miner s)
    (hreach : Machine.Reach (contract H publisher) w)
    (hkept : s.world.mining.StatsKept w.mining) :
    Inv H publisher miner { s with world := w } where
  reach := hreach
  cache := h.cache.kept hkept fun _ he => he
  file c hc := (h.file c hc).kept hkept fun _ he => he
  gone e he := (h.gone e he).kept hkept
  closed := h.closed

theorem Inv.saveState {s : State} (h : Inv H publisher miner s)
    (written : Bool) : Inv H publisher miner (s.saveState written) := by
  unfold State.saveState
  split
  case isTrue =>
      refine ⟨h.reach, h.cache, fun c hc => ?_, h.gone, h.closed⟩
      cases hc
      exact h.cache
  case isFalse => exact h

theorem Inv.withCache {s : State} {c : Cache} (h : Inv H publisher miner s)
    (hc : CacheOk miner s.world.mining s.counted c) :
    Inv H publisher miner { s with cache := c } :=
  ⟨h.reach, hc, h.file, h.gone, h.closed⟩

-- =========================================================== transactions

/-- A transaction that takes effect is two calls of the contract. -/
theorem execute_ok {w w' : World} {c : MiningCall} {sent : Sent}
    (hw : Machine.Reach (contract H publisher) w)
    (h : execute H miner w c sent = .ok w') :
    Machine.Reach (contract H publisher) w'
      ∧ w.mining.StatsKept w'.mining
      ∧ (sent.effect = none → w' = w)
      ∧ (sent.effect.isSome → ∃ (ctx : TxContext) (m : Mining),
        ctx.sender = miner
        ∧ RoundBooks m
        ∧ m.roundStats = w.mining.roundStats
        ∧ m.accumulators = w.mining.accumulators
        ∧ m.exec H ctx c = .ok w'.mining) := by
  unfold execute at h
  cases heffect : sent.effect with
  | none =>
      rw [heffect] at h
      cases h
      exact ⟨hw, .refl _, fun _ => rfl, fun h => by cases h⟩
  | some at_ =>
      rw [heffect] at h
      simp only [bind_eq_ok] at h
      obtain ⟨w₁, hbegin, hcall⟩ := h
      have hkept := (World.exec_statsKept hbegin).trans
        (World.exec_statsKept hcall)
      have hreach₁ : Machine.Reach (contract H publisher) w₁ :=
        Machine.ReachVia.step (.beginTx miner at_.1 at_.2) hw trivial hbegin
      have hbooks := roundBooks_of_reach hreach₁
      have hreach : Machine.Reach (contract H publisher) w' :=
        Machine.ReachVia.step (.mining c) hreach₁ trivial hcall
      refine ⟨hreach, hkept, fun h => by (cases h), fun _ => ?_⟩
      simp only [World.exec, bind_eq_ok, pure_eq_ok] at hcall
      obtain ⟨mining, hexec, rfl⟩ := hcall
      simp only [World.exec, World.beginTx, bind_eq_ok, pure_eq_ok] at hbegin
      obtain ⟨-, -, rfl⟩ := hbegin
      exact ⟨⟨miner, at_.1, at_.2⟩, { w.mining with receipts := .empty },
        rfl, hbooks, rfl, rfl, hexec⟩

/-- Once an object is counted, the round is gone. -/
theorem accumulate_gone {ctx : TxContext} {m m' : Mining} {accId mrsId : ID}
    (hb : RoundBooks m)
    (h : m.exec H ctx (.accumulateMinerStats accId [mrsId]) = .ok m') :
    ∃ acc mrs, m.accumulators.get accId = some acc
      ∧ m.roundStats.get mrsId = some mrs ∧ m'.Gone mrs.key := by
  have hstep : Mining.Step H ctx m (.accumulate accId mrsId) m' :=
    (Mining.exec_trace h).of_single
  have hkept := hstep.statsKept
  obtain ⟨acc, mrs, hacc, hmrs, herase⟩ : ∃ acc mrs,
      m.accumulators.get accId = some acc
      ∧ m.roundStats.get mrsId = some mrs
      ∧ m'.roundStats = m.roundStats.erase mrsId := by
    cases hstep with
    | skip hacc hmrs => exact ⟨_, _, hacc, hmrs, rfl⟩
    | count hacc hmrs => exact ⟨_, _, hacc, hmrs, rfl⟩
  refine ⟨acc, mrs, hacc, hmrs,
    hkept.registered _ (hb.stats_registered _ _ hmrs), ?_⟩
  intro i s hi hkey
  rw [herase] at hi
  obtain ⟨hne, hi⟩ := ObjStore.get_erase_eq_some hi
  exact hne (hb.stats_inj i mrsId s mrs hi hmrs hkey)

/-- A count that takes effect is of the round held, and is written
down. -/
theorem Inv.doAccumulate {s s' : State} {accId mrsId : ID} {sent : Sent}
    (h : Inv H publisher miner s)
    (hmrs : s.cache.minerRoundStatsId = some mrsId)
    (hround : accumulatorOf s.world s.cache.currentRound accId = true)
    (hok : s.doAccumulate H miner accId mrsId sent = .ok s') :
    Inv H publisher miner s' ∧ s'.cache = s.cache
      ∧ (sent.effect.isSome →
        (mrsId, s.cache.currentRound) ∈ s'.counted) := by
  simp only [State.doAccumulate, bind_eq_ok, pure_eq_ok] at hok
  obtain ⟨w, hexec, rfl⟩ := hok
  obtain ⟨hreach, hkept, -, heffect⟩ := execute_ok h.reach hexec
  have hworld := h.world hreach hkept
  cases hsome : sent.effect.isSome with
  | false =>
      refine ⟨?_, rfl, fun h => by cases h⟩
      rw [if_neg Bool.false_ne_true]
      exact hworld
  | true =>
      obtain ⟨ctx, m, -, hbooks, hstats, haccs, hcall⟩ := heffect hsome
      obtain ⟨acc, mrs, hacc, hget, hgone⟩ := accumulate_gone hbooks hcall
      rw [haccs] at hacc
      rw [hstats] at hget
      have hkey := (h.cache.held mrsId hmrs).2 mrs hget
      have hmine : mrs.roundId = s.cache.currentRound :=
        congrArg MinerRoundKey.roundId hkey
      have hacc_round : acc.roundId = s.cache.currentRound := by
        rw [accumulatorOf, hacc] at hround
        exact of_decide_eq_true hround
      have hcounted : countedBy s.world accId mrsId
          = [(mrsId, s.cache.currentRound)] := by
        rw [countedBy, hacc, hget]
        dsimp only
        rw [if_pos (by rw [hmine, hacc_round]), hmine]
      rw [if_pos rfl, hcounted]
      have hmore : ∀ e ∈ s.counted,
          e ∈ [(mrsId, s.cache.currentRound)] ++ s.counted :=
        fun e he => List.mem_append_right _ he
      refine ⟨⟨hreach, h.cache.kept hkept hmore,
        fun c hc => (h.file c hc).kept hkept hmore, ?_, h.closed⟩, rfl,
        fun _ => List.mem_cons_self⟩
      intro e he
      rcases List.mem_append.mp he with he | he
      · rw [List.mem_singleton.mp he, ← hkey]
        exact hgone
      · exact (h.gone e he).kept hkept

/-- Where the round held is remembered, a call to close does not take
effect: nothing is left to close. -/
theorem Inv.closeMrs {s s' : State} {mrsId : ID} {sent : Sent}
    (h : Inv H publisher miner s)
    (hmrs : s.cache.minerRoundStatsId = some mrsId)
    (hround : s.cache.currentRound ∈ s.cache.accumulatedRounds)
    (hok : s.closeMrs H miner mrsId sent = .ok s') :
    Inv H publisher miner s' ∧ s'.cache = s.cache := by
  simp only [State.closeMrs, bind_eq_ok, pure_eq_ok] at hok
  obtain ⟨w, hexec, rfl⟩ := hok
  obtain ⟨hreach, hkept, -, heffect⟩ := execute_ok h.reach hexec
  have hworld := h.world hreach hkept
  cases hsome : sent.effect.isSome with
  | false =>
      rw [if_neg Bool.false_ne_true]
      exact ⟨hworld, rfl⟩
  | true =>
      obtain ⟨ctx, m, -, -, hstats, -, hcall⟩ := heffect hsome
      simp only [Mining.exec, bind_eq_ok, load_eq_ok] at hcall
      obtain ⟨mrs, hget, -⟩ := hcall
      rw [hstats] at hget
      obtain ⟨id, hid⟩ := h.cache.accumulated _ hround
      exact absurd ((h.cache.held mrsId hmrs).2 mrs hget)
        ((h.gone _ hid).none_left _ _ hget)

-- =============================================================== the steps

theorem Inv.pollAndAccumulate {s s' : State} {due : Bool}
    {found : Option (Option ID)} {sent : Sent} {written : Bool}
    (h : Inv H publisher miner s) (hsent : sent ≠ .failed)
    (hok : s.pollAndAccumulate H miner due found sent written = .ok s') :
    Inv H publisher miner s' := by
  unfold State.pollAndAccumulate at hok
  dsimp only at hok
  split at hok
  case isTrue =>
      cases hok
      exact h
  case isFalse =>
      split at hok
      case isTrue =>
          cases hok
          exact h
      case isFalse =>
          split at hok
          case h_2 =>
              cases hok
              exact h
          case h_1 mrsId accId hmrs =>
              simp only [bind_eq_ok, require_eq_ok, pure_eq_ok] at hok
              obtain ⟨-, hround, s₁, hacc, rfl⟩ := hok
              obtain ⟨h₁, hcache, hcounted⟩ :=
                h.doAccumulate hmrs hround hacc
              split
              case isFalse => exact h₁
              case isTrue hanswered =>
                  -- answered and not failed: it took effect
                  have heffect : sent.effect.isSome := by
                    cases sent with
                    | error | lost => cases hanswered
                    | failed => exact absurd rfl hsent
                    | committed => rfl
                  have hmore : CacheOk miner s₁.world.mining s₁.counted
                      { s₁.cache with accumulatedRounds :=
                        s.cache.currentRound
                          :: s₁.cache.accumulatedRounds } := by
                    refine ⟨h₁.cache.held, fun r hr => ?_⟩
                    rcases List.mem_cons.mp hr with rfl | hr
                    · exact ⟨mrsId, hcounted heffect⟩
                    · exact h₁.cache.accumulated r hr
                  exact (h₁.withCache hmore).saveState written

theorem Inv.setRound {s : State} {round : U64} {mrsId : ID}
    (h : Inv H publisher miner s)
    (hmrs : mrsId < s.world.mining.roundStats.next
      ∧ ∀ mrs, s.world.mining.roundStats.get mrsId = some mrs →
        mrs.key = ⟨miner, round⟩) (written : Bool) :
    Inv H publisher miner (s.setRound round mrsId written) := by
  have hcache : CacheOk miner s.world.mining s.counted
      { s.cache with
        currentRound := round
        minerRoundStatsId := some mrsId } := by
    refine ⟨fun id hid => ?_, h.cache.accumulated⟩
    cases hid
    exact hmrs
  exact (h.withCache hcache).saveState written

theorem statsOf_iff {w : World} {round : U64} {mrsId : ID} :
    statsOf miner w round mrsId = true
      ↔ mrsId < w.mining.roundStats.next
        ∧ ∀ mrs, w.mining.roundStats.get mrsId = some mrs →
          mrs.key = ⟨miner, round⟩ := by
  unfold statsOf
  rw [Bool.and_eq_true, decide_eq_true_eq, Option.all_eq_true]
  simp only [decide_eq_true_eq]

theorem Inv.closeOld {s s' : State} {round : U64} {sent : Sent}
    (h : Inv H publisher miner s)
    (hok : s.closeOld H miner round sent = .ok s') :
    Inv H publisher miner s' := by
  unfold State.closeOld at hok
  split at hok
  case h_2 =>
      cases hok
      exact h
  case h_1 oldMrsId hmrs =>
      split at hok
      case isFalse =>
          cases hok
          exact h
      case isTrue hround =>
          simp only [bind_eq_ok, pure_eq_ok] at hok
          obtain ⟨s₁, hclose, rfl⟩ := hok
          obtain ⟨h₁, hcache⟩ := h.closeMrs hmrs hround.2 hclose
          split
          case isFalse => exact h₁
          case isTrue =>
              refine h₁.withCache ⟨fun id hid => ?_, h₁.cache.accumulated⟩
              cases hid

/-- What a creation that takes effect makes. -/
theorem create_new {ctx : TxContext} {m m' : Mining} {round height : U64}
    (h : m.exec H ctx (.createRoundStats round height) = .ok m') :
    m'.roundStats.next = m.roundStats.next + 1
      ∧ ∀ mrs, m'.roundStats.get m.roundStats.next = some mrs →
        mrs.key = ⟨ctx.sender, round⟩ := by
  simp only [Mining.exec, bind_eq_ok, pure_eq_ok] at h
  obtain ⟨⟨registry, mrs⟩, hcreate, rfl⟩ := h
  obtain ⟨-, -, rfl⟩ := createRoundStats_ok hcreate
  refine ⟨rfl, fun mrs hget => ?_⟩
  dsimp only at hget
  rw [ObjStore.get_alloc_self] at hget
  cases hget
  rfl

theorem Inv.createRoundStats {s s' : State} {round poolHeight : U64}
    {sent : Sent} {found : Found} {written : Bool}
    (h : Inv H publisher miner s)
    (hok : s.createRoundStats H miner round poolHeight sent found written
      = .ok s') : Inv H publisher miner s' := by
  simp only [State.createRoundStats, bind_eq_ok] at hok
  obtain ⟨w, hexec, hok⟩ := hok
  obtain ⟨hreach, hkept, -, heffect⟩ := execute_ok h.reach hexec
  have hworld := h.world hreach hkept
  cases sent with
  | error | lost =>
      cases hok
      exact hworld
  | committed epoch timestampMs =>
      cases hok
      obtain ⟨ctx, m, hsender, -, hstats, -, hcall⟩ := heffect rfl
      obtain ⟨hnext, hnew⟩ := create_new hcall
      rw [hstats] at hnext hnew
      rw [hsender] at hnew
      refine hworld.setRound ⟨?_, hnew⟩ written
      show s.world.mining.roundStats.next < w.mining.roundStats.next
      omega
  | failed =>
      simp only [bind_eq_ok, require_eq_ok] at hok
      obtain ⟨-, hhonest, hok⟩ := hok
      split at hok
      case h_1 mrsId =>
          cases hok
          exact hworld.setRound (statsOf_iff.mp hhonest) written
      case h_2 =>
          cases hok
          exact hworld

theorem Inv.ensureRoundStats {s s' : State} {round poolHeight : U64}
    {close create : Sent} {found found' : Found} {written : Bool}
    (h : Inv H publisher miner s)
    (hok : s.ensureRoundStats H miner round poolHeight close found create
      found' written = .ok s') : Inv H publisher miner s' := by
  unfold State.ensureRoundStats at hok
  split at hok
  case isTrue =>
      cases hok
      exact h
  case isFalse =>
      simp only [bind_eq_ok, require_eq_ok] at hok
      obtain ⟨s₁, hclose, -, hhonest, hok⟩ := hok
      have h₁ := h.closeOld hclose
      split at hok
      case h_1 =>
          cases hok
          exact h₁
      case h_2 mrsId =>
          cases hok
          exact h₁.setRound (statsOf_iff.mp hhonest) written
      case h_3 => exact h₁.createRoundStats hok

theorem Inv.restart {s : State} (h : Inv H publisher miner s) :
    Inv H publisher miner s.restart := by
  refine h.withCache ?_
  cases hfile : s.stateFile with
  | none => exact .new _ _ _
  | some c => exact h.file c hfile

theorem Inv.step {s s' : State} {e : Event} (h : Inv H publisher miner s)
    (he : e.noFailedCount = true) (hok : s.step H miner e = .ok s') :
    Inv H publisher miner s' := by
  cases e with
  | call c =>
      simp only [State.step, bind_eq_ok, pure_eq_ok] at hok
      obtain ⟨w, hexec, rfl⟩ := hok
      exact h.world (.step c h.reach trivial hexec)
        (World.exec_statsKept hexec)
  | pollAndAccumulate due found sent written =>
      exact h.pollAndAccumulate (of_decide_eq_true he) hok
  | ensureRoundStats round poolHeight close found create found' written =>
      exact h.ensureRoundStats hok
  | restart =>
      cases hok
      exact h.restart

/-- In the runs in which no accumulation is executed with a failure
status, a round is remembered only after the miner's stats of it were
counted, and none is closed that was not. -/
theorem stats_closed_after_count {s : State}
    (h : Machine.ReachVia (minerClient H publisher miner)
      (fun _ e => e.noFailedCount = true) s) : ClosedCounted s := by
  have hinv : Inv H publisher miner s := by
    refine h.invariant ?_ fun s e s' hI he hok => hI.step he hok
    refine ⟨.init, .new _ _ _, fun c hc => ?_, fun e he => ?_, rfl⟩
    · cases hc
    · cases he
  refine ⟨hinv.cache.accumulated, fun id hid => ?_⟩
  rw [hinv.closed] at hid
  cases hid

/-- A miner's round from its start to the next one, with its only count
and the close after it ending so. -/
def countedRound (count close : Sent) : List Event :=
  [.call (.admin (.registerTemplate block125552)),
   .call (.beginTx 1 0 0),
   .call (.mining (.registerMiner [])),
   .ensureRoundStats 0 0 .error (some none) (.committed 0 0) none true,
   .call (.mining (.createShareDedup 0)),
   .call (.mining (.submitShare 0 ⟨0, 0, 0⟩ solution125552)),
   .call (.mining (.openRoundAccumulatorFromClaim 0)),
   .pollAndAccumulate true (some (some 0)) count true,
   .call (.beginTx 1 0 5000),
   .call (.mining (.finalizeRound 0)),
   .ensureRoundStats 1 0 close (some none) (.committed 0 5000) none true]

theorem stats_closed_after_count_countedRound :
    ∃ s, ClosedCounted s ∧ s.cache.accumulatedRounds = [0]
      ∧ s.cache.currentRound = 1 := by
  have hrun : (minerClient sha256 0 1).endsFrom
      (fun _ e => e.noFailedCount)
      (fun s => s.cache.accumulatedRounds = [0] ∧ s.cache.currentRound = 1)
      (countedRound (.committed 0 0) .error)
      (minerClient sha256 0 1).init = true := by
    decide +kernel
  obtain ⟨s, hs, hcheck⟩ :=
    Machine.reachVia_of_endsFrom (fun _ _ h => h) .init hrun
  obtain ⟨hrounds, hround⟩ := of_decide_eq_true hcheck
  exact ⟨s, stats_closed_after_count hs, hrounds, hround⟩

/-- The count is executed and aborts. The round is remembered all the
same, and the stats with the block in them are closed. -/
theorem stats_closed_uncounted :
    ∃ s, Machine.Reach (minerClient sha256 0 1) s
      ∧ s.cache.accumulatedRounds = [0] ∧ s.closed = [0] ∧ s.counted = []
      ∧ s.world.mining.issued.next = 0 ∧ ¬ ClosedCounted s := by
  have hrun : (minerClient sha256 0 1).endsIn
      (countedRound .failed (.committed 0 5000))
      (fun s => s.cache.accumulatedRounds = [0] ∧ s.closed = [0]
        ∧ s.counted = [] ∧ s.world.mining.issued.next = 0) = true := by
    decide +kernel
  obtain ⟨s, hs, hcheck⟩ := Machine.reach_of_endsIn hrun
  obtain ⟨hrounds, hclosed, hcounted, hissued⟩ := of_decide_eq_true hcheck
  refine ⟨s, hs, hrounds, hclosed, hcounted, hissued, fun h => ?_⟩
  obtain ⟨r, hr⟩ := h.closed 0 (by rw [hclosed]; exact List.mem_cons_self)
  rw [hcounted] at hr
  cases hr

end Client

end M1n3Protocol
