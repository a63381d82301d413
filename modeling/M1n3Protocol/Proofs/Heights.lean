/-
The height ratchet of a miner's round stats.

# The ratchet

A stats object carries the lowest height its next share may have. It
starts at the caller's argument and moves to the height of each recorded
share. `HeightBooks` has what follows without the start: under one key
the heights never fall. `Ratchet` has the rest for one key and the
argument its object was made with: nothing under the key is below it, and
a live object's bound is that argument or the height of a share of the
miner's own.

# The pool's height

`current_height` is the greatest height of any template registered so
far, by either entry. Who starts the ratchet there is held to all of
them.
-/
import M1n3Protocol.Proofs.Exclusivity

namespace M1n3Protocol

open Checked

variable {H : HashFn} {ctx : TxContext} {m m' : Mining}

-- ============================================== stats objects, inversely

/-- The share of this step, if there is one, went into another object. -/
def otherThan (ev : MiningEvent) (sid : ID) : Prop :=
  ∀ mined ids sub, ev = .share mined ids sub → sid ≠ ids.round

/-- A stats object after a step was there, with its bound; or was made by
the step, under a new key; or is the one the step recorded a share in. -/
theorem Mining.Step.stats_from {ev : MiningEvent}
    (hs : Mining.Step H ctx m ev m') {sid : ID} {s' : MinerRoundStats}
    (hi : m'.roundStats.get sid = some s') :
    (∃ s, m.roundStats.get sid = some s ∧ s'.key = s.key
        ∧ s'.minHeight = s.minHeight ∧ otherThan ev sid)
      ∨ (ev = .other ∧ s'.key ∉ m.roundRegistry)
      ∨ ∃ mined ids sub payment job o out receipts,
        ev = .share mined ids sub
          ∧ m.Shared H ctx mined ids sub payment job o out receipts
          ∧ s' = out.objects.round
          ∧ m'.shares.get m.shares.next = some {
              mined, miner := out.objects.round.miner,
              roundId := out.objects.round.roundId, height := job.height,
              shareHash := out.share.shareHash,
              difficulty := out.share.difficulty, payment, mints := 0 } := by
  have hquiet : ev = .other → otherThan ev sid := by
    rintro rfl _ _ _ h
    cases h
  cases hs with
  | share h =>
      rcases ObjStore.get_put_eq_some hi with ⟨rfl, rfl, -⟩ | ⟨hne, hi⟩
      · exact .inr (.inr ⟨_, _, _, _, _, _, _, _, rfl, h, rfl,
          ObjStore.get_alloc_self ..⟩)
      · refine .inl ⟨s', hi, rfl, rfl, ?_⟩
        rintro _ _ _ ⟨⟩
        exact hne
  | createRoundStats hok =>
      obtain ⟨hfresh, -, -⟩ := createRoundStats_ok hok
      rcases ObjStore.get_alloc_eq_some hi with ⟨-, rfl⟩ | hi
      · exact .inr (.inl ⟨rfl, hfresh⟩)
      · exact .inl ⟨s', hi, rfl, rfl, hquiet rfl⟩
  | closeRoundStats =>
      exact .inl ⟨s', (ObjStore.get_erase_eq_some hi).2, rfl, rfl, hquiet rfl⟩
  | mint hr hsid hok =>
      obtain ⟨-, -, hround, hminer, -, -, -, -, hheight⟩ :=
        recordSoldShare_ok hok
      have hother : ∀ rid, otherThan (.mint rid) sid := by
        rintro rid _ _ _ h
        cases h
      rcases ObjStore.get_put_eq_some hi with ⟨rfl, rfl, -⟩ | ⟨-, hi⟩
      · refine .inl ⟨_, hsid, ?_, hheight, hother _⟩
        rw [MinerRoundStats.key, hminer, hround]
        rfl
      · exact .inl ⟨s', hi, rfl, rfl, hother _⟩
  | skip | count =>
      refine .inl ⟨s', (ObjStore.get_erase_eq_some hi).2, rfl, rfl, ?_⟩
      rintro _ _ _ h
      cases h
  | dropHashes | consume =>
      refine .inl ⟨s', hi, rfl, rfl, ?_⟩
      rintro _ _ _ h
      cases h
  | quiet | createDedup | deleteDedup | clearReceipts | openAccumulator
  | finalize => exact .inl ⟨s', hi, rfl, rfl, hquiet rfl⟩

/-- Keys are registered for good. -/
theorem Mining.Step.registry_kept {ev : MiningEvent}
    (hs : Mining.Step H ctx m ev m') {k : MinerRoundKey}
    (hk : k ∈ m.roundRegistry) : k ∈ m'.roundRegistry := by
  cases hs with
  | createRoundStats hok =>
      obtain ⟨-, hreg, -⟩ := createRoundStats_ok hok
      show k ∈ _
      rw [hreg]
      exact List.mem_cons_of_mem _ hk
  | quiet | closeRoundStats | createDedup | dropHashes | deleteDedup | share
  | clearReceipts | mint | openAccumulator | skip | count | finalize
  | consume => exact hk

-- ====================================================== never falling

structure HeightBooks (m : Mining) : Prop where
  sorted : ∀ i j e f, i < j → m.shares.get i = some e →
    m.shares.get j = some f → e.key = f.key → e.height ≤ f.height
  above : ∀ sid s, m.roundStats.get sid = some s →
    ∀ i e, m.shares.get i = some e → e.key = s.key → e.height ≤ s.minHeight

theorem HeightBooks.init (admin : Address) :
    HeightBooks (Mining.init admin) where
  sorted _ _ _ _ _ h := by cases h
  above _ _ h := by cases h

/-- The key of a recorded share is that of its stats object. -/
theorem Mining.Shared.round_ok {mined : TemplateRef} {ids : ShareIds}
    {sub : Submission} {payment : Option Payment} {job : Job}
    {o : MinerObjects} {out : ShareOutcome}
    {receipts : ObjStore ReceiptObject}
    (h : m.Shared H ctx mined ids sub payment job o out receipts) :
    out.objects.round.key = o.round.key
      ∧ o.round.minHeight ≤ job.height
      ∧ out.objects.round.minHeight = job.height := by
  obtain ⟨-, -, hle, -, hround, hminer, -, -, -, -, hheight⟩ :=
    recordShare_ok h.accepted.record_ok
  refine ⟨?_, hle, hheight⟩
  rw [MinerRoundStats.key, hminer, hround]
  rfl

theorem HeightBooks.step {ev : MiningEvent} (hb : HeightBooks m)
    (hr : RoundBooks m) (hsb : ShareBooks m)
    (hs : Mining.Step H ctx m ev m') : HeightBooks m' := by
  constructor
  · intro i j e f hij hi hj hkey
    rcases hs.share_from hj with ⟨f₀, hf₀, hf, -⟩
      | ⟨mined, ids, sub, payment, job, o, out, receipts, rfl, h, rfl, rfl⟩
    · rcases hs.share_from hi with ⟨e₀, he₀, he, -⟩
        | ⟨_, _, _, _, _, _, _, _, -, -, rfl, -⟩
      · rw [he, hf] at hkey
        rw [he, hf]
        exact hb.sorted i j e₀ f₀ hij he₀ hf₀ hkey
      · exact absurd (ObjStore.lt_next hf₀) (Nat.lt_asymm hij)
    · -- The new share is under its object's key, and not below the bound.
      rcases hs.share_from hi with ⟨e₀, he₀, he, -⟩
        | ⟨_, _, _, _, _, _, _, _, -, -, rfl, -⟩
      · obtain ⟨hround, hle, -⟩ := h.round_ok
        rw [he] at hkey ⊢
        exact BitVec.le_trans
          (hb.above _ _ h.round_get i e₀ he₀ (hkey.trans hround)) hle
      · exact absurd hij (Nat.lt_irrefl _)
  · intro sid s' hsid i e hi hkey
    rcases hs.stats_from hsid with ⟨s, hget, hsame, hheight, hother⟩
      | ⟨rfl, hfresh⟩
      | ⟨mined, ids, sub, payment, job, o, out, receipts, rfl, h, rfl, -⟩
    · rw [hheight]
      rcases hs.share_from hi with ⟨e₀, he₀, he, -⟩
        | ⟨mined, ids, sub, payment, job, o, out, receipts, rfl, h, -, rfl⟩
      · rw [he] at hkey ⊢
        exact hb.above sid s hget i e₀ he₀ (hkey.trans hsame)
      · -- Another live object is of another key.
        obtain ⟨hround, -, -⟩ := h.round_ok
        have hsameKey : s.key = o.round.key :=
          (hkey.trans hsame).symm.trans hround
        exact absurd (hr.stats_inj sid ids.round s o.round hget h.round_get
          hsameKey) (hother _ _ _ rfl)
    · rcases hs.share_from hi with ⟨e₀, he₀, he, -⟩
        | ⟨_, _, _, _, _, _, _, _, heq, -⟩
      · have hreg : e₀.key ∈ m.roundRegistry :=
          hsb.shares_registered i e₀ he₀
        rw [he] at hkey
        have hsame : e₀.key = s'.key := hkey
        exact absurd (hsame ▸ hreg) hfresh
      · cases heq
    · obtain ⟨hround, hle, hheight⟩ := h.round_ok
      rw [hheight]
      rcases hs.share_from hi with ⟨e₀, he₀, he, -⟩
        | ⟨_, _, _, _, _, _, _, _, heq, h', -, rfl⟩
      · rw [he] at hkey ⊢
        exact BitVec.le_trans
          (hb.above _ _ h.round_get i e₀ he₀ (hkey.trans hround)) hle
      · cases heq
        have hjob : job = _ := Option.some.inj (h.job_eq.symm.trans h'.job_eq)
        rw [hjob]
        exact BitVec.le_refl _

/-- The books of one reachable state. -/
structure HeightFacts (m : Mining) : Prop where
  rounds : RoundBooks m
  shares : ShareBooks m
  heights : HeightBooks m

theorem heightFacts_of_reach {publisher : Address} {w : World}
    (h : Machine.Reach (contract H publisher) w) : HeightFacts w.mining :=
  mining_invariant_always (I := HeightFacts)
    ⟨.init publisher, .init publisher, .init publisher⟩
    (fun _ _ _ _ hb hs => ⟨hb.rounds.step hs, hb.shares.step hb.rounds hs,
      hb.heights.step hb.rounds hb.shares hs⟩) h

-- ============================================================= the ratchet

/-- The stats object of key `k` was made with the bound `h`. -/
structure Ratchet (k : MinerRoundKey) (h : U64) (m : Mining) : Prop where
  registered : k ∈ m.roundRegistry
  stats_le : ∀ sid s, m.roundStats.get sid = some s → s.key = k →
    h ≤ s.minHeight
  stats_at : ∀ sid s, m.roundStats.get sid = some s → s.key = k →
    s.minHeight = h ∨ ∃ i e, m.shares.get i = some e ∧ e.key = k
      ∧ e.height = s.minHeight
  shares_le : ∀ i e, m.shares.get i = some e → e.key = k → h ≤ e.height

variable {k : MinerRoundKey} {h : U64}

/-- A new object is the only one of its key, and has no share yet. -/
theorem Ratchet.create {reg : List MinerRoundKey} {mrs : MinerRoundStats}
    {r : U64} (hr : RoundBooks m) (hsb : ShareBooks m)
    (hok : createRoundStats m.roundRegistry r h ctx = .ok (reg, mrs)) :
    Ratchet mrs.key h { m with
      roundRegistry := reg, roundStats := m.roundStats.alloc mrs } := by
  obtain ⟨hfresh, hreg, hmrs⟩ := createRoundStats_ok hok
  have hheight : mrs.minHeight = h := by rw [hmrs]
  have hsole : ∀ sid s, (m.roundStats.alloc mrs).get sid = some s →
      s.key = mrs.key → s.minHeight = h := by
    intro sid s hsid hkey
    rcases ObjStore.get_alloc_eq_some hsid with ⟨-, rfl⟩ | hsid
    · exact hheight
    · exact absurd (hkey ▸ hr.stats_registered sid s hsid) hfresh
  constructor
  · show mrs.key ∈ reg
    rw [hreg]
    exact List.mem_cons_self ..
  · intro sid s hsid hkey
    rw [hsole sid s hsid hkey]
    exact BitVec.le_refl _
  · intro sid s hsid hkey
    exact .inl (hsole sid s hsid hkey)
  · intro i e hi hkey
    exact absurd (hkey ▸ hsb.shares_registered i e hi) hfresh

theorem Ratchet.step {ev : MiningEvent} (hb : Ratchet k h m)
    (hs : Mining.Step H ctx m ev m') : Ratchet k h m' := by
  have hpast : ∀ s, (∃ i e, m.shares.get i = some e ∧ e.key = k
      ∧ e.height = s) → ∃ i e, m'.shares.get i = some e ∧ e.key = k
      ∧ e.height = s := by
    rintro s ⟨i, e, he, hkey, hheight⟩
    obtain ⟨n, he', -⟩ := hs.share_kept he
    exact ⟨i, _, he', hkey, hheight⟩
  constructor
  · exact hs.registry_kept hb.registered
  · intro sid s' hsid hkey
    rcases hs.stats_from hsid with ⟨s, hget, hsame, hheight, -⟩
      | ⟨-, hfresh⟩ | ⟨_, _, _, _, job, o, out, _, -, hsh, rfl, -⟩
    · rw [hheight]
      exact hb.stats_le sid s hget (hsame.symm.trans hkey)
    · exact absurd (hkey ▸ hb.registered) hfresh
    · obtain ⟨hround, hle, hheight⟩ := hsh.round_ok
      rw [hheight]
      exact BitVec.le_trans
        (hb.stats_le _ _ hsh.round_get (hround.symm.trans hkey)) hle
  · intro sid s' hsid hkey
    rcases hs.stats_from hsid with ⟨s, hget, hsame, hheight, -⟩
      | ⟨-, hfresh⟩ | ⟨_, _, _, _, job, o, out, _, -, hsh, rfl, hentry⟩
    · rw [hheight]
      exact (hb.stats_at sid s hget (hsame.symm.trans hkey)).imp_right
        (hpast _)
    · exact absurd (hkey ▸ hb.registered) hfresh
    · obtain ⟨-, -, hheight⟩ := hsh.round_ok
      exact .inr ⟨_, _, hentry, hkey, hheight.symm⟩
  · intro i e hi hkey
    rcases hs.share_from hi with ⟨e₀, he₀, he, -⟩
      | ⟨_, _, _, _, job, o, out, _, -, hsh, -, rfl⟩
    · rw [he] at hkey ⊢
      exact hb.shares_le i e₀ he₀ hkey
    · obtain ⟨hround, hle, -⟩ := hsh.round_ok
      exact BitVec.le_trans
        (hb.stats_le _ _ hsh.round_get (hround.symm.trans hkey)) hle

theorem Ratchet.call {w w' : World} {c : Call}
    (hb : Ratchet k h w.mining) (hs : w.exec H c = .ok w') :
    Ratchet k h w'.mining :=
  (World.exec_mining hs).preserves (fun _ _ _ hb hs => hb.step hs) hb

theorem Ratchet.leads {publisher : Address} {w w' : World}
    (hb : Ratchet k h w.mining) (hl : (contract H publisher).Leads w w') :
    Ratchet k h w'.mining :=
  Machine.ReachVia.invariant (I := fun w => Ratchet k h w.mining) hb
    (fun _ _ _ hb _ hs => hb.call hs) hl

/-- What a creation leaves on the mining side. -/
theorem World.exec_createRoundStats {w w' : World} {r hgt : U64}
    (hs : w.exec H (.mining (.createRoundStats r hgt)) = .ok w') :
    ∃ reg mrs, createRoundStats w.mining.roundRegistry r hgt w.ctx
        = .ok (reg, mrs)
      ∧ w'.mining = { w.mining with
          roundRegistry := reg
          roundStats := w.mining.roundStats.alloc mrs } := by
  simp only [World.exec, Mining.exec, bind_eq_ok, pure_eq_ok] at hs
  obtain ⟨mining, ⟨⟨reg, mrs⟩, hok, hm⟩, heq⟩ := hs
  subst heq hm
  exact ⟨reg, mrs, hok, rfl⟩

/-- The ratchet starts with its object. -/
theorem Ratchet.created {w w' : World} {r hgt : U64}
    (hfacts : HeightFacts w.mining)
    (hs : w.exec H (.mining (.createRoundStats r hgt)) = .ok w') :
    Ratchet ⟨w.ctx.sender, r⟩ hgt w'.mining := by
  obtain ⟨reg, mrs, hok, hm⟩ := World.exec_createRoundStats hs
  obtain ⟨-, -, hmrs⟩ := createRoundStats_ok hok
  have hkey : mrs.key = ⟨w.ctx.sender, r⟩ := by
    rw [hmrs]
    rfl
  rw [hm, ← hkey]
  exact Ratchet.create hfacts.rounds hfacts.shares hok

-- ============================================== who registers a key

theorem Mining.Step.registry_eq {ev : MiningEvent}
    (hs : Mining.Step H ctx m ev m') (hev : ev ≠ .other) :
    m'.roundRegistry = m.roundRegistry := by
  cases hs with
  | dropHashes | share | mint | skip | count | consume => rfl
  | quiet | createRoundStats | closeRoundStats | createDedup | deleteDedup
  | clearReceipts | openAccumulator | finalize => exact absurd rfl hev

theorem Mining.exec_registry {c : MiningCall} (h : m.exec H ctx c = .ok m')
    (hc : ∀ r hgt, c ≠ .createRoundStats r hgt) :
    m'.roundRegistry = m.roundRegistry := by
  have htrace := Mining.exec_trace h
  cases c with
  | createRoundStats r hgt => exact absurd rfl (hc r hgt)
  | submitShare | closeShareDedup =>
      exact htrace.of_single.registry_eq (by intro hev; cases hev)
  | accumulateMinerStats acc sids =>
      refine htrace.preserves_of (Q := fun ev => ev ≠ .other)
        (P := fun m'' => m''.roundRegistry = m.roundRegistry)
        (fun _ _ _ hev heq hs => (hs.registry_eq hev).trans heq) ?_ rfl
      intro ev hev heq
      obtain ⟨sid, -, hsid⟩ := List.mem_map.mp hev
      rw [heq] at hsid
      cases hsid
  | registerMiner =>
      simp only [Mining.exec, pure_eq_ok] at h
      subst h
      rfl
  | registerTemplatePublic | createShareDedup =>
      simp only [Mining.exec, bind_eq_ok, pure_eq_ok] at h
      obtain ⟨_, -, heq⟩ := h
      subst heq
      rfl
  | registerDerivedTemplatePublic | setBtcPayoutAddress
  | closeMinerRoundStats | deleteShareDedup | finalizeRound =>
      simp only [Mining.exec, bind_eq_ok, pure_eq_ok] at h
      obtain ⟨_, -, _, -, heq⟩ := h
      subst heq
      rfl
  | openRoundAccumulatorFromClaim =>
      simp only [Mining.exec, bind_eq_ok, pure_eq_ok] at h
      obtain ⟨_, -, ⟨pool, acc⟩, -, heq⟩ := h
      subst heq
      cases acc <;> rfl

theorem Mining.execAdmin_registry {c : AdminCall}
    (h : m.execAdmin ctx c = .ok m') :
    m'.roundRegistry = m.roundRegistry := by
  cases c with
  | resetDifficulty =>
      simp only [Mining.execAdmin, pure_eq_ok] at h
      subst h
      rfl
  | registerTemplate | setDifficulty =>
      simp only [Mining.execAdmin, bind_eq_ok, pure_eq_ok] at h
      obtain ⟨_, -, heq⟩ := h
      subst heq
      rfl

/-- Only `create_round_stats` registers a key. -/
theorem World.exec_registry {w w' : World} {c : Call}
    (hs : w.exec H c = .ok w')
    (hc : ∀ r hgt, c ≠ .mining (.createRoundStats r hgt)) :
    w'.mining.roundRegistry = w.mining.roundRegistry := by
  have htrace := World.exec_mining hs
  cases c with
  | mining c =>
      simp only [World.exec, bind_eq_ok, pure_eq_ok] at hs
      obtain ⟨mining, hm, heq⟩ := hs
      subst heq
      exact Mining.exec_registry hm fun r hgt h => hc r hgt (by rw [h])
  | admin c =>
      simp only [World.exec, bind_eq_ok, pure_eq_ok] at hs
      obtain ⟨_, -, mining, hm, heq⟩ := hs
      subst heq
      exact Mining.execAdmin_registry hm
  | beginTx =>
      simp only [World.exec, World.beginTx, bind_eq_ok, pure_eq_ok] at hs
      obtain ⟨_, -, heq⟩ := hs
      subst heq
      rfl
  | pay c =>
      cases c <;>
        exact htrace.of_single.registry_eq (by intro hev; cases hev)
  | mintShare | claimReward =>
      exact htrace.of_single.registry_eq (by intro hev; cases hev)
  | transferAdminCap | order | slotAdmin | slot | hashiAdmin | hashi
  | recordBlockFound | openAndFundRoundBatch | openRedemption | redeem =>
      exact congrArg Mining.roundRegistry htrace.eq_of_nil

-- ====================================================== the pool's height

/-- What `current_height` was when a key's stats object was made. -/
def heightLog (w : World) (c : Call) (_ : World)
    (log : MinerRoundKey → Option U64) : MinerRoundKey → Option U64 :=
  match c with
  | .mining (.createRoundStats r _) => fun k =>
      if k = ⟨w.ctx.sender, r⟩ then some w.mining.pool.currentHeight
      else log k
  | _ => log

def heightLogged (H : HashFn) (publisher : Address) :
    Machine Abort (World × (MinerRoundKey → Option U64)) Call :=
  (contract H publisher).withGhost (fun _ => none) heightLog

/-- A stats object is made with a bound no lower than the pool's height. -/
def startsAtHeight (w : World) : Call → Prop
  | .mining (.createRoundStats _ minHeight) =>
      w.mining.pool.currentHeight ≤ minHeight
  | _ => True

theorem heightLog_of_ne {w w' : World} {c : Call}
    (hc : ∀ r hgt, c ≠ .mining (.createRoundStats r hgt))
    (log : MinerRoundKey → Option U64) : heightLog w c w' log = log := by
  cases c with
  | mining c =>
      cases c with
      | createRoundStats r hgt => exact absurd rfl (hc r hgt)
      | _ => rfl
  | _ => rfl

/-- Every registered key has its height in the log, and a ratchet no
lower. -/
def RatchetsFrom (p : World × (MinerRoundKey → Option U64)) : Prop :=
  ∀ k ∈ p.1.mining.roundRegistry, ∃ pool h, p.2 k = some pool ∧ pool ≤ h
    ∧ Ratchet k h p.1.mining

theorem ratchetsFrom_of_reach {publisher : Address}
    {p : World × (MinerRoundKey → Option U64)}
    (h : Machine.ReachVia (heightLogged H publisher)
      (fun p c => startsAtHeight p.1 c) p) : RatchetsFrom p := by
  refine Machine.ReachVia.withGhost_invariant
    (I := fun w log => RatchetsFrom (w, log)) ?_ ?_ h
  · intro k hk
    cases hk
  · intro w c w' log hrun hinv hcond hexec k hk
    have hfacts := heightFacts_of_reach hrun
    dsimp only [RatchetsFrom] at hinv hcond hk ⊢
    replace hexec : w.exec H c = .ok w' := hexec
    by_cases hc : ∃ r hgt, c = .mining (.createRoundStats r hgt)
    · obtain ⟨r, hgt, rfl⟩ := hc
      obtain ⟨reg, mrs, hok, hm⟩ := World.exec_createRoundStats hexec
      obtain ⟨-, hreg, hmrs⟩ := createRoundStats_ok hok
      have hkey : mrs.key = ⟨w.ctx.sender, r⟩ := by
        rw [hmrs]
        rfl
      by_cases hk' : k = ⟨w.ctx.sender, r⟩
      · refine ⟨_, hgt, if_pos hk', hcond, ?_⟩
        rw [hk']
        exact Ratchet.created hfacts hexec
      · rw [hm] at hk
        replace hk : k ∈ reg := hk
        rw [hreg, hkey] at hk
        have hold := (List.mem_cons.mp hk).resolve_left hk'
        obtain ⟨pool, h, hlog, hle, hrat⟩ := hinv k hold
        exact ⟨pool, h, (if_neg hk').trans hlog, hle, hrat.call hexec⟩
    · have hne : ∀ r hgt, c ≠ .mining (.createRoundStats r hgt) :=
        fun r hgt heq => hc ⟨r, hgt, heq⟩
      rw [World.exec_registry hexec hne] at hk
      obtain ⟨pool, h, hlog, hle, hrat⟩ := hinv k hk
      rw [heightLog_of_ne hne]
      exact ⟨pool, h, hlog, hle, hrat.call hexec⟩

/-- In every run whose stats objects are made with a bound no lower than
the pool's height: under each (miner, round) the heights of the shares
never fall, and none is below the pool's height when the stats object was
made. -/
theorem stale_heights_refused {publisher : Address} {w : World}
    {log : MinerRoundKey → Option U64}
    (h : Machine.ReachVia (heightLogged H publisher)
      (fun p c => startsAtHeight p.1 c) (w, log)) :
    (∀ i j e f, i < j → w.mining.shares.get i = some e →
        w.mining.shares.get j = some f → e.key = f.key →
        e.height ≤ f.height)
      ∧ ∀ i e, w.mining.shares.get i = some e →
          ∃ pool, log e.key = some pool ∧ pool ≤ e.height := by
  have hfacts := heightFacts_of_reach h.of_withGhost.reach
  refine ⟨hfacts.heights.sorted, fun i e hi => ?_⟩
  obtain ⟨pool, hgt, hlog, hle, hrat⟩ := ratchetsFrom_of_reach h e.key
    (hfacts.shares.shares_registered i e hi)
  exact ⟨pool, hlog, BitVec.le_trans hle (hrat.shares_le i e hi rfl)⟩

/-- A template one block higher than the solved one. -/
def nextBlock : TemplateArgs :=
  { block125552 with height := block125552.height + 1 }

/-- A miner's share, on a template of the height its bound was made
with. -/
def freshBound : List Call :=
  [.admin (.registerTemplate block125552),
   .beginTx 1 0 0,
   .mining (.registerMiner []),
   .mining (.createRoundStats 0 block125552.height),
   .mining (.createShareDedup 0),
   .mining (.submitShare 0 ⟨0, 0, 0⟩ solution125552)]

def startingAtHeight (p : World × (MinerRoundKey → Option U64)) :
    Call → Bool
  | .mining (.createRoundStats _ minHeight) =>
      decide (p.1.mining.pool.currentHeight ≤ minHeight)
  | _ => true

theorem startsAtHeight_of_startingAtHeight
    (p : World × (MinerRoundKey → Option U64)) (c : Call)
    (h : startingAtHeight p c = true) : startsAtHeight p.1 c := by
  cases c with
  | mining c =>
      cases c with
      | createRoundStats r hgt =>
          have hle : p.1.mining.pool.currentHeight ≤ hgt :=
            of_decide_eq_true h
          exact hle
      | _ => trivial
  | _ => trivial

theorem stale_heights_refused_freshBound :
    ∃ w log, Machine.ReachVia (heightLogged sha256 0)
        (fun p c => startsAtHeight p.1 c) (w, log)
      ∧ ∃ e pool, w.mining.shares.get 0 = some e ∧ log e.key = some pool
        ∧ pool ≤ e.height := by
  have hrun : (heightLogged sha256 0).endsFrom startingAtHeight
      (fun p => (p.1.mining.shares.get 0).isSome) freshBound
      (World.init 0, fun _ => none) = true := by
    decide +kernel
  obtain ⟨⟨w, log⟩, hw, hcheck⟩ := Machine.reachVia_of_endsFrom
    startsAtHeight_of_startingAtHeight .init hrun
  obtain ⟨e, he⟩ := Option.isSome_iff_exists.mp hcheck
  obtain ⟨pool, hlog, hle⟩ := (stale_heights_refused hw).2 0 e he
  exact ⟨w, log, hw, e, pool, he, hlog, hle⟩

/-- The pool is a block further, and a miner makes its stats object with
bound 0. -/
def staleBound : List Call :=
  [.admin (.registerTemplate block125552),
   .admin (.registerTemplate nextBlock),
   .beginTx 1 0 0,
   .mining (.registerMiner []),
   .mining (.createRoundStats 0 0),
   .mining (.createShareDedup 0),
   .mining (.submitShare 0 ⟨0, 0, 0⟩ solution125552)]

/-- Its share on the stale template is recorded. -/
theorem stale_height_recorded :
    ∃ w log, Machine.Reach (heightLogged sha256 0) (w, log)
      ∧ ∃ e pool, w.mining.shares.get 0 = some e ∧ log e.key = some pool
        ∧ e.height < pool := by
  have hrun : (heightLogged sha256 0).endsIn staleBound (fun p =>
      (p.1.mining.shares.get 0).any fun e => (p.2 e.key).any fun pool =>
        decide (e.height < pool)) = true := by
    decide +kernel
  obtain ⟨⟨w, log⟩, hw, hcheck⟩ := Machine.reach_of_endsIn hrun
  obtain ⟨e, he, hcheck⟩ := (Option.any_eq_true ..).mp hcheck
  obtain ⟨pool, hlog, hlt⟩ := (Option.any_eq_true ..).mp hcheck
  exact ⟨w, log, hw, e, pool, he, hlog, of_decide_eq_true hlt⟩

end M1n3Protocol
