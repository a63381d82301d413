/-
Who can keep a miner out of its round.

# The one test that others move

What a share has to pass is the submitter's own: its objects, its nonce
and its hash, on a template that never changes. The height is the
exception. A stats object made with the pool's height is bound by every
template registered before it, whoever registered it, and there is no
second object for its miner and round.

# What is proved

`validateShare_iff` says that a share that passes everything else is
accepted exactly where the ratchet lets it. `miner_accepted_iff` reads
the ratchet off the templates there were and the miner's own shares.
-/
import M1n3Protocol.Proofs.Heights

namespace M1n3Protocol

open Checked

variable {H : HashFn} {ctx : TxContext} {m m' : Mining}

-- ========================================================= everything else

/-- A share of difficulty `d` that passes all but the height test, with
room in the counters it adds to. -/
structure Submittable (H : HashFn) (job : Job) (o : MinerObjects)
    (sub : Submission) (ctx : TxContext) (d : U64) : Prop where
  mine : o.stats.miner = ctx.sender
  table_mine : o.dedup.miner = ctx.sender
  table_round : o.dedup.roundId = job.roundId
  stats_round : o.round.roundId = job.roundId
  stats_mine : o.round.miner = o.stats.miner
  version : (sub.version ^^^ job.version)
    &&& (0xFFFFFFFF ^^^ Const.versionRollingMask) = 0
  ntime : ntimeInWindow job.ntime sub.ntime = .ok true
  worth : difficultyFromHash (job.shareHash H sub) = .ok d
  enough : job.minDifficulty ≤ d
  fresh : job.shareHash H sub ∉ o.dedup.hashes
  table_room : o.dedup.count.toNat + 1 < 2 ^ 32
  total_room : o.stats.totalShares.toNat + 1 < 2 ^ 64
  blocks_room : o.stats.blocksFound.toNat + 1 < 2 ^ 64
  work_room : o.round.work.toNat + d.toNat < 2 ^ 128
  shares_room : o.round.shares.toNat + 1 < 2 ^ 64

instance : LawfulBEq Bytes := inferInstance

instance {job : Job} {o : MinerObjects} {sub : Submission} {d : U64} :
    Decidable (Submittable H job o sub ctx d) :=
  decidable_of_iff
    ((o.stats.miner = ctx.sender ∧ o.dedup.miner = ctx.sender
        ∧ o.dedup.roundId = job.roundId ∧ o.round.roundId = job.roundId
        ∧ o.round.miner = o.stats.miner)
      ∧ ((sub.version ^^^ job.version)
          &&& (0xFFFFFFFF ^^^ Const.versionRollingMask) = 0
        ∧ (ntimeInWindow job.ntime sub.ntime).toOption = some true
        ∧ (difficultyFromHash (job.shareHash H sub)).toOption = some d
        ∧ job.minDifficulty ≤ d ∧ job.shareHash H sub ∉ o.dedup.hashes)
      ∧ o.dedup.count.toNat + 1 < 2 ^ 32
      ∧ o.stats.totalShares.toNat + 1 < 2 ^ 64
      ∧ o.stats.blocksFound.toNat + 1 < 2 ^ 64
      ∧ o.round.work.toNat + d.toNat < 2 ^ 128
      ∧ o.round.shares.toNat + 1 < 2 ^ 64)
    ⟨fun ⟨⟨h₁, h₂, h₃, h₄, h₅⟩, ⟨h₆, h₇, h₈, h₉, h₁₀⟩, h₁₁, h₁₂, h₁₃, h₁₄,
        h₁₅⟩ =>
      ⟨h₁, h₂, h₃, h₄, h₅, h₆, toOption_eq_some.mp h₇,
        toOption_eq_some.mp h₈, h₉, h₁₀, h₁₁, h₁₂, h₁₃, h₁₄, h₁₅⟩,
    fun h => ⟨⟨h.mine, h.table_mine, h.table_round, h.stats_round,
        h.stats_mine⟩,
      ⟨h.version, toOption_eq_some.mpr h.ntime, toOption_eq_some.mpr h.worth,
        h.enough, h.fresh⟩,
      h.table_room, h.total_room, h.blocks_room, h.work_room,
      h.shares_room⟩⟩

theorem countBlock_of_room (isBlock : Bool) {n : U64}
    (h : n.toNat + 1 < 2 ^ 64) : ∃ n', countBlock isBlock n = .ok n' := by
  cases isBlock with
  | false => exact ⟨n, rfl⟩
  | true =>
      obtain ⟨n', hn, -⟩ := add_of_lt Abort.arithmetic (a := n) (b := 1) h
      exact ⟨n', hn⟩

/-- A share that passes all the rest is accepted iff its template is not
below the ratchet. -/
theorem validateShare_iff {job : Job} {o : MinerObjects} {sub : Submission}
    {d : U64} (hsub : Submittable H job o sub ctx d) :
    (∃ r, validateShare H job job.roundId o sub ctx = .ok r)
      ↔ o.round.minHeight ≤ job.height := by
  constructor
  · rintro ⟨⟨o', v⟩, hok⟩
    obtain ⟨-, -, hle, -⟩ := recordShare_ok (validateShare_ok hok).record_ok
    exact hle
  · intro hle
    obtain ⟨count, hcount, -⟩ := add_of_lt Abort.arithmetic
      (a := o.dedup.count) (b := 1) hsub.table_room
    obtain ⟨total, htotal, -⟩ := add_of_lt Abort.arithmetic
      (a := o.stats.totalShares) (b := 1) hsub.total_room
    obtain ⟨blocks, hblocks⟩ := countBlock_of_room
      (decide (job.cachedNetworkDifficulty ≤ d)) hsub.blocks_room
    obtain ⟨work, hwork, -⟩ := add_of_lt Abort.arithmetic
      (a := o.round.work) (b := d.setWidth 128)
      (by rw [toNat_widen]; exact hsub.work_room)
    obtain ⟨shares, hshares, -⟩ := add_of_lt Abort.arithmetic
      (a := o.round.shares) (b := 1) hsub.shares_room
    have hdedup : ∃ t, checkAndRecord o.dedup (job.shareHash H sub)
        = .ok t := by
      exact ⟨_, bind_eq_ok.mpr ⟨(), require_eq_ok.mpr hsub.fresh,
        bind_eq_ok.mpr ⟨count, hcount, rfl⟩⟩⟩
    have hrecord : ∃ r, recordShare o.stats o.round d
        (decide (job.cachedNetworkDifficulty ≤ d)) job.roundId job.height
          = .ok r := by
      exact ⟨_, bind_eq_ok.mpr ⟨(), require_eq_ok.mpr hsub.stats_round,
        bind_eq_ok.mpr ⟨(), require_eq_ok.mpr hsub.stats_mine,
        bind_eq_ok.mpr ⟨(), require_eq_ok.mpr hle,
        bind_eq_ok.mpr ⟨total, htotal, bind_eq_ok.mpr ⟨blocks, hblocks,
        bind_eq_ok.mpr ⟨work, hwork, bind_eq_ok.mpr ⟨shares, hshares,
          rfl⟩⟩⟩⟩⟩⟩⟩⟩
    obtain ⟨t, hdedup⟩ := hdedup
    obtain ⟨⟨stats, round⟩, hrecord⟩ := hrecord
    refine ⟨_, bind_eq_ok.mpr ⟨(), require_eq_ok.mpr hsub.mine,
      bind_eq_ok.mpr ⟨(), require_eq_ok.mpr hsub.table_mine,
      bind_eq_ok.mpr ⟨(), require_eq_ok.mpr hsub.table_round,
      bind_eq_ok.mpr ⟨(), require_eq_ok.mpr hsub.version,
      bind_eq_ok.mpr ⟨true, hsub.ntime,
      bind_eq_ok.mpr ⟨(), require_eq_ok.mpr rfl,
      bind_eq_ok.mpr ⟨d, hsub.worth,
      bind_eq_ok.mpr ⟨(), require_eq_ok.mpr hsub.enough,
      bind_eq_ok.mpr ⟨t, hdedup,
      bind_eq_ok.mpr ⟨(stats, round), hrecord, rfl⟩⟩⟩⟩⟩⟩⟩⟩⟩⟩⟩

/-- The same of the whole call. -/
theorem World.submitShare_iff {w : World} {tid : ID} {t : TemplateObject}
    {ids : ShareIds} {o : MinerObjects} {sub : Submission} {d : U64}
    (ht : w.mining.templates.get tid = some t)
    (ho : w.mining.minerObjects ids = .ok o)
    (hsub : Submittable H t.template.job o sub w.ctx d) :
    (∃ w', w.exec H (.mining (.submitShare tid ids sub)) = .ok w')
      ↔ o.round.minHeight ≤ t.template.height := by
  refine Iff.trans ?_ (validateShare_iff hsub)
  constructor
  · rintro ⟨w', hok⟩
    simp only [World.exec, Mining.exec, Mining.submitShare, submitShare,
      validateShareAgainstTemplate, bind_eq_ok, load_eq_ok, pure_eq_ok] at hok
    obtain ⟨_, ⟨t', ht', o', ho', _, ⟨r, hval, -⟩, -⟩, -⟩ := hok
    rw [ht] at ht'
    rw [ho] at ho'
    cases ht'
    cases ho'
    exact ⟨r, hval⟩
  · rintro ⟨⟨objects, v⟩, hval⟩
    exact ⟨_, bind_eq_ok.mpr ⟨_, bind_eq_ok.mpr ⟨t, load_eq_ok.mpr ht,
      bind_eq_ok.mpr ⟨o, ho, bind_eq_ok.mpr ⟨_,
        bind_eq_ok.mpr ⟨_, hval, rfl⟩, rfl⟩⟩⟩, rfl⟩⟩

-- ====================================================== the pool's height

/-- The pool's height is the greatest of any template's. -/
structure PoolHeight (m : Mining) : Prop where
  covers : m.templates.All fun t => t.template.height ≤ m.pool.currentHeight
  reached : m.pool.currentHeight = 0 ∨ ∃ i t, m.templates.get i = some t
    ∧ t.template.height = m.pool.currentHeight

theorem PoolHeight.step {ev : MiningEvent} (hb : PoolHeight m)
    (hs : Mining.Step H ctx m ev m') : PoolHeight m' := by
  cases hs with
  | quiet hq =>
      constructor
      · intro i t hi
        rcases hq.heights i t hi with hold | hle
        · exact BitVec.le_trans (hb.covers i t hold) hq.height_le
        · exact hle
      · rcases hq.height_reached with hsame | hnew
        · apply hb.reached.imp hsame.trans
          rintro ⟨i, t, hi, heq⟩
          exact ⟨i, t, hq.templates_kept i t hi, heq.trans hsame.symm⟩
        · exact .inr hnew
  | finalize hacc hok =>
      have hsame := finalizeRound_height hok
      constructor
      · intro i t hi
        show _ ≤ Pool.currentHeight _
        rw [hsame]
        exact hb.covers i t hi
      · show Pool.currentHeight _ = 0 ∨ _
        rw [hsame]
        exact hb.reached
  | createRoundStats | closeRoundStats | createDedup | dropHashes
  | deleteDedup | share | clearReceipts | mint | openAccumulator | skip
  | count | consume => exact ⟨hb.covers, hb.reached⟩

theorem poolHeight_of_reach {publisher : Address} {w : World}
    (h : Machine.Reach (contract H publisher) w) : PoolHeight w.mining :=
  mining_invariant_always ⟨.empty, .inl rfl⟩ (fun _ _ _ _ hb hs => hb.step hs)
    h

theorem PoolHeight.le_iff (hb : PoolHeight m) {h : U64} :
    m.pool.currentHeight ≤ h ↔ m.templates.All fun t =>
      t.template.height ≤ h := by
  constructor
  · intro hle
    exact hb.covers.imp fun _ ht => BitVec.le_trans ht hle
  · intro hall
    rcases hb.reached with hzero | ⟨i, t, hi, heq⟩
    · rw [hzero]
      exact BitVec.le_def.mpr (Nat.zero_le _)
    · rw [← heq]
      exact hall i t hi

/-- What a live stats object holds its miner to: its start, and the
shares recorded since. -/
theorem Ratchet.minHeight_le_iff {k : MinerRoundKey} {start h : U64}
    (hr : Ratchet k start m) (hb : HeightBooks m) {sid : ID}
    {s : MinerRoundStats} (hsid : m.roundStats.get sid = some s)
    (hkey : s.key = k) :
    s.minHeight ≤ h ↔ start ≤ h ∧ ∀ i e, m.shares.get i = some e →
      e.key = k → e.height ≤ h := by
  constructor
  · intro hle
    refine ⟨BitVec.le_trans (hr.stats_le sid s hsid hkey) hle, ?_⟩
    intro i e hi he
    exact BitVec.le_trans (hb.above sid s hsid i e hi (he.trans hkey.symm))
      hle
  · rintro ⟨hstart, hshares⟩
    rcases hr.stats_at sid s hsid hkey with heq | ⟨i, e, hi, he, heq⟩
    · rw [heq]
      exact hstart
    · rw [← heq]
      exact hshares i e hi he

-- ============================================================= the miner

/-- A miner makes its stats object for the current round with the pool's
height. From then on, on whatever template, a share of it that passes all
the rest is accepted iff no template registered before the object was
made is higher, and no share of the miner's own in the round is. -/
theorem miner_accepted_iff {publisher : Address} {w₀ w₁ w : World}
    (h : Machine.Reach (contract H publisher) w₀)
    (hmade : w₀.exec H (.mining (.createRoundStats
      w₀.mining.pool.currentRound w₀.mining.pool.currentHeight)) = .ok w₁)
    (hlater : (contract H publisher).Leads w₁ w)
    {tid : ID} {t : TemplateObject}
    (ht : w.mining.templates.get tid = some t) {ids : ShareIds}
    {o : MinerObjects} (ho : w.mining.minerObjects ids = .ok o)
    (hkey : o.round.key = ⟨w₀.ctx.sender, w₀.mining.pool.currentRound⟩)
    {sub : Submission} {d : U64}
    (hsub : Submittable H t.template.job o sub w.ctx d) :
    (∃ w', w.exec H (.mining (.submitShare tid ids sub)) = .ok w')
      ↔ (∀ i u, w₀.mining.templates.get i = some u →
          u.template.height ≤ t.template.height)
        ∧ ∀ i e, w.mining.shares.get i = some e → e.key = o.round.key →
          e.height ≤ t.template.height := by
  have hstart := Ratchet.created (heightFacts_of_reach h) hmade
  rw [← hkey] at hstart
  have hcall : (contract H publisher).Leads w₀ w₁ :=
    .call (.mining (.createRoundStats _ _)) hmade
  have hheights :=
    (heightFacts_of_reach ((h.leads hcall).leads hlater)).heights
  obtain ⟨-, hsid, -⟩ := minerObjects_eq_ok ho
  rw [World.submitShare_iff ht ho hsub,
    (hstart.leads hlater).minHeight_le_iff hheights hsid rfl,
    (poolHeight_of_reach h).le_iff]
  exact Iff.rfl

-- =============================================================== two runs

/-- From here the sender makes its stats object as the client does and a
table; and the solved header on template `tid`, an operator's of the
round and the newest, would pass all the rest. -/
def readyOn (tid : ID) (w₀ : World) (check : TemplateObject → Bool) : Bool :=
  (w₀.exec sha256 (.mining (.createRoundStats w₀.mining.pool.currentRound
      w₀.mining.pool.currentHeight))).toOption.any fun w₁ =>
    (w₁.exec sha256 (.mining (.createShareDedup
        w₀.mining.pool.currentRound))).toOption.any fun w =>
      (w.mining.templates.get tid).any fun t =>
        (w.mining.minerObjects ⟨0, 0, 0⟩).toOption.any fun o =>
          (difficultyFromHash
              (t.template.job.shareHash sha256 solution125552)).toOption.any
            fun d => check t && decide (
              (t.lane = .operator ∧ w.mining.templates.next = tid + 1
                ∧ t.template.roundId = w.mining.pool.currentRound)
              ∧ o.round.key = ⟨w₀.ctx.sender, w₀.mining.pool.currentRound⟩
              ∧ Submittable sha256 t.template.job o solution125552 w.ctx d)

structure Ready (tid : ID) (w₀ w₁ w : World) (t : TemplateObject)
    (o : MinerObjects) (d : U64) : Prop where
  made : w₀.exec sha256 (.mining (.createRoundStats
    w₀.mining.pool.currentRound w₀.mining.pool.currentHeight)) = .ok w₁
  later : (contract sha256 0).Leads w₁ w
  template : w.mining.templates.get tid = some t
  operator : t.lane = .operator
  newest : w.mining.templates.next = tid + 1
  in_round : t.template.roundId = w.mining.pool.currentRound
  objects : w.mining.minerObjects ⟨0, 0, 0⟩ = .ok o
  key_eq : o.round.key = ⟨w₀.ctx.sender, w₀.mining.pool.currentRound⟩
  passes : Submittable sha256 t.template.job o solution125552 w.ctx d

theorem ready_of_readyOn {tid : ID} {w₀ : World}
    {check : TemplateObject → Bool} (h : readyOn tid w₀ check = true) :
    ∃ w₁ w t o d, Ready tid w₀ w₁ w t o d ∧ check t = true := by
  obtain ⟨w₁, hw₁, h⟩ := (Option.any_eq_true ..).mp h
  obtain ⟨w, hw, h⟩ := (Option.any_eq_true ..).mp h
  obtain ⟨t, ht, h⟩ := (Option.any_eq_true ..).mp h
  obtain ⟨o, ho, h⟩ := (Option.any_eq_true ..).mp h
  obtain ⟨d, -, h⟩ := (Option.any_eq_true ..).mp h
  rw [Bool.and_eq_true] at h
  obtain ⟨⟨hop, hnew, hround⟩, hkey, hsub⟩ := of_decide_eq_true h.2
  refine ⟨w₁, w, t, o, d, ?_, h.1⟩
  exact {
    made := toOption_eq_some.mp hw₁
    later := .call (.mining (.createShareDedup _)) (toOption_eq_some.mp hw)
    template := ht
    operator := hop
    newest := hnew
    in_round := hround
    objects := toOption_eq_some.mp ho
    key_eq := hkey
    passes := hsub }

/-- With only the operator's template there, its share is accepted. -/
theorem miner_accepted_iff_alone :
    ∃ w₀ w₁ w t o d, Machine.Reach (contract sha256 0) w₀
      ∧ Ready 0 w₀ w₁ w t o d
      ∧ ((∃ w', w.exec sha256 (.mining (.submitShare 0 ⟨0, 0, 0⟩
            solution125552)) = .ok w')
          ↔ (∀ i u, w₀.mining.templates.get i = some u →
              u.template.height ≤ t.template.height)
            ∧ ∀ i e, w.mining.shares.get i = some e →
              e.key = o.round.key → e.height ≤ t.template.height) := by
  have hrun : (contract sha256 0).endsIn
      [.admin (.registerTemplate block125552),
       .beginTx 1 0 0,
       .mining (.registerMiner [])]
      (fun w₀ => readyOn 0 w₀ fun _ => true) = true := by
    decide +kernel
  obtain ⟨w₀, hw₀, hcheck⟩ := Machine.reach_of_endsIn hrun
  obtain ⟨w₁, w, t, o, d, hready, -⟩ := ready_of_readyOn hcheck
  exact ⟨w₀, w₁, w, t, o, d, hw₀, hready,
    miner_accepted_iff hw₀ hready.made hready.later hready.template
      hready.objects hready.key_eq hready.passes⟩

/-- An outsider pays the fee for a template of the greatest height there
is, before the miner comes. -/
def tallTemplate : List Call :=
  [.beginTx 7 0 0,
   .mining (.registerTemplatePublic 10_000_000
     { block125552 with height := 0xFFFFFFFFFFFFFFFF }),
   .beginTx 0 0 0,
   .admin (.registerTemplate block125552),
   .beginTx 1 0 0,
   .mining (.registerMiner [])]

/-- No share of the miner's in the round is ever accepted on the
operator's template. -/
theorem miner_locked_out :
    ∃ w₀ w₁ w t o d, Machine.Reach (contract sha256 0) w₀
      ∧ Ready 1 w₀ w₁ w t o d
      ∧ ∀ w', (contract sha256 0).Leads w w' → ∀ ids o',
          w'.mining.minerObjects ids = .ok o' →
          o'.round.key = o.round.key →
          ∀ sub w'', w'.exec sha256 (.mining (.submitShare 1 ids sub))
            ≠ .ok w'' := by
  have hrun : (contract sha256 0).endsIn tallTemplate (fun w₀ =>
      decide (w₀.mining.pool.currentHeight = 0xFFFFFFFFFFFFFFFF)
        && readyOn 1 w₀ fun t => decide (t.template.height = 125552))
      = true := by
    decide +kernel
  obtain ⟨w₀, hw₀, hcheck⟩ := Machine.reach_of_endsIn hrun
  rw [Bool.and_eq_true, decide_eq_true_eq] at hcheck
  obtain ⟨hpool, hready⟩ := hcheck
  obtain ⟨w₁, w, t, o, d, hready, hheight⟩ := ready_of_readyOn hready
  replace hheight : t.template.height = 125552 := of_decide_eq_true hheight
  refine ⟨w₀, w₁, w, t, o, d, hw₀, hready, ?_⟩
  intro w' hw' ids o' ho' hkey sub w'' hs
  -- The ratchet started at the outsider's height.
  have hstart := Ratchet.created (heightFacts_of_reach hw₀) hready.made
  rw [← hready.key_eq, hpool] at hstart
  have hrat := (hstart.leads hready.later).leads hw'
  have ht : w'.mining.templates.get 1 = some t :=
    Machine.ReachVia.invariant
      (I := fun w => w.mining.templates.get 1 = some t) hready.template
      (fun _ _ _ ht _ hs => (World.exec_templates_kept hs).1 1 t ht) hw'
  obtain ⟨-, hsid, -⟩ := minerObjects_eq_ok ho'
  have hbound := hrat.stats_le _ _ hsid hkey
  have htrace := World.exec_mining hs
  generalize w''.mining = after at htrace
  cases htrace.of_single with
  | @share _ _ _ payment job o'' out receipts h =>
      have hjob := (job_direct ht).symm.trans h.job_eq
      cases hjob
      have hround := h.round_get
      rw [hsid] at hround
      injection hround with hround
      obtain ⟨-, hle, -⟩ := h.round_ok
      rw [← hround] at hle
      have htall := BitVec.le_trans hbound hle
      rw [show t.template.job.height = 125552 from hheight] at htall
      exact absurd htall (by decide)

end M1n3Protocol
